import Mathlib.Data.List.Basic
import Mathlib.Data.List.Pairwise
import Mathlib.Order.Basic

/-!
# Runs of a partial step function

A step takes an input and a state and either stops with a reason or gives an
output and the next state.  A run feeds a list of inputs one after another and
collects the outputs; the first step that stops ends the run.  The rules below
carry what one step does to what a whole run does.
-/

namespace Quid.Foundation

theorem bind_eq_ok {ε α β : Type} {first : Except ε α} {next : α → Except ε β}
    {b : β} : first >>= next = .ok b ↔ ∃ a, first = .ok a ∧ next a = .ok b := by
  cases first <;> simp [bind, Except.bind]

@[simp] theorem pure_eq_ok {ε α : Type} {a b : α} :
    (pure a : Except ε α) = .ok b ↔ a = b := by
  simp [pure, Except.pure]

@[simp] theorem ok_bind {ε α β : Type} (a : α) (f : α → Except ε β) :
    (Except.ok a >>= f) = f a := rfl

theorem bind_eq_error {ε α β : Type} {first : Except ε α} {next : α → Except ε β}
    {reason : ε} :
    first >>= next = .error reason ↔
      first = .error reason ∨ ∃ a, first = .ok a ∧ next a = .error reason := by
  cases first <;> simp [bind, Except.bind]

theorem eq_ok_of_isOk {ε α : Type} {result : Except ε α} (h : result.isOk = true) :
    ∃ a, result = .ok a := by
  cases result with
  | error reason => cases h
  | ok a => exact ⟨a, rfl⟩

variable {ε σ ι ο : Type}

def run (step : ι → σ → Except ε (ο × σ)) : List ι → σ → Except ε (List ο × σ)
  | [], s => .ok ([], s)
  | i :: inputs, s => do
      let (o, s) ← step i s
      let (outputs, s) ← run step inputs s
      return (o :: outputs, s)

def Throughout (step : ι → σ → Except ε (ο × σ)) (C : ι → σ → Prop) :
    List ι → σ → Prop
  | [], _ => True
  | i :: inputs, s =>
      C i s ∧ ∀ o s', step i s = .ok (o, s') → Throughout step C inputs s'

section

variable {step : ι → σ → Except ε (ο × σ)}

theorem run_cons_eq_ok {i : ι} {inputs : List ι} {s s' : σ} {outputs : List ο} :
    run step (i :: inputs) s = .ok (outputs, s') ↔
      ∃ o s₁ rest, step i s = .ok (o, s₁) ∧ run step inputs s₁ = .ok (rest, s') ∧
        outputs = o :: rest := by
  simp only [run, bind_eq_ok, pure_eq_ok]
  constructor
  · rintro ⟨⟨o, s₁⟩, hstep, ⟨rest, s₂⟩, hrun, heq⟩
    cases heq
    exact ⟨o, s₁, rest, hstep, hrun, rfl⟩
  · rintro ⟨o, s₁, rest, hstep, hrun, rfl⟩
    exact ⟨(o, s₁), hstep, (rest, s'), hrun, rfl⟩

theorem run_append_eq_ok {first second : List ι} {s s' : σ} {outputs : List ο} :
    run step (first ++ second) s = .ok (outputs, s') ↔
      ∃ o₁ s₁ o₂, run step first s = .ok (o₁, s₁) ∧ run step second s₁ = .ok (o₂, s') ∧
        outputs = o₁ ++ o₂ := by
  induction first generalizing s outputs with
  | nil => simp [run]
  | cons i first ih =>
      simp only [List.cons_append, run_cons_eq_ok]
      constructor
      · rintro ⟨o, s₁, rest, hstep, hrun, rfl⟩
        obtain ⟨o₁, s₂, o₂, h₁, h₂, rfl⟩ := ih.mp hrun
        exact ⟨o :: o₁, s₂, o₂, ⟨o, s₁, o₁, hstep, h₁, rfl⟩, h₂, rfl⟩
      · rintro ⟨_, s₂, o₂, ⟨o, s₁, o₁, hstep, h₁, rfl⟩, h₂, rfl⟩
        exact ⟨o, s₁, o₁ ++ o₂, hstep, ih.mpr ⟨o₁, s₂, o₂, h₁, h₂, rfl⟩, rfl⟩

theorem run_output_length {inputs : List ι} {s s' : σ} {outputs : List ο}
    (hrun : run step inputs s = .ok (outputs, s')) : outputs.length = inputs.length := by
  induction inputs generalizing s outputs with
  | nil =>
      cases hrun
      rfl
  | cons i inputs ih =>
      obtain ⟨o, s₁, rest, -, hrest, rfl⟩ := run_cons_eq_ok.mp hrun
      rw [List.length_cons, List.length_cons, ih hrest]

theorem run_output_mem {inputs : List ι} {s s' : σ} {outputs : List ο}
    (hrun : run step inputs s = .ok (outputs, s')) {o : ο} (ho : o ∈ outputs) :
    ∃ i ∈ inputs, ∃ s₁ s₂, step i s₁ = .ok (o, s₂) := by
  induction inputs generalizing s outputs with
  | nil =>
      cases hrun
      cases ho
  | cons i inputs ih =>
      obtain ⟨first, s₁, rest, hstep, hrest, rfl⟩ := run_cons_eq_ok.mp hrun
      rcases List.mem_cons.mp ho with rfl | ho
      · exact ⟨i, List.mem_cons_self, s, s₁, hstep⟩
      · obtain ⟨j, hj, hfound⟩ := ih hrest ho
        exact ⟨j, List.mem_cons_of_mem _ hj, hfound⟩

/--
The invariant rule: what every step that starts where `C` holds preserves, a
run whose steps all meet `C` preserves.
-/
theorem run_invariant {C : ι → σ → Prop} (Inv : σ → Prop)
    (hstep : ∀ i s o s', C i s → Inv s → step i s = .ok (o, s') → Inv s')
    {inputs : List ι} {s s' : σ} {outputs : List ο}
    (hmeets : Throughout step C inputs s) (hinv : Inv s)
    (hrun : run step inputs s = .ok (outputs, s')) : Inv s' := by
  induction inputs generalizing s outputs with
  | nil =>
      cases hrun
      exact hinv
  | cons i inputs ih =>
      obtain ⟨o, s₁, rest, h₁, hrest, -⟩ := run_cons_eq_ok.mp hrun
      exact ih (hmeets.2 o s₁ h₁) (hstep i s o s₁ hmeets.1 hinv h₁) hrest

theorem run_ne_error {C : ι → σ → Prop} {reason : ε} (Inv : σ → Prop)
    (hstep : ∀ i s o s', C i s → Inv s → step i s = .ok (o, s') → Inv s')
    (hsafe : ∀ i s, C i s → Inv s → step i s ≠ .error reason)
    {inputs : List ι} {s : σ} (hmeets : Throughout step C inputs s) (hinv : Inv s) :
    run step inputs s ≠ .error reason := by
  induction inputs generalizing s with
  | nil => simp [run]
  | cons i inputs ih =>
      intro hrun
      rcases bind_eq_error.mp hrun with hfirst | ⟨⟨o, s₁⟩, hfirst, hrest⟩
      · exact hsafe i s hmeets.1 hinv hfirst
      · rcases bind_eq_error.mp hrest with hrest | ⟨⟨outputs, s₂⟩, -, hdone⟩
        · exact ih (hmeets.2 o s₁ hfirst) (hstep i s o s₁ hmeets.1 hinv hfirst) hrest
        · cases hdone

theorem throughout_iff {C : ι → σ → Prop} {inputs : List ι} {s : σ} :
    Throughout step C inputs s ↔
      ∀ before i after outputs s', inputs = before ++ i :: after →
        run step before s = .ok (outputs, s') → C i s' := by
  induction inputs generalizing s with
  | nil => simp [Throughout]
  | cons first inputs ih =>
      constructor
      · rintro ⟨hfirst, hrest⟩ before i after outputs s' hsplit hrun
        cases before with
        | nil =>
            cases hsplit
            cases hrun
            exact hfirst
        | cons head before =>
            obtain ⟨rfl, htail⟩ := List.cons.inj hsplit
            obtain ⟨o, s₁, rest, hstep, hlater, rfl⟩ := run_cons_eq_ok.mp hrun
            exact ih.mp (hrest o s₁ hstep) before i after rest s' htail hlater
      · intro h
        refine ⟨h [] first inputs [] s rfl rfl, fun o s₁ hstep => ih.mpr ?_⟩
        intro before i after outputs s' hsplit hrun
        exact h (first :: before) i after (o :: outputs) s' (by rw [hsplit]; rfl)
          (run_cons_eq_ok.mpr ⟨o, s₁, outputs, hstep, hrun, rfl⟩)

theorem throughout_congr {A C D : ι → σ → Prop} (hiff : ∀ i s, A i s → (C i s ↔ D i s))
    {inputs : List ι} {s : σ} (hmeets : Throughout step A inputs s) :
    Throughout step C inputs s ↔ Throughout step D inputs s := by
  induction inputs generalizing s with
  | nil => exact Iff.rfl
  | cons i inputs ih =>
      refine and_congr (hiff i s hmeets.1) ?_
      exact forall₃_congr fun o s' hstep => ih (hmeets.2 o s' hstep)

theorem Throughout.and_mem {C : ι → σ → Prop} {V : ι → Prop} {inputs : List ι} {s : σ}
    (hmeets : Throughout step C inputs s) (hvalid : ∀ i ∈ inputs, V i) :
    Throughout step (fun i s => V i ∧ C i s) inputs s := by
  refine throughout_iff.mpr fun before i after outputs s' hsplit hrun => ⟨?_, ?_⟩
  · exact hvalid i (by simp [hsplit])
  · exact throughout_iff.mp hmeets before i after outputs s' hsplit hrun

theorem Throughout.of_append {C : ι → σ → Prop} {first second : List ι} {s s' : σ}
    {outputs : List ο} (hmeets : Throughout step C (first ++ second) s)
    (hrun : run step first s = .ok (outputs, s')) :
    Throughout step C first s ∧ Throughout step C second s' := by
  have hreach := throughout_iff.mp hmeets
  refine ⟨throughout_iff.mpr ?_, throughout_iff.mpr ?_⟩
  · intro before i after outs t hsplit ht
    exact hreach before i (after ++ second) outs t (by simp [hsplit]) ht
  · intro before i after outs t hsplit ht
    exact hreach (first ++ before) i after (outputs ++ outs) t (by simp [hsplit])
      (run_append_eq_ok.mpr ⟨outputs, s', outs, hrun, ht, rfl⟩)

/--
The watermark rule: when every step gives an output whose key lies above the
mark of the state it starts in and not above the mark of the state it ends in,
the keys of a run increase strictly.
-/
theorem run_keys_increasing {κ : Type} [Preorder κ] {C : ι → σ → Prop}
    (Inv : σ → Prop) (key : ο → κ) (mark : σ → κ)
    (hstep : ∀ i s o s', C i s → Inv s → step i s = .ok (o, s') →
      Inv s' ∧ mark s < key o ∧ key o ≤ mark s')
    {inputs : List ι} {s s' : σ} {outputs : List ο}
    (hmeets : Throughout step C inputs s) (hinv : Inv s)
    (hrun : run step inputs s = .ok (outputs, s')) :
    outputs.Pairwise (fun a b => key a < key b) ∧ ∀ o ∈ outputs, mark s < key o := by
  induction inputs generalizing s outputs with
  | nil =>
      cases hrun
      simp
  | cons i inputs ih =>
      obtain ⟨o, s₁, rest, h₁, hrest, rfl⟩ := run_cons_eq_ok.mp hrun
      obtain ⟨hinv₁, hlow, hhigh⟩ := hstep i s o s₁ hmeets.1 hinv h₁
      obtain ⟨hpairs, habove⟩ := ih (hmeets.2 o s₁ h₁) hinv₁ hrest
      have hlater : ∀ b ∈ rest, key o < key b := fun b hb =>
        hhigh.trans_lt (habove b hb)
      refine ⟨List.pairwise_cons.mpr ⟨hlater, hpairs⟩, ?_⟩
      rintro b (_ | ⟨_, hb⟩)
      · exact hlow
      · exact hlow.trans (hlater b hb)

/--
The trail rule: when what is seen of the state moves up along a transitive
relation at every step, and the output is read off what is seen after it, the
outputs of a run are read off a trail that moves up throughout.
-/
theorem run_trail {κ ν : Type} {C : ι → σ → Prop} (Inv : σ → Prop) (view : σ → κ)
    (below : κ → κ → Prop) (htrans : ∀ a b c, below a b → below b c → below a c)
    (key : ο → ν) (value : κ → ν)
    (hstep : ∀ i s o s', C i s → Inv s → step i s = .ok (o, s') →
      Inv s' ∧ below (view s) (view s') ∧ key o = value (view s'))
    {inputs : List ι} {s s' : σ} {outputs : List ο}
    (hmeets : Throughout step C inputs s) (hinv : Inv s)
    (hrun : run step inputs s = .ok (outputs, s')) :
    ∃ trail : List κ, trail.Pairwise below ∧ outputs.map key = trail.map value ∧
      ∀ seen ∈ trail, below (view s) seen ∧ ∃ q, Inv q ∧ view q = seen := by
  induction inputs generalizing s outputs with
  | nil =>
      cases hrun
      exact ⟨[], by simp, rfl, by simp⟩
  | cons i inputs ih =>
      obtain ⟨o, s₁, rest, h₁, hrest, rfl⟩ := run_cons_eq_ok.mp hrun
      obtain ⟨hinv₁, hbelow, hkey⟩ := hstep i s o s₁ hmeets.1 hinv h₁
      obtain ⟨trail, hpairs, hread, hseen⟩ := ih (hmeets.2 o s₁ h₁) hinv₁ hrest
      refine ⟨view s₁ :: trail, ?_, ?_, ?_⟩
      · exact List.pairwise_cons.mpr ⟨fun seen hmem => (hseen seen hmem).1, hpairs⟩
      · simp [hkey, hread]
      · rintro seen (_ | ⟨_, hmem⟩)
        · exact ⟨hbelow, s₁, hinv₁, rfl⟩
        · exact ⟨htrans _ _ _ hbelow (hseen seen hmem).1, (hseen seen hmem).2⟩

/--
The position rule: when the `k`-th step answers its input as `output k` says, a
run of valid inputs gives exactly these answers, and it never stops.
-/
theorem run_eq_mapIdx {V : ι → Prop} (Inv : Nat → σ → Prop) (output : Nat → ι → ο)
    (hstep : ∀ k i s, V i → Inv k s → ∃ s', step i s = .ok (output k i, s') ∧ Inv (k + 1) s')
    {inputs : List ι} {k : Nat} {s : σ} (hvalid : ∀ i ∈ inputs, V i) (hinv : Inv k s) :
    ∃ s', run step inputs s = .ok (inputs.mapIdx fun j => output (k + j), s') ∧
      Inv (k + inputs.length) s' := by
  induction inputs generalizing k s with
  | nil => exact ⟨s, rfl, hinv⟩
  | cons i inputs ih =>
      obtain ⟨hhead, htail⟩ := List.forall_mem_cons.mp hvalid
      obtain ⟨s₁, hfirst, hinv₁⟩ := hstep k i s hhead hinv
      obtain ⟨s₂, hrest, hinv₂⟩ := ih htail hinv₁
      refine ⟨s₂, run_cons_eq_ok.mpr ⟨_, s₁, _, hfirst, hrest, ?_⟩, ?_⟩
      · simp [List.mapIdx_cons, Nat.add_right_comm, Nat.add_assoc]
      · rwa [Nat.add_right_comm] at hinv₂

theorem throughout_true (inputs : List ι) (s : σ) :
    Throughout step (fun _ _ => True) inputs s := by
  induction inputs generalizing s with
  | nil => trivial
  | cons i inputs ih => exact ⟨trivial, fun _ s' _ => ih s'⟩

end

end Quid.Foundation
