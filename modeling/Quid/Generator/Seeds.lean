import Quid.Generator.Calls

/-!
# The seed counters

`true_random` and `get_memory_seed` count their calls and seed anew when a
counter shows 0.  The counters start over only on equality with limits that the
setters change, so a limit set below its counter is never met again.
-/

namespace Quid

open Quid.Foundation
open Quid.Foundation.CyclicCounter

inductive SeedOp where
  | setRndSeed (cnt : Int)
  | setMemSeed (cnt : Int)
  | trueRandom
  | getMemorySeed
  deriving DecidableEq, Repr

def SeedOp.Valid : SeedOp → Prop
  | .setRndSeed cnt | .setMemSeed cnt => 0 ≤ cnt ∧ cnt ≤ intMax
  | .trueRandom | .getMemorySeed => True

def seedStep : SeedOp → Process → Except Stop (Unit × Process)
  | .setRndSeed cnt, p => .ok ((), quidSetRndSeed cnt p)
  | .setMemSeed cnt, p => .ok ((), quidSetMemSeed cnt p)
  | .trueRandom, p => do
      let (_, p) ← trueRandom p
      return ((), p)
  | .getMemorySeed, p => do
      let (_, p) ← getMemorySeed p
      return ((), p)

/-- A new limit does not lie below its counter. -/
def LimitKept : SeedOp → Process → Prop
  | .setRndSeed cnt, p => p.rndSeedCount ≤ cnt
  | .setMemSeed cnt, p => p.memSeedCount ≤ cnt
  | .trueRandom, _ | .getMemorySeed, _ => True

def SeedCountsBounded (p : Process) : Prop :=
  Within p.rndSeedCount p.maxRndSeed ∧ Within p.memSeedCount p.maxMemSeed

instance (p : Process) : Decidable (SeedCountsBounded p) :=
  inferInstanceAs (Decidable (_ ∧ _))

structure ReseedKept (ops : List SeedOp) (p : Process) : Prop where
  bounded : ∀ done outputs q, done <+: ops → run seedStep done p = .ok (outputs, q) →
    SeedCountsBounded q
  reseeds : ∀ before during after outputs q outputs' q', ops = before ++ during ++ after →
    (∀ cnt, .setRndSeed cnt ∉ during) → run seedStep before p = .ok (outputs, q) →
    run seedStep during q = .ok (outputs', q') →
    q.maxRndSeed + 1 ≤ during.count .trueRandom →
    ∃ seed events, q'.trace = q.trace ++ events ∧ .srand seed ∈ events
  no_overflow : ∀ done, done <+: ops → run seedStep done p ≠ .error .overflow

structure SeedsSound (p : Process) : Prop where
  bounded : SeedCountsBounded p
  rnd_limit : p.maxRndSeed ≤ intMax
  mem_limit : p.maxMemSeed ≤ intMax
  clock : .error .overflow ∉ p.clock

variable {p p' q : Process} {op : SeedOp} {ops : List SeedOp}

/-! ## One step -/

theorem trueRandom_sound {value : UInt16} (h : SeedsSound p)
    (hcall : trueRandom p = .ok (value, p')) : SeedsSound p' := by
  have hframe := trueRandom_frame hcall
  have hclock : .error .overflow ∉ p'.clock := by
    rcases trueRandom_clock hcall with heq | ⟨reading, heq⟩
    · rw [heq]
      exact h.clock
    · exact fun hmem => h.clock (by rw [heq]; exact List.mem_cons_of_mem _ hmem)
  constructor
  · rw [hframe]
    exact ⟨h.bounded.1.advance, h.bounded.2⟩
  · rw [hframe]
    exact h.rnd_limit
  · rw [hframe]
    exact h.mem_limit
  · exact hclock

theorem getMemorySeed_sound {node : CuuidNode} (h : SeedsSound p)
    (hcall : getMemorySeed p = .ok (node, p')) : SeedsSound p' := by
  rw [getMemorySeed_frame hcall]
  exact ⟨⟨h.bounded.1, h.bounded.2.advance⟩, h.rnd_limit, h.mem_limit, h.clock⟩

theorem seedStep_sound {output : Unit} (hop : op.Valid ∧ LimitKept op p) (h : SeedsSound p)
    (hstep : seedStep op p = .ok (output, p')) : SeedsSound p' := by
  cases op with
  | setRndSeed cnt =>
      cases hstep
      exact ⟨⟨⟨h.bounded.1.1, hop.2⟩, h.bounded.2⟩, hop.1.2, h.mem_limit, h.clock⟩
  | setMemSeed cnt =>
      cases hstep
      exact ⟨⟨h.bounded.1, ⟨h.bounded.2.1, hop.2⟩⟩, h.rnd_limit, hop.1.2, h.clock⟩
  | trueRandom =>
      obtain ⟨⟨value, p₁⟩, hcall, hdone⟩ := bind_eq_ok.mp hstep
      cases hdone
      exact trueRandom_sound h hcall
  | getMemorySeed =>
      obtain ⟨⟨node, p₁⟩, hcall, hdone⟩ := bind_eq_ok.mp hstep
      cases hdone
      exact getMemorySeed_sound h hcall

theorem getTickCount_ne_overflow (ndebug : Bool) (answer : TimeOfDay) :
    getTickCount ndebug answer ≠ .error .overflow := by
  unfold getTickCount cAssert
  split <;> simp

theorem seedRandom_ne_overflow (h : SeedsSound p) : seedRandom p ≠ .error .overflow := by
  unfold seedRandom
  split
  · simp
  · intro herror
    rcases bind_eq_error.mp herror with hnext | ⟨_, _, hdone⟩
    · unfold nextSystemTime at hnext
      split at hnext
      · cases hnext
      · next outcome clock hclock =>
          rcases bind_eq_error.mp hnext with hout | ⟨_, _, hdone⟩
          · exact h.clock (by rw [hclock, hout]; exact List.mem_cons_self)
          · cases hdone
    · cases hdone

theorem trueRandom_ne_overflow (h : SeedsSound p) : trueRandom p ≠ .error .overflow := by
  intro herror
  rcases bind_eq_error.mp herror with hseed | ⟨q, hq, hrest⟩
  · exact seedRandom_ne_overflow h hseed
  · have hcount : advanceCount q.rndSeedCount q.maxRndSeed =
        .ok (advance q.rndSeedCount q.maxRndSeed) := by
      rw [seedRandom_frame hq]
      exact advanceCount_within h.bounded.1 h.rnd_limit
    rw [hcount, ok_bind] at hrest
    rcases bind_eq_error.mp hrest with htick | ⟨tick, -, hdone⟩
    · exact getTickCount_ne_overflow _ _ htick
    · cases hdone

theorem readSeedFile_ne_overflow (file : RandFile) :
    readSeedFile file ≠ .error .overflow := by
  unfold readSeedFile
  cases file.content with
  | none =>
      simp only
      split <;> [simp; split <;> simp]
  | some content =>
      simp only
      split <;> [simp; split <;> simp]

theorem getMemorySeed_ne_overflow (h : SeedsSound p) :
    getMemorySeed p ≠ .error .overflow := by
  intro herror
  rcases bind_eq_error.mp herror with hload | ⟨q, hq, hrest⟩
  · unfold loadMemorySeed at hload
    split at hload
    · cases hload
    · rcases bind_eq_error.mp hload with hread | ⟨_, _, hdone⟩
      · exact readSeedFile_ne_overflow _ hread
      · cases hdone
  · have hcount : advanceCount q.memSeedCount q.maxMemSeed =
        .ok (advance q.memSeedCount q.maxMemSeed) := by
      rw [loadMemorySeed_frame hq]
      exact advanceCount_within h.bounded.2 h.mem_limit
    rw [hcount] at hrest
    cases hrest

theorem seedStep_ne_overflow (h : SeedsSound p) : seedStep op p ≠ .error .overflow := by
  cases op with
  | setRndSeed cnt => simp [seedStep]
  | setMemSeed cnt => simp [seedStep]
  | trueRandom =>
      intro herror
      rcases bind_eq_error.mp herror with hcall | ⟨_, _, hdone⟩
      · exact trueRandom_ne_overflow h hcall
      · cases hdone
  | getMemorySeed =>
      intro herror
      rcases bind_eq_error.mp herror with hcall | ⟨_, _, hdone⟩
      · exact getMemorySeed_ne_overflow h hcall
      · cases hdone

/-! ## Seeding within a run -/

theorem seedStep_quiet {output : Unit} (hdraw : op ≠ .trueRandom)
    (hset : ∀ cnt, op ≠ .setRndSeed cnt) (hstep : seedStep op p = .ok (output, p')) :
    p'.rndSeedCount = p.rndSeedCount ∧ p'.maxRndSeed = p.maxRndSeed ∧
      p'.trace = p.trace := by
  cases op with
  | setRndSeed cnt => exact absurd rfl (hset cnt)
  | setMemSeed cnt =>
      cases hstep
      exact ⟨rfl, rfl, rfl⟩
  | trueRandom => exact absurd rfl hdraw
  | getMemorySeed =>
      obtain ⟨⟨node, p₁⟩, hcall, hdone⟩ := bind_eq_ok.mp hstep
      cases hdone
      rw [getMemorySeed_frame hcall]
      exact ⟨rfl, rfl, rfl⟩

theorem seedStep_trace {output : Unit} (hstep : seedStep op p = .ok (output, p')) :
    p.trace <+: p'.trace := by
  cases op with
  | setRndSeed cnt =>
      cases hstep
      exact List.prefix_rfl
  | setMemSeed cnt =>
      cases hstep
      exact List.prefix_rfl
  | trueRandom =>
      obtain ⟨⟨value, p₁⟩, hcall, hdone⟩ := bind_eq_ok.mp hstep
      cases hdone
      obtain ⟨seeding, tick, -, htrace, -, -⟩ := trueRandom_trace hcall
      rw [htrace]
      exact List.prefix_append _ _
  | getMemorySeed =>
      rw [(seedStep_quiet (by simp) (by simp) hstep).2.2]

theorem run_trace {outputs : List Unit} (hrun : run seedStep ops p = .ok (outputs, p')) :
    p.trace <+: p'.trace := by
  refine run_invariant (fun q => p.trace <+: q.trace) ?_ (throughout_true ops p)
    List.prefix_rfl hrun
  intro op q output q' _ hprefix hstep
  exact hprefix.trans (seedStep_trace hstep)

theorem run_reseeds {outputs : List Unit} (hset : ∀ cnt, .setRndSeed cnt ∉ ops)
    (hwithin : Within p.rndSeedCount p.maxRndSeed)
    (hdraws : distance p.rndSeedCount p.maxRndSeed < ops.count .trueRandom)
    (hrun : run seedStep ops p = .ok (outputs, p')) :
    ∃ seed events, p'.trace = p.trace ++ events ∧ .srand seed ∈ events := by
  induction ops generalizing p outputs with
  | nil =>
      have hpos := distance_nonneg hwithin
      simp at hdraws
      omega
  | cons op ops ih =>
      obtain ⟨output, q, rest, hstep, hrest, rfl⟩ := run_cons_eq_ok.mp hrun
      have hsetRest : ∀ cnt, .setRndSeed cnt ∉ ops :=
        fun cnt hmem => hset cnt (List.mem_cons_of_mem _ hmem)
      -- only draws move the counter, so the other operations leave the bound as it is
      by_cases hop : op = .trueRandom
      · subst hop
        obtain ⟨⟨value, q⟩, hcall, hdone⟩ := bind_eq_ok.mp hstep
        cases hdone
        obtain ⟨seeding, tick, -, htrace, hseeding, hzero⟩ := trueRandom_trace hcall
        obtain ⟨later, hlater⟩ := run_trace hrest
        by_cases hcount : p.rndSeedCount = 0
        · obtain ⟨event, hevent⟩ := List.exists_mem_of_ne_nil _ (hzero hcount)
          obtain ⟨seed, rfl⟩ := hseeding event hevent
          refine ⟨seed, _, by rw [← hlater, htrace, List.append_assoc], ?_⟩
          simp [hevent]
        -- the counter comes one closer to 0, and so does the number of draws left
        · have hframe := trueRandom_frame hcall
          have hcloser := distance_advance hwithin hcount
          have hwithin' : Within q.rndSeedCount q.maxRndSeed := by
            rw [hframe]
            exact hwithin.advance
          have hdraws' : distance q.rndSeedCount q.maxRndSeed < ops.count .trueRandom := by
            rw [hframe]
            simp only [List.count_cons_self, Nat.cast_add, Nat.cast_one] at hdraws
            simp only
            omega
          obtain ⟨seed, events, hevents, hmem⟩ := ih hsetRest hwithin' hdraws' hrest
          exact ⟨seed, _, by rw [hevents, htrace, List.append_assoc], by simp [hmem]⟩
      · have hkept : ∀ cnt, op ≠ .setRndSeed cnt := by
          rintro cnt rfl
          exact hset cnt List.mem_cons_self
        obtain ⟨hcount, hlimit, htrace⟩ := seedStep_quiet hop hkept hstep
        rw [List.count_cons_of_ne hop] at hdraws
        rw [← hcount, ← hlimit] at hwithin hdraws
        obtain ⟨seed, events, hevents, hmem⟩ := ih hsetRest hwithin hdraws hrest
        exact ⟨seed, events, by rw [hevents, htrace], hmem⟩

/-! ## Whole runs -/

theorem getSystemTime_ne_overflow (ndebug : Bool) (answer : TimeOfDay) :
    getSystemTime ndebug answer ≠ .error .overflow := by
  unfold getSystemTime cAssert
  split
  · simp
  · simp only
    split <;> simp

theorem initial_sound (ndebug : Bool) (answers : List TimeOfDay) (draws : Nat → RandomDraw)
    (files : Nat → RandFile) :
    SeedsSound (Process.initial ndebug (answers.map (getSystemTime ndebug)) draws files) where
  bounded := (by decide : Within 0 rndSeedCycle ∧ Within 0 memSeedCycle)
  rnd_limit := (by decide : rndSeedCycle ≤ intMax)
  mem_limit := (by decide : memSeedCycle ≤ intMax)
  clock := by
    intro hmem
    obtain ⟨answer, -, heq⟩ := List.mem_map.mp hmem
    exact getSystemTime_ne_overflow ndebug answer heq

theorem run_sound {outputs : List Unit} (h : SeedsSound p) (hops : ∀ op ∈ ops, op.Valid)
    (hkept : Throughout seedStep LimitKept ops p)
    (hrun : run seedStep ops p = .ok (outputs, p')) : SeedsSound p' :=
  run_invariant SeedsSound (fun _ _ _ _ hop hq hstep => seedStep_sound hop hq hstep)
    (hkept.and_mem hops) h hrun

theorem reseedKept_of_limitKept (h : SeedsSound p) (hops : ∀ op ∈ ops, op.Valid)
    (hkept : Throughout seedStep LimitKept ops p) : ReseedKept ops p where
  bounded := by
    rintro done outputs q ⟨rest, rfl⟩ hrun
    have hdone := hkept.of_append hrun
    exact (run_sound h (fun op hop => hops op (by simp [hop])) hdone.1 hrun).bounded
  reseeds := by
    rintro before during after outputs q outputs' q' rfl hset hbefore hduring hdraws
    rw [List.append_assoc] at hkept
    have hdone := hkept.of_append hbefore
    have hq := run_sound h (fun op hop => hops op (by simp [hop])) hdone.1 hbefore
    refine run_reseeds hset hq.bounded.1 ?_ hduring
    have := distance_le hq.bounded.1
    omega
  no_overflow := by
    rintro done ⟨rest, rfl⟩
    have hdone : Throughout seedStep LimitKept done p := by
      refine throughout_iff.mpr fun before op after outputs q hsplit hrun => ?_
      exact throughout_iff.mp hkept before op (after ++ rest) outputs q (by simp [hsplit]) hrun
    exact run_ne_error SeedsSound (fun _ _ _ _ hop hq hstep => seedStep_sound hop hq hstep)
      (fun _ _ _ hq => seedStep_ne_overflow hq)
      (hdone.and_mem fun op hop => hops op (by simp [hop])) h

theorem limitKept_of_reseedKept (h : ReseedKept ops p) :
    Throughout seedStep LimitKept ops p := by
  refine throughout_iff.mpr fun before op after outputs q hsplit hrun => ?_
  have hnext : ∀ q', seedStep op q = .ok ((), q') → SeedCountsBounded q' := by
    intro q' hstep
    refine h.bounded (before ++ [op]) (outputs ++ [()]) q' ⟨after, by simp [hsplit]⟩ ?_
    exact run_append_eq_ok.mpr ⟨outputs, q, [()], hrun,
      run_cons_eq_ok.mpr ⟨(), q', [], hstep, rfl, rfl⟩, rfl⟩
  cases op with
  | setRndSeed cnt => exact (hnext _ rfl).1.2
  | setMemSeed cnt => exact (hnext _ rfl).2.2
  | trueRandom => trivial
  | getMemorySeed => trivial

/--
Seeding is never lost in exactly the runs in which no limit is set below its
counter.
-/
theorem reseedKept_iff (ndebug : Bool) (answers : List TimeOfDay)
    (draws : Nat → RandomDraw) (files : Nat → RandFile) (hops : ∀ op ∈ ops, op.Valid) :
    ReseedKept ops (Process.initial ndebug (answers.map (getSystemTime ndebug)) draws files) ↔
      Throughout seedStep LimitKept ops
        (Process.initial ndebug (answers.map (getSystemTime ndebug)) draws files) :=
  ⟨limitKept_of_reseedKept,
    reseedKept_of_limitKept (initial_sound ndebug answers draws files) hops⟩

theorem reseedKept_iff_raised :
    (∀ op ∈ [SeedOp.trueRandom, .setRndSeed 5000, .getMemorySeed], op.Valid) ∧
      (ReseedKept [.trueRandom, .setRndSeed 5000, .getMemorySeed]
          (.initial false ([stillDraw.timeOfDay].map (getSystemTime false))
            (fun _ => stillDraw) (fun _ => stillFile)) ↔
        Throughout seedStep LimitKept [.trueRandom, .setRndSeed 5000, .getMemorySeed]
          (.initial false ([stillDraw.timeOfDay].map (getSystemTime false))
            (fun _ => stillDraw) (fun _ => stillFile))) := by
  have hops : ∀ op ∈ [SeedOp.trueRandom, .setRndSeed 5000, .getMemorySeed], op.Valid := by
    simp [SeedOp.Valid, intMax]
  exact ⟨hops, reseedKept_iff false [stillDraw.timeOfDay] _ _ hops⟩

theorem lowered_limit_not_kept :
    (∀ op ∈ [SeedOp.trueRandom, .trueRandom, .trueRandom, .setRndSeed 1], op.Valid) ∧
      ¬ ReseedKept [.trueRandom, .trueRandom, .trueRandom, .setRndSeed 1]
        (.initial false ([stillDraw.timeOfDay].map (getSystemTime false))
          (fun _ => stillDraw) (fun _ => stillFile)) := by
  constructor
  · simp [SeedOp.Valid, intMax]
  · intro h
    have hbounded := h.bounded _ _ _ List.prefix_rfl rfl
    revert hbounded
    decide

end Quid
