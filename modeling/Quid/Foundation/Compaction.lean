import Mathlib.Tactic

/-!
# Filtering a terminated buffer in place

Two indices run over one buffer: one reads up to a terminator, the other writes
the cells that are kept.  Between them lies a gap of cells that were read and
may be overwritten.  The buffer ends up starting with the kept cells in order,
and nothing beyond the terminator is written.
-/

namespace Quid.Foundation.Compaction

variable {α : Type} [DecidableEq α] (stop : α) (skip : α → Bool)

def compact : Nat → List α → Nat → Nat → List α × Nat
  | 0, s, _, pw => (s, pw)
  | fuel + 1, s, pr, pw =>
      if s.getD pr stop = stop then (s, pw)
      else
        let s := s.set pw (s.getD pr stop)
        if skip (s.getD pw stop) then compact fuel s (pr + 1) pw
        else compact fuel s (pr + 1) (pw + 1)

omit [DecidableEq α] in
theorem getD_middle (front : List α) (c d : α) (back : List α) :
    (front ++ c :: back).getD front.length d = c := by
  simp [List.getD]

omit [DecidableEq α] in
theorem set_middle (front : List α) (c d : α) (back : List α) :
    (front ++ c :: back).set front.length d = front ++ d :: back := by
  simp

omit [DecidableEq α] in
theorem length_shifted {gap gap' : List α} {c g : α} (h : gap ++ [c] = g :: gap') :
    gap'.length = gap.length := by
  have hlength := congrArg List.length h
  simpa using hlength.symm

/-- The passes of the loop without a bound on them, with the cells they write. -/
inductive Passes : List α → Nat → Nat → List Nat → List α → Nat → Prop
  | stop {s : List α} {pr pw : Nat} (hread : s[pr]? = some stop) : Passes s pr pw [] s pw
  | pass {s left : List α} {pr pw pw' : Nat} {writes : List Nat} {c : α}
      (hread : s[pr]? = some c) (hc : c ≠ stop)
      (hrest : Passes (s.set pw c) (pr + 1)
        (if skip ((s.set pw c).getD pw stop) then pw else pw + 1) writes left pw') :
      Passes s pr pw (pw :: writes) left pw'

variable {stop skip}

theorem Passes.compact_eq {s left : List α} {pr pw pw' : Nat} {writes : List Nat}
    (h : Passes stop skip s pr pw writes left pw') {fuel : Nat} (hfuel : writes.length < fuel) :
    compact stop skip fuel s pr pw = (left, pw') := by
  induction h generalizing fuel with
  | stop hread =>
      obtain ⟨fuel, rfl⟩ := Nat.exists_eq_add_one_of_ne_zero (Nat.ne_of_gt hfuel)
      rw [compact, List.getD_eq_getElem?_getD, hread, Option.getD_some, if_pos rfl]
  | @pass s left pr pw pw' writes c hread hc hrest ih =>
      obtain ⟨fuel, rfl⟩ :=
        Nat.exists_eq_add_one_of_ne_zero (Nat.ne_of_gt (Nat.zero_lt_of_lt hfuel))
      have hvalue : s.getD pr stop = c := by
        rw [List.getD_eq_getElem?_getD, hread, Option.getD_some]
      have hlater : writes.length < fuel := by simpa using hfuel
      rw [compact, hvalue, if_neg hc, ← ih hlater]
      simp only
      split <;> rfl

variable (stop skip)

omit [DecidableEq α] in
theorem passes_step {kept gap rest left : List α} {c g : α} {gap' : List α} {writes : List Nat}
    {pw : Nat} (hc : c ≠ stop) (hgap : gap ++ [c] = g :: gap')
    (hrest :
      if skip c then
        Passes stop skip (kept ++ (c :: gap') ++ rest) (kept.length + (c :: gap').length)
          kept.length writes left pw
      else
        Passes stop skip ((kept ++ [c]) ++ gap' ++ rest) ((kept ++ [c]).length + gap'.length)
          (kept ++ [c]).length writes left pw) :
    Passes stop skip (kept ++ gap ++ c :: rest) (kept.length + gap.length) kept.length
      (kept.length :: writes) left pw := by
  have hread : (kept ++ gap ++ c :: rest)[kept.length + gap.length]? = some c := by
    rw [← List.length_append]
    simp
  have hsplit : kept ++ gap ++ c :: rest = kept ++ g :: (gap' ++ rest) := by
    rw [← List.cons_append, ← hgap]
    simp
  have hwrite : (kept ++ gap ++ c :: rest).set kept.length c = kept ++ c :: (gap' ++ rest) := by
    rw [hsplit, set_middle]
  have hlength := length_shifted hgap
  refine .pass hread hc ?_
  rw [hwrite, getD_middle]
  split at hrest
  · next hskip =>
      rw [if_pos hskip, Nat.add_assoc, ← hlength]
      simpa using hrest
  · next hkeep =>
      have hnext : kept.length + gap.length + 1 = (kept ++ [c]).length + gap'.length := by
        rw [hlength, List.length_append, List.length_singleton]
        omega
      rw [if_neg hkeep, hnext]
      simpa using hrest

omit [DecidableEq α] in
/--
The passes end at the terminator.  They write below it, and leave the kept cells
in order, a gap and what stood from the terminator on.
-/
theorem passes_terminated (kept gap rest junk : List α) (hrest : stop ∉ rest) :
    ∃ writes gap', writes.length = rest.length ∧
      (∀ cell ∈ writes, cell < kept.length + gap.length + rest.length) ∧
      (rest.filter fun c => !skip c).length + gap'.length = gap.length + rest.length ∧
      Passes stop skip (kept ++ gap ++ (rest ++ stop :: junk)) (kept.length + gap.length)
        kept.length writes (kept ++ rest.filter (fun c => !skip c) ++ (gap' ++ stop :: junk))
        (kept ++ rest.filter fun c => !skip c).length := by
  induction rest generalizing kept gap with
  | nil =>
      refine ⟨[], gap, rfl, by simp, by simp, ?_⟩
      have hread :
          (kept ++ gap ++ ([] ++ stop :: junk))[kept.length + gap.length]? = some stop := by
        rw [← List.length_append]
        simp
      simpa using Passes.stop hread
  | cons c rest ih =>
      have hc : c ≠ stop := fun h => hrest (by simp [h])
      have hlater : stop ∉ rest := fun h => hrest (List.mem_cons_of_mem _ h)
      -- the cell read joins the gap, whose first cell `g` is overwritten by it
      obtain ⟨g, gap', hgap⟩ : ∃ g gap', gap ++ [c] = g :: gap' :=
        List.exists_cons_of_ne_nil (by simp)
      have hlength := length_shifted hgap
      have hcover : ∀ writes : List Nat,
          (∀ cell ∈ writes, cell < kept.length + gap.length + rest.length + 1) →
          ∀ cell ∈ kept.length :: writes, cell < kept.length + gap.length + (c :: rest).length := by
        intro writes hbelow cell hcell
        rw [List.length_cons]
        rcases List.mem_cons.mp hcell with rfl | hcell
        · omega
        · exact hbelow cell hcell
      by_cases hskip : skip c = true
      · obtain ⟨writes, left, hcount, hbelow, hcells, hpasses⟩ := ih kept (c :: gap') hlater
        have hfilter : (c :: rest).filter (fun c => !skip c) = rest.filter fun c => !skip c :=
          List.filter_cons_of_neg (by simp [hskip])
        rw [List.length_cons] at hbelow hcells
        refine ⟨kept.length :: writes, left, by simp [hcount], hcover writes ?_, ?_, ?_⟩
        · intro cell hcell
          have := hbelow cell hcell
          omega
        · rw [hfilter, List.length_cons]
          omega
        · rw [List.cons_append, hfilter]
          exact passes_step stop skip hc hgap (by rwa [if_pos hskip])
      · obtain ⟨writes, left, hcount, hbelow, hcells, hpasses⟩ := ih (kept ++ [c]) gap' hlater
        have hfilter : (c :: rest).filter (fun c => !skip c) = c :: rest.filter fun c => !skip c :=
          List.filter_cons_of_pos (by simp [hskip])
        have hkept : kept ++ c :: (rest.filter fun c => !skip c) =
            kept ++ [c] ++ rest.filter fun c => !skip c := List.append_cons ..
        rw [List.length_append, List.length_singleton] at hbelow
        refine ⟨kept.length :: writes, left, by simp [hcount], hcover writes ?_, ?_, ?_⟩
        · intro cell hcell
          have := hbelow cell hcell
          omega
        · rw [hfilter, List.length_cons, List.length_cons]
          omega
        · rw [List.cons_append, hfilter, hkept]
          exact passes_step stop skip hc hgap (by rwa [if_neg hskip])

omit [DecidableEq α] in
theorem passes_close (text junk : List α) (htext : stop ∉ text) :
    ∃ writes left pw gap, Passes stop skip (text ++ stop :: junk) 0 0 writes left pw ∧
      writes.length = text.length ∧ (∀ cell ∈ pw :: writes, cell ≤ text.length) ∧
      (text.filter fun c => !skip c).length + gap.length = text.length ∧
      left.set pw stop = text.filter (fun c => !skip c) ++ stop :: (gap ++ junk) := by
  obtain ⟨writes, gap, hcount, hbelow, hcells, hpasses⟩ :=
    passes_terminated stop skip [] [] text junk htext
  obtain ⟨c, gap', hgap⟩ : ∃ c gap', gap ++ [stop] = c :: gap' :=
    List.exists_cons_of_ne_nil (by simp)
  have hlength := length_shifted hgap
  simp only [List.nil_append, List.length_nil, Nat.zero_add] at hbelow hcells hpasses
  refine ⟨writes, _, _, gap', hpasses, hcount, ?_, by omega, ?_⟩
  · rintro cell (_ | ⟨_, hcell⟩)
    · omega
    · exact (hbelow cell hcell).le
  · rw [List.append_cons, hgap, List.cons_append, set_middle]

end Quid.Foundation.Compaction
