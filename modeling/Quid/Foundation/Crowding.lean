import Quid.Foundation.TickCounter

/-!
# How often a stamp can repeat

On readings that lie closer together than the capacity of a tick counter the
stamps of one reading reach over the next ones.  How far a stamp can fall behind
an earlier one and how often it can come again is bounded all the same: each
reading gives it once, and only so many readings lie within its reach.
-/

namespace Quid.Foundation.TickCounter

open Quid.Foundation

def Tick.Before (gap : Nat) (a b : Tick) : Prop :=
  a.last + gap ≤ b.last ∨ a.last = b.last ∧ a.offset < b.offset

variable {capacity gap reading stamp : Nat} {tick tick' a b c : Tick} {ticks : List Tick}

theorem Tick.Before.trans (hab : a.Before gap b) (hbc : b.Before gap c) : a.Before gap c := by
  unfold Tick.Before at *
  omega

theorem issue_before (hspaced : Spaced gap tick.last reading)
    (h : issue capacity reading tick = .ok (stamp, tick')) : tick.Before gap tick' := by
  rcases issue_cases h with ⟨hne, -, rfl⟩ | ⟨-, -, -, rfl⟩
  · exact .inl (hspaced.resolve_left hne)
  · exact .inr ⟨rfl, Nat.lt_succ_self _⟩

def Tick.Follows (gap : Nat) (a b : Tick) : Prop :=
  b.last ≠ 0 ∧ (a.last = 0 ∨ a.Before gap b)

theorem Tick.Follows.trans (hab : a.Follows gap b) (hbc : b.Follows gap c) :
    a.Follows gap c := by
  unfold Tick.Follows Tick.Before at *
  omega

theorem issue_stamp_bounds (h : issue capacity reading tick = .ok (stamp, tick')) :
    reading ≤ stamp ∧ stamp ≤ reading + capacity := by
  rcases issue_cases h with ⟨-, rfl, -⟩ | ⟨-, hroom, rfl, -⟩ <;> omega

/-! ## Bounds -/

theorem Tick.Before.stamp_le (h : a.Before gap b) (hoffset : a.offset ≤ capacity) :
    a.stamp + min gap (capacity + 1) ≤ b.stamp + capacity := by
  unfold Tick.Before at h
  unfold Tick.stamp
  omega

theorem Tick.Before.offset_div_lt (hgap : 0 < gap) (h : a.Before gap b)
    (hsame : a.stamp = b.stamp) : b.offset / gap < a.offset / gap := by
  have hfar : b.offset + gap ≤ a.offset := by
    unfold Tick.Before at h
    unfold Tick.stamp at hsame
    omega
  calc
    b.offset / gap < b.offset / gap + 1 := Nat.lt_succ_self _
    _ = (b.offset + gap) / gap := (Nat.add_div_right _ hgap).symm
    _ ≤ a.offset / gap := Nat.div_le_div_right hfar

theorem length_le_of_decreasing {bound : Nat} {values : List Nat}
    (hpairs : values.Pairwise (· > ·)) (hbound : ∀ value ∈ values, value ≤ bound) :
    values.length ≤ bound + 1 := by
  have hnodup : values.Nodup := hpairs.imp fun hlt => Nat.ne_of_gt hlt
  have hsubset : values ⊆ List.range (bound + 1) := fun value hmem =>
    List.mem_range.mpr (Nat.lt_succ_of_le (hbound value hmem))
  simpa using (hnodup.subperm hsubset).length_le

theorem count_stamp_le (hgap : 0 < gap) (hpairs : ticks.Pairwise (Tick.Before gap))
    (hoffset : ∀ tick ∈ ticks, tick.offset ≤ capacity) (stamp : Nat) :
    (ticks.map Tick.stamp).count stamp ≤ capacity / gap + 1 := by
  let same := ticks.filter fun tick => tick.stamp == stamp
  have hsame : ∀ tick ∈ same, tick ∈ ticks ∧ tick.stamp = stamp := by
    intro tick hmem
    simpa [same] using hmem
  have hdecreasing : (same.map fun tick => tick.offset / gap).Pairwise (· > ·) := by
    refine List.pairwise_map.mpr ((hpairs.filter _).imp_of_mem fun ha hb hbefore => ?_)
    exact hbefore.offset_div_lt hgap ((hsame _ ha).2.trans (hsame _ hb).2.symm)
  have hbound : ∀ value ∈ same.map fun tick => tick.offset / gap, value ≤ capacity / gap := by
    intro value hvalue
    obtain ⟨tick, hmem, rfl⟩ := List.mem_map.mp hvalue
    exact Nat.div_le_div_right (hoffset tick (hsame tick hmem).1)
  have hlength := length_le_of_decreasing hdecreasing hbound
  rw [List.count, List.countP_map, List.countP_eq_length_filter]
  simpa [same, Function.comp_def] using hlength

/-! ## Readings that reach the bound -/

/-- Each reading is shown until its stamps have reached the last reading. -/
def ladder (gap : Nat) : Nat → Nat → List Nat
  | last, 0 => [last]
  | last, rungs + 1 =>
      List.replicate ((rungs + 1) * gap + 1) last ++ ladder gap (last + gap) rungs

theorem ladder_spaced (gap last rungs : Nat) :
    (ladder gap last rungs).Pairwise (Spaced gap) ∧
      ∀ reading ∈ ladder gap last rungs,
        Spaced gap last reading ∧ reading ≤ last + rungs * gap := by
  induction rungs generalizing last with
  | zero => simp [ladder, Spaced]
  | succ rungs ih =>
      obtain ⟨hpairs, hbounds⟩ := ih (last + gap)
      have hproduct : (rungs + 1) * gap = rungs * gap + gap := Nat.succ_mul rungs gap
      have hlater : ∀ reading ∈ ladder gap (last + gap) rungs, Spaced gap last reading :=
        fun reading hmem => .inr (hbounds reading hmem).1.le
      constructor
      · refine List.pairwise_append.mpr ⟨?_, hpairs, ?_⟩
        · exact List.pairwise_replicate.mpr (.inr (.inl rfl))
        · intro first hfirst second hsecond
          rw [List.eq_of_mem_replicate hfirst]
          exact hlater second hsecond
      · intro reading hmem
        rcases List.mem_append.mp hmem with hmem | hmem
        · rw [List.eq_of_mem_replicate hmem]
          exact ⟨.inl rfl, Nat.le_add_right _ _⟩
        · have hbound := (hbounds reading hmem).2
          exact ⟨hlater reading hmem, by omega⟩

theorem ladder_ne_nil (gap last rungs : Nat) : ladder gap last rungs ≠ [] := by
  cases rungs <;> simp [ladder, List.replicate_succ]

theorem run_issue_ladder (hgap : 0 < gap) {last rungs : Nat} (hreach : rungs * gap ≤ capacity)
    (hfresh : tick.last ≠ last) :
    ∃ stamps tick', run (issue capacity) (ladder gap last rungs) tick = .ok (stamps, tick') ∧
      rungs + 1 ≤ stamps.count (last + rungs * gap) := by
  induction rungs generalizing last tick with
  | zero =>
      refine ⟨[last], ⟨last, 0⟩, run_cons_eq_ok.mpr ⟨last, ⟨last, 0⟩, [], ?_, rfl, rfl⟩, ?_⟩
      · exact issue_fresh hfresh
      · simp
  | succ rungs ih =>
      have hproduct : (rungs + 1) * gap = rungs * gap + gap := Nat.succ_mul rungs gap
      have hfirst : issue capacity last tick = .ok (last, ⟨last, 0⟩) := issue_fresh hfresh
      have hagain : run (issue capacity) (List.replicate ((rungs + 1) * gap) last) ⟨last, 0⟩ = _ :=
        run_issue_replicate last ((rungs + 1) * gap) 0 (by omega)
      have hlast : (⟨last, 0 + (rungs + 1) * gap⟩ : Tick).last ≠ last + gap := by
        simp only
        omega
      obtain ⟨stamps, tick', hrest, hcount⟩ := ih (by omega) hlast
      refine ⟨_, tick', run_append_eq_ok.mpr
        ⟨_, _, stamps, run_cons_eq_ok.mpr ⟨_, _, _, hfirst, hagain, rfl⟩, hrest, rfl⟩, ?_⟩
      -- the first reading gives the stamp once, as its last number
      have hmem : last + (rungs + 1) * gap ∈
          (List.range' (0 + 1) ((rungs + 1) * gap)).map (last + ·) := by
        refine List.mem_map.mpr ⟨(rungs + 1) * gap, List.mem_range'_1.mpr ?_, rfl⟩
        omega
      have hone := List.count_pos_iff.mpr hmem
      have hsame : last + gap + rungs * gap = last + (rungs + 1) * gap := by omega
      rw [hsame] at hcount
      rw [List.count_append, List.count_cons]
      omega

end Quid.Foundation.TickCounter
