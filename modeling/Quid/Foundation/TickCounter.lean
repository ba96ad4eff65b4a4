import Quid.Foundation.Run
import Mathlib.Data.List.Range
import Mathlib.Tactic

/-!
# Stamps from a coarse clock

A counter numbers the stamps it issues while the clock shows one reading and
starts over when the reading changes.  A stamp is the reading plus its number.
Up to `capacity` further stamps are issued on one reading; a reading that has
no number left is refused.  Stamps never repeat exactly when different readings
lie further apart than the capacity.
-/

namespace Quid.Foundation.TickCounter

open Quid.Foundation

/-- The reading of the last issued stamp and its number on that reading. -/
structure Tick where
  last : Nat
  offset : Nat
  deriving DecidableEq, Repr

def Tick.stamp (tick : Tick) : Nat := tick.last + tick.offset

def issue (capacity : Nat) (reading : Nat) (tick : Tick) :
    Except Unit (Nat × Tick) :=
  if tick.last ≠ reading then .ok (reading, ⟨reading, 0⟩)
  else if tick.offset < capacity then
    .ok (reading + (tick.offset + 1), ⟨tick.last, tick.offset + 1⟩)
  else .error ()

variable {capacity gap reading stamp : Nat} {tick tick' : Tick}

theorem issue_fresh (h : tick.last ≠ reading) :
    issue capacity reading tick = .ok (reading, ⟨reading, 0⟩) := by
  simp [issue, h]

theorem issue_again (h : tick.offset < capacity) :
    issue capacity tick.last tick =
      .ok (tick.last + (tick.offset + 1), ⟨tick.last, tick.offset + 1⟩) := by
  simp [issue, h]

theorem issue_cases (h : issue capacity reading tick = .ok (stamp, tick')) :
    (tick.last ≠ reading ∧ stamp = reading ∧ tick' = ⟨reading, 0⟩) ∨
      (tick.last = reading ∧ tick.offset < capacity ∧
        stamp = reading + (tick.offset + 1) ∧
        tick' = ⟨tick.last, tick.offset + 1⟩) := by
  unfold issue at h
  split at h
  · cases h
    exact .inl ⟨‹_›, rfl, rfl⟩
  · split at h
    · cases h
      exact .inr ⟨by simpa using ‹¬tick.last ≠ reading›, ‹_›, rfl, rfl⟩
    · cases h

theorem issue_offset_le (h : issue capacity reading tick = .ok (stamp, tick')) :
    tick'.offset ≤ capacity := by
  rcases issue_cases h with ⟨-, -, rfl⟩ | ⟨-, hlt, -, rfl⟩
  · exact Nat.zero_le _
  · exact hlt

/-- A reading that opens a new tick lies beyond every stamp of the old one. -/
def Clear (reading : Nat) (tick : Tick) : Prop :=
  tick.last ≠ reading → tick.stamp < reading

theorem stamp_lt_of_issue (hclear : Clear reading tick)
    (h : issue capacity reading tick = .ok (stamp, tick')) :
    tick.stamp < stamp := by
  rcases issue_cases h with ⟨hne, rfl, -⟩ | ⟨rfl, -, rfl, -⟩
  · exact hclear hne
  · simp only [Tick.stamp]
    omega

/-! ## Spaced readings -/

def Spaced (gap first second : Nat) : Prop :=
  first = second ∨ first + gap ≤ second

instance (gap first second : Nat) : Decidable (Spaced gap first second) :=
  inferInstanceAs (Decidable (_ ∨ _))

theorem Spaced.trans {a b c : Nat} (hab : Spaced gap a b) (hbc : Spaced gap b c) :
    Spaced gap a c := by
  unfold Spaced at *
  omega

theorem Spaced.le {a b : Nat} (h : Spaced gap a b) : a ≤ b := by
  unfold Spaced at h
  omega

theorem clear_of_spaced (hgap : capacity < gap) (hoffset : tick.offset ≤ capacity)
    (h : Spaced gap tick.last reading) : Clear reading tick := by
  intro hne
  rcases h with heq | hle
  · exact absurd heq hne
  · simp only [Tick.stamp]
    omega

theorem run_issue_replicate (last count : Nat) (offset : Nat)
    (hroom : offset + count ≤ capacity) :
    run (issue capacity) (List.replicate count last) ⟨last, offset⟩ =
      .ok ((List.range' (offset + 1) count).map (last + ·), ⟨last, offset + count⟩) := by
  induction count generalizing offset with
  | zero => rfl
  | succ count ih =>
      have hfirst : issue capacity last ⟨last, offset⟩ =
          .ok (last + (offset + 1), ⟨last, offset + 1⟩) :=
        issue_again (by simp only; omega)
      have hrest := ih (offset + 1) (by omega)
      rw [show offset + (count + 1) = offset + 1 + count by omega]
      exact run_cons_eq_ok.mpr ⟨_, _, _, hfirst, hrest, by simp [List.range'_succ]⟩

def crowded (gap last : Nat) : List Nat :=
  List.replicate gap last ++ [last + gap]

theorem run_issue_crowded (last : Nat) (hpos : 0 < gap) (hgap : gap ≤ capacity) :
    run (issue capacity) (crowded gap last) ⟨last, 0⟩ =
      .ok ((List.range' 1 gap).map (last + ·) ++ [last + gap], ⟨last + gap, 0⟩) := by
  have hfirst : run (issue capacity) (List.replicate gap last) ⟨last, 0⟩ = _ :=
    run_issue_replicate last gap 0 (by omega)
  have hfresh : issue capacity (last + gap) ⟨last, 0 + gap⟩ =
      .ok (last + gap, ⟨last + gap, 0⟩) := issue_fresh (by simp only; omega)
  refine run_append_eq_ok.mpr ⟨_, _, [last + gap], hfirst, ?_, rfl⟩
  exact run_cons_eq_ok.mpr ⟨_, _, [], hfresh, rfl, rfl⟩

theorem crowded_repeats (last : Nat) (hpos : 0 < gap) :
    ¬ ((List.range' 1 gap).map (last + ·) ++ [last + gap]).Pairwise (· < ·) := by
  intro h
  have hlast := (List.pairwise_append.mp h).2.2 (last + gap)
    (List.mem_map.mpr ⟨gap, by simp; omega, rfl⟩) (last + gap) (by simp)
  exact absurd hlast (lt_irrefl _)

end Quid.Foundation.TickCounter
