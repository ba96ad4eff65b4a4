import Mathlib.Tactic

/-!
# Counters that start over at a limit

A counter that is set back to 0 only when it equals its limit stays between 0
and the limit once it is there, and comes back to 0 within `limit` advances.
Nothing of this holds for a counter beyond the limit.
-/

namespace Quid.Foundation.CyclicCounter

def advance (count limit : Int) : Int := if count = limit then 0 else count + 1

def Within (count limit : Int) : Prop := 0 ≤ count ∧ count ≤ limit

instance (count limit : Int) : Decidable (Within count limit) :=
  inferInstanceAs (Decidable (_ ∧ _))

def distance (count limit : Int) : Int := if count = 0 then 0 else limit - count + 1

variable {count limit : Int}

theorem Within.advance (h : Within count limit) : Within (advance count limit) limit := by
  obtain ⟨hlow, hhigh⟩ := h
  unfold CyclicCounter.advance
  split
  · exact ⟨le_rfl, hlow.trans hhigh⟩
  · constructor <;> omega

theorem distance_nonneg (h : Within count limit) : 0 ≤ distance count limit := by
  obtain ⟨hlow, hhigh⟩ := h
  unfold distance
  split <;> omega

theorem distance_le (h : Within count limit) : distance count limit ≤ limit := by
  obtain ⟨hlow, hhigh⟩ := h
  unfold distance
  split <;> omega

theorem distance_advance (h : Within count limit) (hne : count ≠ 0) :
    distance (advance count limit) limit = distance count limit - 1 := by
  obtain ⟨hlow, hhigh⟩ := h
  unfold distance advance
  split
  · omega
  · rw [if_neg (by omega)]
    omega

/-! ## From 0 -/

def shown (limit advances : Nat) : Int := ((advances % (limit + 1) : Nat) : Int)

/-- How many of that many advances found the counter at 0. -/
def starts (limit advances : Nat) : Nat := (advances + limit) / (limit + 1)

theorem advance_shown (limit advances : Nat) :
    CyclicCounter.advance (shown limit advances) limit = shown limit (advances + 1) := by
  have hlt : advances % (limit + 1) < limit + 1 := Nat.mod_lt _ (Nat.succ_pos _)
  have hnext : (advances + 1) % (limit + 1) = (advances % (limit + 1) + 1) % (limit + 1) :=
    (Nat.mod_add_mod _ _ _).symm
  unfold CyclicCounter.advance shown
  rw [hnext]
  by_cases hlast : advances % (limit + 1) = limit
  · rw [hlast, if_pos rfl, Nat.mod_self]
    rfl
  · have hroom : advances % (limit + 1) + 1 < limit + 1 := by omega
    rw [if_neg (by exact_mod_cast hlast), Nat.mod_eq_of_lt hroom, Nat.cast_add, Nat.cast_one]

theorem shown_eq_zero_iff {limit advances : Nat} :
    shown limit advances = 0 ↔ advances % (limit + 1) = 0 := by
  unfold shown
  exact Int.natCast_eq_zero

theorem starts_of_mod (limit advances : Nat) :
    starts limit advances =
      advances / (limit + 1) + if advances % (limit + 1) = 0 then 0 else 1 := by
  have hlt : advances % (limit + 1) < limit + 1 := Nat.mod_lt _ (Nat.succ_pos _)
  have hsplit : advances + limit =
      (limit + 1) * (advances / (limit + 1)) + (advances % (limit + 1) + limit) := by
    rw [← Nat.add_assoc, Nat.div_add_mod]
  rw [starts, hsplit, Nat.mul_add_div (Nat.succ_pos _)]
  congr 1
  split
  · next hzero =>
      rw [hzero]
      exact Nat.div_eq_of_lt (by omega)
  · exact Nat.div_eq_of_lt_le (by omega) (by omega)

theorem starts_succ (limit advances : Nat) :
    starts limit (advances + 1) = advances / (limit + 1) + 1 := by
  have hsame : advances + 1 + limit = advances + (limit + 1) := by omega
  rw [starts, hsame, Nat.add_div_right _ (Nat.succ_pos _)]

end Quid.Foundation.CyclicCounter
