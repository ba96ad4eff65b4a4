import Mathlib.Tactic

/-!
# Fields of a machine word

A word that combines disjoint fields has the sum of their values, and a field
that was mixed with marker bits is read back by removing them again.
-/

namespace Quid.Foundation.BitField

variable {n k : Nat}

theorem or_eq_add {high low : Nat} (hhigh : high % 2 ^ k = 0) (hlow : low < 2 ^ k) :
    high ||| low = high + low := by
  obtain ⟨a, rfl⟩ := Nat.dvd_of_mod_eq_zero hhigh
  exact (Nat.two_pow_add_eq_or_of_lt hlow a).symm

theorem and_high_eq_iff {word high low mask : Nat} (hword : word = high * 2 ^ k + low)
    (hlow : low < 2 ^ k) :
    word &&& mask * 2 ^ k = mask * 2 ^ k ↔ high &&& mask = mask := by
  have hpos : 0 < 2 ^ k := Nat.two_pow_pos k
  have hdiv : word / 2 ^ k = high := by
    rw [hword, Nat.add_comm, Nat.add_mul_div_right _ _ hpos, Nat.div_eq_of_lt hlow, Nat.zero_add]
  have hand : word &&& mask * 2 ^ k = (high &&& mask) * 2 ^ k := by
    have hdivAnd : (word &&& mask * 2 ^ k) / 2 ^ k = high &&& mask := by
      rw [Nat.and_div_two_pow, hdiv, Nat.mul_div_cancel _ hpos]
    have hmodAnd : (word &&& mask * 2 ^ k) % 2 ^ k = 0 := by
      rw [Nat.and_mod_two_pow, Nat.mul_mod_left, Nat.and_zero]
    rw [← hdivAnd, Nat.div_mul_cancel (Nat.dvd_of_mod_eq_zero hmodAnd)]
  rw [hand, Nat.mul_left_inj (Nat.ne_of_gt hpos)]

theorem xor_or_xor (field marker word : BitVec n) (h : field &&& marker = 0#n) :
    ((word ^^^ marker) ||| field) ^^^ marker = field ||| word := by
  ext i hi
  have hbit : (field[i] && marker[i]) = false := by
    simpa using congrArg (fun b => b[i]) h
  simp only [BitVec.getElem_xor, BitVec.getElem_or]
  revert hbit
  cases field[i] <;> cases marker[i] <;> cases word[i] <;> decide

theorem or_and_self (field word : BitVec n) : (word ||| field) &&& field = field := by
  ext i hi
  simp only [BitVec.getElem_and, BitVec.getElem_or]
  cases field[i] <;> cases word[i] <;> decide

end Quid.Foundation.BitField
