import Mathlib.Data.Nat.Digits.Lemmas
import Mathlib.Tactic

/-!
# Positional numerals of a minimum width

`digits base width n` writes `n` most significant digit first with at least
`width` digits, as the precision of a C integer conversion does.  Reading a
numeral back gives the number, and a digit list is the numeral of its value at
its own length.
-/

namespace Quid.Foundation.Numeral

def digits (base : Nat) : Nat → Nat → List Nat
  | 0, n => (Nat.digits base n).reverse
  | width + 1, n => digits base width (n / base) ++ [n % base]

def value (base : Nat) (ds : List Nat) : Nat :=
  ds.foldl (fun acc d => acc * base + d) 0

variable {base : Nat}

@[simp] theorem value_nil : value base [] = 0 := rfl

@[simp] theorem value_concat (ds : List Nat) (d : Nat) :
    value base (ds ++ [d]) = value base ds * base + d := by
  simp [value]

theorem value_append (high low : List Nat) :
    value base (high ++ low) = value base high * base ^ low.length + value base low := by
  induction low using List.reverseRecOn with
  | nil => simp
  | append_singleton low d ih =>
      rw [← List.append_assoc, value_concat, value_concat, ih, List.length_append,
        List.length_singleton, pow_succ]
      ring

theorem value_eq_zero_iff (hbase : 0 < base) (ds : List Nat) :
    value base ds = 0 ↔ ∀ d ∈ ds, d = 0 := by
  induction ds using List.reverseRecOn with
  | nil => simp
  | append_singleton ds d ih =>
      rw [value_concat, Nat.add_eq_zero_iff, Nat.mul_eq_zero, ih,
        or_iff_left (Nat.ne_of_gt hbase)]
      simp [or_imp, forall_and]

theorem value_reverse_digits (n : Nat) :
    value base (Nat.digits base n).reverse = n := by
  rw [value, List.foldl_reverse]
  have h := Nat.ofDigits_digits base n
  rw [Nat.ofDigits_eq_foldr] at h
  simpa [Nat.add_comm, Nat.mul_comm] using h

theorem value_digits (width n : Nat) : value base (digits base width n) = n := by
  induction width generalizing n with
  | zero => exact value_reverse_digits n
  | succ width ih =>
      rw [digits, value_concat, ih, Nat.mul_comm]
      exact Nat.div_add_mod n base

theorem digits_lt (hbase : 1 < base) (width n : Nat) :
    ∀ d ∈ digits base width n, d < base := by
  induction width generalizing n with
  | zero =>
      intro d hd
      exact Nat.digits_lt_base hbase (List.mem_reverse.mp hd)
  | succ width ih =>
      intro d hd
      rcases List.mem_append.mp hd with hd | hd
      · exact ih (n / base) d hd
      · rw [List.mem_singleton.mp hd]
        exact Nat.mod_lt n (by omega)

theorem length_digits {width n : Nat} (h : n < base ^ width) :
    (digits base width n).length = width := by
  induction width generalizing n with
  | zero =>
      have hzero : n = 0 := by simpa using h
      subst n
      simp [digits]
  | succ width ih =>
      have hdiv : n / base < base ^ width := by
        rw [pow_succ] at h
        exact Nat.div_lt_of_lt_mul (by rwa [Nat.mul_comm])
      simp [digits, ih hdiv]

theorem value_lt (ds : List Nat) (h : ∀ d ∈ ds, d < base) :
    value base ds < base ^ ds.length := by
  induction ds using List.reverseRecOn with
  | nil => simp
  | append_singleton ds d ih =>
      have hd : d < base := h d (by simp)
      have hds := ih fun e he => h e (by simp [he])
      rw [value_concat, List.length_append, List.length_singleton, pow_succ]
      calc
        value base ds * base + d < value base ds * base + base := by omega
        _ = (value base ds + 1) * base := by ring
        _ ≤ base ^ ds.length * base := Nat.mul_le_mul_right base hds

theorem digits_value (ds : List Nat) (h : ∀ d ∈ ds, d < base) :
    digits base ds.length (value base ds) = ds := by
  induction ds using List.reverseRecOn with
  | nil => simp [digits]
  | append_singleton ds d ih =>
      have hd : d < base := h d (by simp)
      have hds := ih fun e he => h e (by simp [he])
      have hdiv : (value base ds * base + d) / base = value base ds := by
        rw [Nat.add_comm, Nat.add_mul_div_right d _ (by omega), Nat.div_eq_of_lt hd]
        simp
      have hmod : (value base ds * base + d) % base = d := by
        rw [Nat.add_comm, Nat.add_mul_mod_self_right, Nat.mod_eq_of_lt hd]
      rw [List.length_append, List.length_singleton, digits, value_concat, hdiv, hmod, hds]

end Quid.Foundation.Numeral
