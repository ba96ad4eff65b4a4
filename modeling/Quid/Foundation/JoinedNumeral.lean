import Quid.Foundation.Numeral
import Mathlib.Data.Nat.Log

/-!
# Numerals written one after another

Numbers written without leading zeros and without separators.  A digit can pass
from one number to its neighbour unseen, so two lists may be written alike.  They
are not when the numbers keep their widths, or when a number that differs cannot
begin, or end, with the digits of the other.
-/

namespace Quid.Foundation.Numeral

variable {base : Nat}

def width (base n : Nat) : Nat := Nat.log base n + 1

def joined (base : Nat) (ns : List Nat) : List Nat := ns.flatMap (digits base 1)

def joinedWidth (base : Nat) (ns : List Nat) : Nat := (ns.map (width base)).sum

/-- What keeps two lists of numbers from trading digits. -/
inductive ToldApart (base : Nat) (ns ms : List Nat) : Prop
  | widths (h : ns.map (width base) = ms.map (width base))
  | length (h : joinedWidth base ns ≠ joinedWidth base ms)
  | first {front after after' : List Nat} {n m : Nat} (hns : ns = front ++ n :: after)
      (hms : ms = front ++ m :: after') (hn : ¬digits base 1 n <+: digits base 1 m)
      (hm : ¬digits base 1 m <+: digits base 1 n)
  | last {before before' back : List Nat} {n m : Nat} (hns : ns = before ++ n :: back)
      (hms : ms = before' ++ m :: back) (hn : ¬digits base 1 n <:+ digits base 1 m)
      (hm : ¬digits base 1 m <:+ digits base 1 n)

theorem length_digits_one (hbase : 1 < base) (n : Nat) :
    (digits base 1 n).length = width base n := by
  have hlength : (digits base 1 n).length = (Nat.digits base (n / base)).length + 1 := by
    simp [digits]
  rw [hlength, width]
  rcases Nat.lt_or_ge n base with hlt | hge
  · rw [Nat.div_eq_of_lt hlt, Nat.digits_zero, Nat.log_of_lt hlt, List.length_nil]
  · have hpos : n / base ≠ 0 := (Nat.div_pos hge (by omega)).ne'
    rw [Nat.length_digits base _ hbase hpos, Nat.log_div_base, Nat.sub_add_cancel]
    exact Nat.log_pos hbase hge

theorem length_joined (hbase : 1 < base) (ns : List Nat) :
    (joined base ns).length = joinedWidth base ns := by
  rw [joined, List.length_flatMap, joinedWidth]
  exact congrArg List.sum (List.map_congr_left fun n _ => length_digits_one hbase n)

theorem joined_lt (hbase : 1 < base) (ns : List Nat) : ∀ d ∈ joined base ns, d < base := by
  intro d hd
  obtain ⟨n, -, hn⟩ := List.mem_flatMap.mp hd
  exact digits_lt hbase 1 n d hn

theorem joined_append (front back : List Nat) :
    joined base (front ++ back) = joined base front ++ joined base back := List.flatMap_append

theorem joined_cons (n : Nat) (ns : List Nat) :
    joined base (n :: ns) = digits base 1 n ++ joined base ns := List.flatMap_cons

theorem joined_injective (hbase : 1 < base) {ns ms : List Nat}
    (hwidth : ns.map (width base) = ms.map (width base))
    (h : joined base ns = joined base ms) : ns = ms := by
  induction ns generalizing ms with
  | nil => exact (List.map_eq_nil_iff.mp hwidth.symm).symm
  | cons n ns ih =>
      cases ms with
      | nil => cases hwidth
      | cons m ms =>
          obtain ⟨hhead, hrest⟩ := List.cons.inj hwidth
          rw [joined_cons, joined_cons] at h
          have hlength : (digits base 1 n).length = (digits base 1 m).length := by
            rw [length_digits_one hbase, length_digits_one hbase, hhead]
          obtain ⟨hdigits, hjoined⟩ := List.append_inj h hlength
          have hsame := congrArg (value base) hdigits
          rw [value_digits, value_digits] at hsame
          rw [hsame, ih hrest hjoined]

theorem joined_ne (hbase : 1 < base) {ns ms : List Nat} (hne : ns ≠ ms)
    (h : ToldApart base ns ms) : joined base ns ≠ joined base ms := by
  intro hjoined
  cases h with
  | widths hwidth => exact hne (joined_injective hbase hwidth hjoined)
  | length hlength =>
      apply hlength
      rw [← length_joined hbase, hjoined, length_joined hbase]
  | @first front after after' n m hns hms hn hm =>
      rw [hns, hms, joined_append, joined_append, joined_cons, joined_cons] at hjoined
      have hrest := List.append_cancel_left hjoined
      have hfirst : digits base 1 n <+: digits base 1 m ++ joined base after' :=
        ⟨joined base after, hrest⟩
      exact (List.prefix_or_prefix_of_prefix hfirst (List.prefix_append _ _)).elim hn hm
  | @last before before' back n m hns hms hn hm =>
      have hsplit : ∀ front k, joined base (front ++ k :: back) =
          joined base front ++ digits base 1 k ++ joined base back := by
        intro front k
        rw [joined_append, joined_cons, List.append_assoc]
      rw [hns, hms, hsplit, hsplit] at hjoined
      have hrest := List.append_cancel_right hjoined
      have hlast : digits base 1 n <:+ joined base before' ++ digits base 1 m :=
        ⟨joined base before, hrest⟩
      exact (List.suffix_or_suffix_of_suffix hlast (List.suffix_append _ _)).elim hn hm

theorem digits_succ (hbase : 1 < base) {width n : Nat} (h : base ^ width ≤ n) :
    digits base (width + 1) n = digits base width n := by
  induction width generalizing n with
  | zero =>
      rw [digits, digits, digits, Nat.digits_def' hbase h, List.reverse_cons]
  | succ width ih =>
      have hdiv : base ^ width ≤ n / base := by
        rw [Nat.le_div_iff_mul_le (by omega), ← pow_succ]
        exact h
      rw [digits, ih hdiv, digits]

end Quid.Foundation.Numeral
