import Mathlib.Data.Int.GCD
import Mathlib.Logic.Function.Iterate
import Mathlib.Tactic

/-!
# Exchanging two blocks in place

A map of positions is carried out on a list by swaps with one cell of each of its
cycles, the leader.  Two neighbouring blocks change places in this way: on the
positions of the two, every content moves by the length of the second block, and
the cycles are the residue classes of the greatest common divisor.
-/

namespace Quid.Foundation.Exchange

variable {α : Type}

def swap (l : List α) (i j : Nat) : Option (List α) := do
  let x ← l[i]?
  let y ← l[j]?
  return (l.set i y).set j x

/-- Swap `steps` further cells of the leader's cycle with the leader. -/
def cycleLoop (next : Nat → Nat) (leader : Nat) : Nat → Nat → List α → Option (List α)
  | 0, _, l => some l
  | steps + 1, pos, l => do
      let l ← swap l (next pos) leader
      cycleLoop next leader steps (next pos) l

def cyclesLoop (next : Nat → Nat) (first cyclelen count : Nat) (l : List α) : Option (List α) :=
  (List.range count).foldlM (fun l i => cycleLoop next (first + i) cyclelen (first + i) l) l

theorem swap_spec {l : List α} {i j : Nat} (hi : i < l.length) (hj : j < l.length) :
    ∃ l', swap l i j = some l' ∧ l'.length = l.length ∧ l'[i]? = l[j]? ∧ l'[j]? = l[i]? ∧
      ∀ k, k ≠ i → k ≠ j → l'[k]? = l[k]? := by
  have hx := List.getElem?_eq_getElem hi
  have hy := List.getElem?_eq_getElem hj
  refine ⟨(l.set i l[j]).set j l[i], by simp [swap, hx, hy], by simp, ?_, ?_, ?_⟩
  · by_cases h : j = i
    · subst h
      simp [hi]
    · rw [List.getElem?_set_ne h, List.getElem?_set_self hi, hy]
  · rw [List.getElem?_set_self (by simpa using hj), hx]
  · intro k hki hkj
    rw [List.getElem?_set_ne (Ne.symm hkj), List.getElem?_set_ne (Ne.symm hki)]

theorem swap_perm {l l' : List α} {i j : Nat} (h : swap l i j = some l') : l'.Perm l := by
  simp only [swap, Option.bind_eq_bind, Option.bind_eq_some_iff] at h
  obtain ⟨x, hx, y, hy, hswapped⟩ := h
  obtain ⟨hi, rfl⟩ := List.getElem?_eq_some_iff.mp hx
  obtain ⟨hj, rfl⟩ := List.getElem?_eq_some_iff.mp hy
  cases hswapped
  exact List.set_set_perm hi hj

theorem cycleLoop_perm {next : Nat → Nat} {leader steps pos : Nat} {l l' : List α}
    (h : cycleLoop next leader steps pos l = some l') : l'.Perm l := by
  induction steps generalizing pos l with
  | zero =>
      cases h
      exact .rfl
  | succ steps ih =>
      obtain ⟨l₁, hswap, hloop⟩ := Option.bind_eq_some_iff.mp h
      exact (ih hloop).trans (swap_perm hswap)

theorem cyclesLoop_perm {next : Nat → Nat} {first cyclelen count : Nat} {l l' : List α}
    (h : cyclesLoop next first cyclelen count l = some l') : l'.Perm l := by
  induction count generalizing l' with
  | zero =>
      cases h
      exact .rfl
  | succ count ih =>
      rw [cyclesLoop, List.range_succ, List.foldlM_append] at h
      obtain ⟨l₁, hbefore, hlast⟩ := Option.bind_eq_some_iff.mp h
      obtain ⟨l₂, hcycle, hdone⟩ := Option.bind_eq_some_iff.mp hlast
      cases hdone
      exact (cycleLoop_perm hcycle).trans (ih hbefore)

/-! ## One cycle -/

/-- The contents of the positions in `S` have moved on by `next`; the others stayed. -/
structure Turned (next : Nat → Nat) (S : Nat → Prop) (l l' : List α) : Prop where
  length : l'.length = l.length
  moved : ∀ x, S x → l'[next x]? = l[x]?
  others : ∀ x, ¬S x → l'[x]? = l[x]?

/-- After `k` swaps the leader's cell holds the content that moves next. -/
structure Partway (next : Nat → Nat) (leader k : Nat) (l l' : List α) : Prop where
  length : l'.length = l.length
  moved : ∀ j < k, l'[next^[j + 1] leader]? = l[next^[j] leader]?
  carried : l'[leader]? = l[next^[k] leader]?
  others : ∀ x, (∀ j ≤ k, x ≠ next^[j] leader) → l'[x]? = l[x]?

variable {next : Nat → Nat} {leader : Nat} {l l' : List α}

theorem Partway.start (l : List α) : Partway next leader 0 l l :=
  ⟨rfl, by simp, rfl, fun _ _ => rfl⟩

theorem Partway.step {k : Nat} (h : Partway next leader k l l')
    (hleader : leader < l.length) (hpos : next^[k + 1] leader < l.length)
    (hfresh : ∀ j ≤ k, next^[k + 1] leader ≠ next^[j] leader) :
    ∃ l'', swap l' (next^[k + 1] leader) leader = some l'' ∧
      Partway next leader (k + 1) l l'' := by
  rw [← h.length] at hleader hpos
  obtain ⟨l'', hswap, hlength, hnew, hlast, hothers⟩ := swap_spec hpos hleader
  refine ⟨l'', hswap, hlength.trans h.length, fun j hj => ?_, ?_, fun x hx => ?_⟩
  · rcases Nat.lt_succ_iff_lt_or_eq.mp hj with hj | rfl
    · by_cases hback : next^[j + 1] leader = leader
      · -- a cell of the orbit that is the leader again would repeat at the new position
        have hrepeat : next^[k + 1] leader = next^[k + 1 - (j + 1)] leader := by
          conv_lhs => rw [show k + 1 = k + 1 - (j + 1) + (j + 1) by omega,
            Function.iterate_add_apply, hback]
        exact absurd hrepeat (hfresh _ (by omega))
      · rw [hothers _ (Ne.symm (hfresh (j + 1) hj)) hback, h.moved j hj]
    · rw [hnew, h.carried]
  · rw [hlast]
    exact h.others _ hfresh
  · rw [hothers x (hx (k + 1) le_rfl) (hx 0 (Nat.zero_le _))]
    exact h.others x fun j hj => hx j (by omega)

theorem Partway.finish {k : Nat} (h : Partway next leader k l l')
    (hleader : leader < l.length) (hclosed : next^[k + 1] leader = leader) :
    ∃ l'', swap l' (next^[k + 1] leader) leader = some l'' ∧
      Turned next (fun x => ∃ j ≤ k, x = next^[j] leader) l l'' := by
  rw [hclosed]
  rw [← h.length] at hleader
  obtain ⟨l'', hswap, hlength, hself, -, hothers⟩ := swap_spec hleader hleader
  have hsame : ∀ x : Nat, l''[x]? = l'[x]? := by
    intro x
    by_cases hx : x = leader
    · rw [hx, hself]
    · exact hothers x hx hx
  refine ⟨l'', hswap, hlength.trans h.length, ?_, fun x hx => ?_⟩
  · rintro _ ⟨j, hj, rfl⟩
    rw [← Function.iterate_succ_apply' next j leader, hsame]
    rcases Nat.lt_or_eq_of_le hj with hj | rfl
    · exact h.moved j hj
    · rw [hclosed, h.carried]
  · rw [hsame]
    exact h.others x fun j hj hxj => hx ⟨j, hj, hxj⟩

theorem cycleLoop_partway (steps : Nat) {k : Nat} (h : Partway next leader k l l')
    (hrange : ∀ j, next^[j] leader < l.length)
    (hclosed : next^[k + steps + 1] leader = leader)
    (hfresh : ∀ i j, i < j → j ≤ k + steps → next^[j] leader ≠ next^[i] leader) :
    ∃ l'', cycleLoop next leader (steps + 1) (next^[k] leader) l' = some l'' ∧
      Turned next (fun x => ∃ j ≤ k + steps, x = next^[j] leader) l l'' := by
  have hleader := hrange 0
  induction steps generalizing k l' with
  | zero =>
      obtain ⟨l'', hswap, hturned⟩ := h.finish hleader hclosed
      refine ⟨l'', ?_, hturned⟩
      rw [cycleLoop, ← Function.iterate_succ_apply' next k leader, hswap]
      rfl
  | succ steps ih =>
      obtain ⟨l₁, hswap, hnext⟩ :=
        h.step hleader (hrange _) fun j hj => hfresh j (k + 1) (by omega) (by omega)
      have hsum : k + 1 + steps = k + (steps + 1) := by omega
      obtain ⟨l'', hloop, hturned⟩ := ih hnext (by rw [hsum]; exact hclosed)
        fun i j hij hj => hfresh i j hij (by omega)
      rw [hsum] at hturned
      refine ⟨l'', ?_, hturned⟩
      rw [cycleLoop, ← Function.iterate_succ_apply' next k leader, hswap]
      exact hloop

theorem cycleLoop_turned (next : Nat → Nat) (leader : Nat) (l : List α) {period : Nat}
    (hperiod : 0 < period)
    (hrange : ∀ j, next^[j] leader < l.length) (hclosed : next^[period] leader = leader)
    (hfresh : ∀ i j, i < j → j < period → next^[j] leader ≠ next^[i] leader) :
    ∃ l', cycleLoop next leader period leader l = some l' ∧
      Turned next (fun x => ∃ j < period, x = next^[j] leader) l l' := by
  obtain ⟨steps, rfl⟩ := Nat.exists_eq_add_one_of_ne_zero hperiod.ne'
  obtain ⟨l', hloop, hturned⟩ := cycleLoop_partway steps (.start l) hrange
    (by simpa using hclosed) fun i j hij hj => hfresh i j hij (by omega)
  simp only [Nat.zero_add, ← Nat.lt_succ_iff] at hturned
  exact ⟨l', hloop, hturned⟩

theorem Turned.trans {S T : Nat → Prop} {l'' : List α} (hS : Turned next S l l')
    (hT : Turned next T l' l'') (hclosed : ∀ x, S x → S (next x)) (hapart : ∀ x, S x → ¬T x) :
    Turned next (fun x => S x ∨ T x) l l'' := by
  refine ⟨hT.length.trans hS.length, ?_, fun x hx => ?_⟩
  · rintro x (hx | hx)
    · rw [hT.others _ (hapart _ (hclosed x hx)), hS.moved x hx]
    · rw [hT.moved x hx, hS.others x fun h => hapart x h hx]
  · rw [not_or] at hx
    rw [hT.others x hx.2, hS.others x hx.1]

theorem Turned.congr {S T : Nat → Prop} (h : Turned next S l l') (hiff : ∀ x, S x ↔ T x) :
    Turned next T l l' :=
  ⟨h.length, fun x hx => h.moved x ((hiff x).mpr hx), fun x hx => h.others x (mt (hiff x).mp hx)⟩

/-! ## Two neighbouring blocks -/

/-- Where a content moves when `a` cells before `mid` and `b` cells from it change places. -/
def shift (mid a b pos : Nat) : Nat := if mid ≤ pos then pos - a else pos + b

section

variable {start a b : Nat}

theorem shift_add {r : Nat} (hr : r < a + b) :
    shift (start + a) a b (start + r) = start + (r + b) % (a + b) := by
  rw [shift]
  split
  · have hwrap : r + b = (r - a) + (a + b) := by omega
    rw [hwrap, Nat.add_mod_right, Nat.mod_eq_of_lt (by omega)]
    omega
  · rw [Nat.mod_eq_of_lt (by omega)]
    omega

theorem shift_iterate {r : Nat} (hr : r < a + b) (k : Nat) :
    (shift (start + a) a b)^[k] (start + r) = start + (r + k * b) % (a + b) := by
  induction k with
  | zero => simp [Nat.mod_eq_of_lt hr]
  | succ k ih =>
      rw [Function.iterate_succ_apply', ih, shift_add (Nat.mod_lt _ (by omega)), Nat.mod_add_mod,
        Nat.succ_mul, Nat.add_assoc]

theorem add_mod_of_dvd {x y d : Nat} (h : d ∣ y) : (x + y) % d = x % d := by
  obtain ⟨q, rfl⟩ := h
  exact Nat.add_mul_mod_self_left x d q

theorem gcd_dvd_sum : Nat.gcd a b ∣ a + b :=
  Nat.dvd_add (Nat.gcd_dvd_left a b) (Nat.gcd_dvd_right a b)

theorem shift_fresh (hb : 0 < b) {r i j : Nat} (hij : i < j)
    (hj : j < (a + b) / Nat.gcd a b) : (r + j * b) % (a + b) ≠ (r + i * b) % (a + b) := by
  intro hsame
  have hd : 0 < Nat.gcd a b := Nat.gcd_pos_of_pos_right a hb
  have hdvd : a + b ∣ (j - i) * b := by
    have hmod : r + i * b ≡ r + j * b [MOD a + b] := hsame.symm
    have := (Nat.modEq_iff_dvd' (by
      have := Nat.mul_le_mul_right b hij.le
      omega)).mp hmod
    rwa [Nat.add_sub_add_left, ← Nat.sub_mul] at this
  have hcoprime : Nat.Coprime ((a + b) / Nat.gcd a b) (b / Nat.gcd a b) := by
    have hsum : Nat.gcd (a + b) b = Nat.gcd a b := by simp
    rw [← hsum]
    exact Nat.coprime_div_gcd_div_gcd (by rw [hsum]; exact hd)
  have hquotient : (a + b) / Nat.gcd a b ∣ (j - i) * (b / Nat.gcd a b) := by
    rw [← Nat.mul_div_assoc _ (Nat.gcd_dvd_right a b)]
    exact Nat.div_dvd_div gcd_dvd_sum hdvd
  have hle := Nat.le_of_dvd (by omega) (hcoprime.dvd_of_dvd_mul_right hquotient)
  omega

theorem shift_closed (r k : Nat) :
    (r + k % ((a + b) / Nat.gcd a b) * b) % (a + b) = (r + k * b) % (a + b) := by
  have hwhole : a + b ∣ (a + b) / Nat.gcd a b * b := by
    rw [Nat.div_mul_right_comm gcd_dvd_sum, Nat.mul_div_assoc _ (Nat.gcd_dvd_right a b)]
    exact Nat.dvd_mul_right _ _
  have hdrop : k * b = k % ((a + b) / Nat.gcd a b) * b +
      (a + b) / Nat.gcd a b * b * (k / ((a + b) / Nat.gcd a b)) := by
    conv_lhs => rw [← Nat.mod_add_div k ((a + b) / Nat.gcd a b)]
    ring
  rw [hdrop, ← Nat.add_assoc]
  exact (add_mod_of_dvd (hwhole.mul_right _)).symm

theorem shift_reaches (hb : 0 < b) {r x : Nat} (hx : x < a + b)
    (hclass : x % Nat.gcd a b = r % Nat.gcd a b) :
    ∃ k < (a + b) / Nat.gcd a b, (r + k * b) % (a + b) = x := by
  have hd : 0 < Nat.gcd a b := Nat.gcd_pos_of_pos_right a hb
  have hperiod : 0 < (a + b) / Nat.gcd a b :=
    Nat.div_pos (Nat.le_of_dvd (by omega) gcd_dvd_sum) hd
  -- some multiple of `b` leads from `r` to `x`, by the theorem of Bézout
  obtain ⟨u, v, huv⟩ : ∃ u v : ℤ, (x : ℤ) - r = b * u + (a + b : ℕ) * v := by
    obtain ⟨q, hq⟩ : (Nat.gcd a b : ℤ) ∣ (x : ℤ) - r := Nat.modEq_iff_dvd.mp hclass.symm
    have hbezout := Nat.gcd_eq_gcd_ab b (a + b)
    have hgcd : Nat.gcd b (a + b) = Nat.gcd a b := by simp [Nat.gcd_comm]
    rw [hgcd] at hbezout
    refine ⟨Nat.gcdA b (a + b) * q, Nat.gcdB b (a + b) * q, ?_⟩
    rw [hq, hbezout]
    ring
  have hnonneg : 0 ≤ u % (a + b : ℕ) := Int.emod_nonneg u (by omega)
  have hreach : ((r + (u % (a + b : ℕ)).toNat * b : ℕ) : ℤ) ≡ x [ZMOD (a + b : ℕ)] := by
    have hx' : (x : ℤ) = r + u * b + (a + b : ℕ) * v := by linarith
    rw [hx', Nat.cast_add r, Nat.cast_mul, Int.toNat_of_nonneg hnonneg]
    calc (r : ℤ) + u % (a + b : ℕ) * b ≡ r + u * b [ZMOD (a + b : ℕ)] :=
          ((Int.mod_modEq u _).mul_right _).add_left _
      _ ≡ r + u * b + (a + b : ℕ) * v [ZMOD (a + b : ℕ)] := by
          simp [Int.ModEq]
  refine ⟨(u % (a + b : ℕ)).toNat % ((a + b) / Nat.gcd a b), Nat.mod_lt _ hperiod, ?_⟩
  rw [shift_closed, Int.natCast_modEq_iff.mp hreach, Nat.mod_eq_of_lt hx]

end

def Before (start a b i x : Nat) : Prop :=
  start ≤ x ∧ x < start + (a + b) ∧ (x - start) % Nat.gcd a b < i

section

variable {start a b : Nat}

theorem cycle_iff (hb : 0 < b) {i x : Nat} (hi : i < Nat.gcd a b) :
    (∃ j < (a + b) / Nat.gcd a b, x = (shift (start + a) a b)^[j] (start + a + i)) ↔
      start ≤ x ∧ x < start + (a + b) ∧ (x - start) % Nat.gcd a b = i := by
  have hib : i < b := hi.trans_le (Nat.le_of_dvd hb (Nat.gcd_dvd_right a b))
  have hclass : (a + i) % Nat.gcd a b = i := by
    rw [Nat.add_comm, add_mod_of_dvd (Nat.gcd_dvd_left a b), Nat.mod_eq_of_lt hi]
  have hcell : ∀ j, (shift (start + a) a b)^[j] (start + a + i) =
      start + (a + i + j * b) % (a + b) := fun j => by
    rw [Nat.add_assoc start a i]
    exact shift_iterate (by omega) j
  constructor
  · rintro ⟨j, -, rfl⟩
    rw [hcell]
    have := Nat.mod_lt (a + i + j * b) (show 0 < a + b by omega)
    refine ⟨by omega, by omega, ?_⟩
    rw [Nat.add_sub_cancel_left, Nat.mod_mod_of_dvd _ gcd_dvd_sum,
      add_mod_of_dvd ((Nat.gcd_dvd_right a b).mul_left j), hclass]
  · rintro ⟨hlow, hhigh, hmod⟩
    obtain ⟨k, hk, hreach⟩ := shift_reaches (a := a) (r := a + i) hb (x := x - start) (by omega)
      (by rw [hmod, hclass])
    exact ⟨k, hk, by rw [hcell, hreach]; omega⟩

theorem Before.shift {i x : Nat} (h : Before start a b i x) :
    Before start a b i (shift (start + a) a b x) := by
  obtain ⟨hlow, hhigh, hmod⟩ := h
  have hx : x = start + (x - start) := by omega
  rw [hx, shift_add (by omega)]
  have := Nat.mod_lt (x - start + b) (show 0 < a + b by omega)
  refine ⟨by omega, by omega, ?_⟩
  rw [Nat.add_sub_cancel_left, Nat.mod_mod_of_dvd _ gcd_dvd_sum,
    add_mod_of_dvd (Nat.gcd_dvd_right a b)]
  exact hmod

theorem before_succ_iff {i x : Nat} :
    Before start a b (i + 1) x ↔ Before start a b i x ∨
      (start ≤ x ∧ x < start + (a + b) ∧ (x - start) % Nat.gcd a b = i) := by
  unfold Before
  omega

theorem before_gcd_iff (hb : 0 < b) {x : Nat} :
    Before start a b (Nat.gcd a b) x ↔ start ≤ x ∧ x < start + (a + b) := by
  have := Nat.mod_lt (x - start) (Nat.gcd_pos_of_pos_right a hb)
  unfold Before
  omega

theorem cyclesLoop_turned (start a : Nat) (hb : 0 < b) {l : List α}
    (hl : start + (a + b) ≤ l.length) {count : Nat} (hcount : count ≤ Nat.gcd a b) :
    ∃ l', cyclesLoop (shift (start + a) a b) (start + a) ((a + b) / Nat.gcd a b) count l = some l' ∧
      Turned (shift (start + a) a b) (Before start a b count) l l' := by
  induction count with
  | zero => exact ⟨l, rfl, rfl, by simp [Before], fun _ _ => rfl⟩
  | succ i ih =>
      obtain ⟨l₁, hloop, hturned⟩ := ih (by omega)
      have hib : i < b := by
        have := Nat.le_of_dvd hb (Nat.gcd_dvd_right a b)
        omega
      have hcell : ∀ j, (shift (start + a) a b)^[j] (start + a + i) =
          start + (a + i + j * b) % (a + b) := fun j => by
        rw [Nat.add_assoc start a i]
        exact shift_iterate (by omega) j
      have hperiod : 0 < (a + b) / Nat.gcd a b :=
        Nat.div_pos (Nat.le_of_dvd (by omega) gcd_dvd_sum) (by omega)
      obtain ⟨l₂, hcycle, hone⟩ := cycleLoop_turned (shift (start + a) a b)
        (start + a + i) l₁ hperiod (fun j => by
          have := Nat.mod_lt (a + i + j * b) (show 0 < a + b by omega)
          rw [hcell, hturned.length]
          omega)
        (by
          have hwrap := shift_closed (a := a) (b := b) (a + i) ((a + b) / Nat.gcd a b)
          rw [Nat.mod_self, Nat.zero_mul, Nat.add_zero, Nat.mod_eq_of_lt (by omega)] at hwrap
          rw [hcell, ← hwrap]
          omega)
        fun j k hjk hk => by
          rw [hcell, hcell]
          have := shift_fresh (r := a + i) hb hjk hk
          omega
      refine ⟨l₂, ?_, ?_⟩
      · rw [cyclesLoop] at hloop ⊢
        rw [List.range_succ, List.foldlM_append, hloop]
        simpa using hcycle
      · refine (hturned.trans (hone.congr fun x => cycle_iff hb (by omega)) (fun x hx => hx.shift)
          ?_).congr fun x => before_succ_iff.symm
        rintro x ⟨-, -, hbefore⟩ ⟨-, -, hclass⟩
        omega

end

/-- The blocks change places and keep their order; what stands around them is not touched. -/
theorem cyclesLoop_exchange (front first second back : List α) (hsecond : second ≠ []) :
    cyclesLoop (shift (front.length + first.length) first.length second.length)
        (front.length + first.length)
        ((first.length + second.length) / Nat.gcd first.length second.length)
        (Nat.gcd first.length second.length) (front ++ first ++ second ++ back) =
      some (front ++ second ++ first ++ back) := by
  have hb : 0 < second.length := List.length_pos_of_ne_nil hsecond
  obtain ⟨l', hloop, hturned⟩ := cyclesLoop_turned front.length first.length hb
    (l := front ++ first ++ second ++ back) (by simp) le_rfl
  rw [hloop, Option.some_inj]
  apply List.ext_getElem?
  intro y
  have hmoved := fun x hx => hturned.moved x ((before_gcd_iff hb).mpr hx)
  by_cases houtside : y < front.length ∨ front.length + (first.length + second.length) ≤ y
  · rw [hturned.others y (by rw [before_gcd_iff hb]; omega)]
    grind
  by_cases hahead : y < front.length + second.length
  · have hcell := hmoved (y + first.length) (by omega)
    rw [shift, if_pos (by omega), Nat.add_sub_cancel] at hcell
    rw [hcell]
    grind
  · have hcell := hmoved (y - second.length) (by omega)
    rw [shift, if_neg (by omega), Nat.sub_add_cancel (by omega)] at hcell
    rw [hcell]
    grind

end Quid.Foundation.Exchange
