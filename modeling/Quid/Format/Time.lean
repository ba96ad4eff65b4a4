import Quid.Format.Header

/-!
# The creation time of an identifier

`quid_timeval` takes the marker and the version out of the top time word and
divides the timestamp into seconds and microseconds.  For a created identifier
that is the timestamp of its call, which exceeds the clock reading by at most
the per-tick counter.
-/

namespace Quid

open Quid.Foundation
open Quid.Foundation.BitField
open Quid.Foundation.TickCounter

variable {u : Cuuid} {timestamp : UInt64}

/-! ## The timestamp -/

theorem fields_toNat {low mid top : UInt64} (hlow : low.toNat < 2 ^ 32)
    (hmid : mid.toNat < 2 ^ 16) (htop : top.toNat < 2 ^ 12) :
    (low ||| (mid <<< 32) ||| (top <<< 48)).toNat =
      low.toNat + mid.toNat * 2 ^ 32 + top.toNat * 2 ^ 48 := by
  have hmidShift : (mid <<< 32).toNat = mid.toNat * 2 ^ 32 := by
    have hshift : (mid <<< 32).toNat = (mid.toNat <<< 32) % 2 ^ 64 := UInt64.toNat_shiftLeft ..
    rw [hshift, Nat.shiftLeft_eq]
    omega
  have htopShift : (top <<< 48).toNat = top.toNat * 2 ^ 48 := by
    have hshift : (top <<< 48).toNat = (top.toNat <<< 48) % 2 ^ 64 := UInt64.toNat_shiftLeft ..
    rw [hshift, Nat.shiftLeft_eq]
    omega
  rw [UInt64.toNat_or, UInt64.toNat_or, hmidShift, htopShift, Nat.or_comm low.toNat]
  rw [or_eq_add (Nat.mul_mod_left _ _) hlow, Nat.or_comm]
  rw [or_eq_add (Nat.mul_mod_left _ _) (by omega)]
  omega

theorem cuuidTime_toNat {top : Nat} (hlow : u.timeLow.toNat < 2 ^ 32) (hbelow : top < 2 ^ 12)
    (htop : (u.timeHiAndVersion ^^^ quidMagic.toUInt16).toNat =
      (versionSubtrahend u.version).toNat + top) :
    (cuuidTime u).toNat = u.timeLow.toNat + u.timeMid.toNat * 2 ^ 32 + top * 2 ^ 48 := by
  have hword : ((u.timeHiAndVersion ^^^ quidMagic.toUInt16).toNat : Int) -
      (versionSubtrahend u.version).toNat = top := by
    rw [htop]
    push_cast
    ring
  have hmid : u.timeMid.toUInt64.toNat = u.timeMid.toNat := UInt16.toNat_toUInt64 _
  have hofInt : (UInt64.ofInt (top : Int)).toNat = top := uint64_ofInt_toNat (by omega)
  simp only [Quid.cuuidTime, hword]
  rw [fields_toNat hlow (by rw [hmid]; exact u.timeMid.toNat_lt) (by rwa [hofInt]), hmid, hofInt]

theorem Carries.cuuidTime (h : Carries u (versionSubtrahend u.version) timestamp)
    (hversion : versionSubtrahend u.version &&& 0xfff = 0) :
    (cuuidTime u).toNat = timestamp.toNat % 2 ^ 60 := by
  rw [cuuidTime_toNat h.timeLow_lt (Nat.mod_lt _ (by decide)) (h.top hversion), h.timeLow,
    timeLow_toNat, h.timeMid, timeMid_toNat]
  omega

theorem quidTimeval_eq (u : Cuuid) :
    (quidTimeval u).tvSec = ((cuuidTime u).toNat / 10000000 : Nat) ∧
      (quidTimeval u).tvUsec = ((cuuidTime u).toNat / 10 % 1000000 : Nat) := by
  have husec : (cuuidTime u / 10 % 1000000).toNat = (cuuidTime u).toNat / 10 % 1000000 := by
    rw [UInt64.toNat_mod, UInt64.toNat_div]
    rfl
  have hdiv : (cuuidTime u / 10).toNat = (cuuidTime u).toNat / 10 := by
    rw [UInt64.toNat_div]
    rfl
  have hsec : ((cuuidTime u / 10 - cuuidTime u / 10 % 1000000) / 1000000).toNat =
      (cuuidTime u).toNat / 10000000 := by
    rw [UInt64.toNat_div, UInt64.toNat_sub_of_le, hdiv, husec]
    · show _ / 1000000 = _
      omega
    · rw [UInt64.le_iff_toNat_le, hdiv, husec]
      exact Nat.mod_le _ _
  exact ⟨congrArg Nat.cast hsec, congrArg Nat.cast husec⟩

/-! ## The reading -/

/-- What `gettimeofday` documents of its output: time since the Epoch. -/
structure SinceEpoch (tv : Timeval) : Prop where
  sec : 0 ≤ tv.tvSec
  usec : 0 ≤ tv.tvUsec
  usec_lt : tv.tvUsec < 1000000

theorem squeezeTime_toNat {tv : Timeval} (h : SinceEpoch tv)
    (hbound : tv.tvSec * 10000000 + tv.tvUsec * 10 < 2 ^ 64) :
    ((squeezeTime tv).toNat : Int) = tv.tvSec * 10000000 + tv.tvUsec * 10 := by
  have hsum : squeezeTime tv = UInt64.ofInt (tv.tvSec * 10000000 + tv.tvUsec * 10) := by
    rw [UInt64.ofInt_add, UInt64.ofInt_mul]
    rfl
  have hnonneg : 0 ≤ tv.tvSec * 10000000 + tv.tvUsec * 10 := by
    have hsec := h.sec
    have husec := h.usec
    omega
  obtain ⟨n, hn⟩ := Int.eq_ofNat_of_zero_le hnonneg
  rw [hn] at hbound
  rw [hsum, hn, uint64_ofInt_toNat (by omega)]

theorem getCurrentTime_reading {p p' : Process} {before : Clock}
    {outcome : Except Stop UInt64} (hcall : getCurrentTime p = .ok (timestamp, p'))
    (hclock : p.clock = before ++ outcome :: p'.clock) :
    ∃ reading, outcome = .ok reading ∧ p'.idsThisTick.toNat ≤ uidsPerTick.toNat ∧
      timestamp = reading + p'.idsThisTick.toUInt64 := by
  obtain ⟨earlier, reading, hearlier, hids, hstamp⟩ := getCurrentTime_clock hcall
  rw [hearlier] at hclock
  obtain ⟨-, htail⟩ := List.append_inj' hclock rfl
  exact ⟨reading, (List.cons.inj htail).1.symm, hids, hstamp⟩

theorem getCurrentTime_answer {p p' : Process} {before : Clock} {answer : TimeOfDay}
    (hcall : getCurrentTime p = .ok (timestamp, p'))
    (hclock : p.clock = before ++ getSystemTime p.ndebug answer :: p'.clock)
    (hepoch : SinceEpoch answer.tv)
    (hbound : answer.tv.tvSec * 10000000 + answer.tv.tvUsec * 10 + 1024 < 2 ^ 60) :
    ∃ ids : Nat, ids ≤ uidsPerTick.toNat ∧
      (timestamp.toNat : Int) = answer.tv.tvSec * 10000000 + answer.tv.tvUsec * 10 + ids := by
  obtain ⟨reading, houtcome, hids, rfl⟩ := getCurrentTime_reading hcall hclock
  obtain ⟨-, -, rfl⟩ := getSystemTime_eq_ok.mp houtcome
  have hreading := squeezeTime_toNat hepoch (by omega)
  have hstamp := toNat_stamp p'.idsThisTick (by omega : (squeezeTime answer.tv).toNat < 2 ^ 60)
  exact ⟨_, hids, by rw [hstamp]; omega⟩

theorem cuuidTime_created {p p' q : Process} {prior : Cuuid} {flag subc : UInt8}
    {tag : Option TagText}
    (hcreate : quidCreate p (some prior) flag subc tag = .ok ((.ok, some u), p'))
    (htime : getCurrentTime p = .ok (timestamp, q)) (hbelow : timestamp.toNat < 2 ^ 60) :
    (cuuidTime u).toNat = timestamp.toNat := by
  obtain ⟨hversion, hcarries⟩ := quidCreate_carries_at hcreate htime
  have hbits : versionSubtrahend u.version &&& 0xfff = 0 := by
    rw [hversion]
    exact versionSubtrahend_low (createdVersion_cases prior)
  rw [hcarries.cuuidTime hbits, Nat.mod_eq_of_lt hbelow]

/-! ## Recovery -/

/--
Seconds and microseconds read from a created identifier are the timestamp's, and
they exceed the clock by at most 102 microseconds.
-/
theorem creation_time_recovered {p q p' : Process} {prior : Cuuid} {flag subc : UInt8}
    {tag : Option TagText} {before : Clock} {answer : TimeOfDay}
    (hcreate : quidCreate p (some prior) flag subc tag = .ok ((.ok, some u), p'))
    (htime : getCurrentTime p = .ok (timestamp, q))
    (hclock : p.clock = before ++ getSystemTime p.ndebug answer :: q.clock)
    (hepoch : SinceEpoch answer.tv)
    (hbound : answer.tv.tvSec * 10000000 + answer.tv.tvUsec * 10 + 1024 < 2 ^ 60) :
    ∃ S U : Int, (∀ {Tm : Type} (gmtime : Int → Option Tm),
        quidTimestamp gmtime (some u) = .ok (gmtime S)) ∧
      quidMicrotime (some u) = .ok U ∧ 0 ≤ U ∧ U < 1000000 ∧
      S * 1000000 + U = (timestamp.toNat / 10 : Nat) ∧
      0 ≤ (S * 1000000 + U) - (answer.tv.tvSec * 1000000 + answer.tv.tvUsec) ∧
      (S * 1000000 + U) - (answer.tv.tvSec * 1000000 + answer.tv.tvUsec) ≤ 102 := by
  obtain ⟨ids, hids, hstamp⟩ := getCurrentTime_answer htime hclock hepoch hbound
  rw [uidsPerTick_toNat] at hids
  have hwire := cuuidTime_created hcreate htime (by omega)
  obtain ⟨hsec, husec⟩ := quidTimeval_eq u
  refine ⟨_, _, fun gmtime => rfl, rfl, ?_⟩
  rw [hsec, husec, hwire]
  omega

theorem creation_time_recovered_still : SinceEpoch stillDraw.timeOfDay.tv ∧ ∃ S U : Int,
    (∀ {Tm : Type} (gmtime : Int → Option Tm),
      quidTimestamp gmtime (some (rev7Identifier 17000000000000000 0 1 2 none)) =
        .ok (gmtime S)) ∧
    quidMicrotime (some (rev7Identifier 17000000000000000 0 1 2 none)) = .ok U ∧
    0 ≤ U ∧ U < 1000000 ∧
    S * 1000000 + U = ((17000000000000000 : UInt64).toNat / 10 : Nat) ∧
    0 ≤ (S * 1000000 + U) - (1700000000 * 1000000 + 0) ∧
    (S * 1000000 + U) - (1700000000 * 1000000 + 0) ≤ 102 := by
  have hepoch : SinceEpoch stillDraw.timeOfDay.tv := ⟨by decide, by decide, by decide⟩
  refine ⟨hepoch, ?_⟩
  obtain ⟨q, p', htime, hclock, -, -, hcreate⟩ := stillStart_creates 1 2 none
  have hreadings : stillStart.clock =
      [.ok 17000000000000000] ++ getSystemTime false stillDraw.timeOfDay :: q.clock := by
    rw [hclock]
    rfl
  exact creation_time_recovered hcreate htime hreadings hepoch (by decide)

end Quid
