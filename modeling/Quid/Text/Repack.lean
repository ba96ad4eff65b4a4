import Quid.Format.Time
import Quid.Text.Print

/-!
# Packing the time of a parsed identifier again

The validator recognises a version by its set bits, `quid_timeval` subtracts the
version and the format functions add it.  The three agree on a top time word
whose upper nibble is the version's own; on the nibbles that contain its bits
and more, the surplus ends in the timestamp and does not fit when it is packed.
-/

namespace Quid

open Quid.Foundation.BitField
open Quid.Foundation.CString

variable {u w : Cuuid} {timestamp : UInt64}

structure Cuuid.SameTime (u w : Cuuid) : Prop where
  timeLow : u.timeLow = w.timeLow
  timeMid : u.timeMid = w.timeMid
  timeHiAndVersion : u.timeHiAndVersion = w.timeHiAndVersion

/-- Packing the time read from `u` under its own revision gives the time fields of `u`. -/
structure Repacks (u : Cuuid) : Prop where
  rev4 : u.version = quidRev4 → ∀ p uid clockSeq node w p',
    formatQuidRev4 p uid clockSeq (cuuidTime u) node = .ok (w, p') → w.SameTime u
  rev7 : u.version = quidRev7 → ∀ uid clockSeq,
    (formatQuidRev7 uid clockSeq (cuuidTime u)).SameTime u
  bound : (cuuidTime u).toNat < 2 ^ 60

/-! ## The packers -/

theorem Carries.sameTime_iff {version : UInt16} (h : Carries w version timestamp) :
    w.SameTime u ↔ Carries u version timestamp := by
  constructor
  · rintro ⟨hlow, hmid, htop⟩
    exact ⟨hlow ▸ h.timeLow, hmid ▸ h.timeMid, htop ▸ h.timeHi⟩
  · intro hu
    exact ⟨h.timeLow.trans hu.timeLow.symm, h.timeMid.trans hu.timeMid.symm,
      h.timeHi.trans hu.timeHi.symm⟩

theorem formatHeader_carries (version clockMask clockSeq : UInt16) (uid : Cuuid) :
    Carries (formatHeader version clockMask uid clockSeq timestamp) version timestamp :=
  ⟨rfl, rfl, rfl⟩

theorem formatQuidRev4_carries {p p' : Process} {uid : Cuuid} {clockSeq : UInt16}
    {node : CuuidNode} (h : formatQuidRev4 p uid clockSeq timestamp node = .ok (w, p')) :
    Carries w versionRev4 timestamp := by
  simp only [formatQuidRev4, Quid.Foundation.bind_eq_ok, Quid.Foundation.pure_eq_ok,
    Prod.mk.injEq] at h
  obtain ⟨first, -, last, -, rfl, -⟩ := h
  exact ⟨rfl, rfl, rfl⟩

theorem formatQuidRev4_still (timestamp : UInt64) : ∃ w p',
    formatQuidRev4 stillStart Cuuid.zero 0 timestamp (Vector.replicate 6 0) = .ok (w, p') :=
  ⟨_, _, rfl⟩

theorem repacks_iff_carries (hversion : u.version = quidRev4 ∨ u.version = quidRev7) :
    Repacks u ↔ Carries u (versionSubtrahend u.version) (cuuidTime u) := by
  have hrev4 : versionSubtrahend quidRev4 = versionRev4 := rfl
  have hrev7 : versionSubtrahend quidRev7 = versionRev7 := rfl
  constructor
  · intro h
    rcases hversion with hversion | hversion
    · obtain ⟨w, p', hformat⟩ := formatQuidRev4_still (cuuidTime u)
      rw [hversion, hrev4]
      exact (formatQuidRev4_carries hformat).sameTime_iff.mp (h.rev4 hversion _ _ _ _ _ _ hformat)
    · rw [hversion, hrev7]
      exact (formatHeader_carries _ _ 0 u).sameTime_iff.mp (h.rev7 hversion u 0)
  · intro h
    refine ⟨fun hrev p uid clockSeq node w p' hformat => ?_, fun hrev uid clockSeq => ?_, ?_⟩
    · rw [hrev, hrev4] at h
      exact (formatQuidRev4_carries hformat).sameTime_iff.mpr h
    · rw [hrev, hrev7] at h
      exact (formatHeader_carries _ _ clockSeq uid).sameTime_iff.mpr h
    · rw [h.cuuidTime (versionSubtrahend_low hversion)]
      exact Nat.mod_lt _ (by decide)

/-! ## The nibble -/

theorem Cuuid.wireVersion_eq (u : Cuuid) : u.wireVersion = u.timeHiAndVersion.toNat / 2 ^ 12 := by
  have hmarker : quidMagic.toUInt16.toNat / 2 ^ 12 = 0 := by decide
  rw [Cuuid.wireVersion, UInt16.toNat_xor, Nat.xor_div_two_pow, hmarker, Nat.xor_zero]

theorem carries_of_wireVersion {version : UInt16} (hlow : u.timeLow.toNat < 2 ^ 32)
    (hversion : version &&& 0xfff = 0) (htime : timestamp.toNat = u.wireTime)
    (hnibble : u.wireVersion = version.toNat / 2 ^ 12) : Carries u version timestamp := by
  have hmod := version_mod hversion
  have hmid := u.timeMid.toNat_lt
  rw [Cuuid.wireTime] at htime
  rw [Cuuid.wireVersion] at hnibble
  refine ⟨UInt64.toNat_inj.mp ?_, UInt16.toNat_inj.mp ?_, ?_⟩
  · rw [timeLow_toNat]
    omega
  · rw [timeMid_toNat]
    omega
  · rw [← UInt16.xor_left_inj quidMagic.toUInt16, ← UInt16.toNat_inj, packedTop_toNat hversion]
    omega

theorem carries_cuuidTime_iff (hlow : u.timeLow.toNat < 2 ^ 32)
    (hversion : versionSubtrahend u.version &&& 0xfff = 0) :
    Carries u (versionSubtrahend u.version) (cuuidTime u) ↔
      u.timeHiAndVersion.toNat / 2 ^ 12 = (versionSubtrahend u.version).toNat / 2 ^ 12 := by
  rw [← u.wireVersion_eq]
  constructor
  · exact fun h => h.wireVersion hversion
  · intro hnibble
    have hmod := version_mod hversion
    refine carries_of_wireVersion hlow hversion ?_ hnibble
    have htop : (u.timeHiAndVersion ^^^ quidMagic.toUInt16).toNat =
        (versionSubtrahend u.version).toNat +
          (u.timeHiAndVersion ^^^ quidMagic.toUInt16).toNat % 2 ^ 12 := by
      rw [Cuuid.wireVersion] at hnibble
      omega
    rw [cuuidTime_toNat hlow (Nat.mod_lt _ (by decide)) htop, Cuuid.wireTime]

/-! ## Accepted strings -/

theorem textVersion_cases (text : Bytes) :
    textVersion text = quidRev4 ∨ textVersion text = quidRev7 := by
  unfold textVersion
  split
  · exact .inr rfl
  · exact .inl rfl

theorem nibble_eq_version_iff : ∀ nibble : Fin 16, nibble.val &&& 0xA = 0xA →
    (nibble.val = (versionSubtrahend
        (if nibble.val % 2 = 1 then quidRev7 else quidRev4)).toNat / 2 ^ 12 ↔
      nibble.val = 0xA ∨ nibble.val = 0xB) := by
  decide

variable {s junk : Bytes} {prior : Cuuid} {out : Option Bytes}

/--
Whether the time of an accepted identifier packs back to its fields is decided by
the 13th digit, which the validator takes for a version.
-/
theorem quidParse_repacks_iff (hs : 0 ∉ s)
    (hparse : quidParse (some (s ++ 0 :: junk)) (some prior) = (.ok, out, some u)) :
    Repacks u ↔ versionNibble (stripped s) = 0xA ∨ versionNibble (stripped s) = 0xB := by
  obtain ⟨haccepts, hu⟩ := accepts_of_quidParse hs hparse
  obtain ⟨-, hlow, -, -⟩ := parsed_facts hs hparse
  have hversion : u.version = textVersion (stripped s) := by rw [hu]
  have hrevision : u.version = quidRev4 ∨ u.version = quidRev7 := hversion ▸ textVersion_cases _
  have hbits := versionSubtrahend_low hrevision
  have hnibble : u.timeHiAndVersion.toNat / 2 ^ 12 = versionNibble (stripped s) := by
    obtain ⟨rest, hrest, htop⟩ := haccepts.hex.timeHi_toNat prior
    have hword : u.timeHiAndVersion = (decoded (stripped s) prior).timeHiAndVersion := by rw [hu]
    rw [hword, htop]
    omega
  rw [repacks_iff_carries hrevision, carries_cuuidTime_iff hlow hbits, hnibble, hversion]
  exact nibble_eq_version_iff ⟨_, haccepts.hex.versionNibble_lt⟩ haccepts.version

def surplusDigits : Bytes :=
  List.replicate 12 (chr '1') ++ chr 'f' :: List.replicate 19 (chr '1')

theorem quidParse_repacks_iff_plainDigits :
    Repacks plainIdentifier ↔
      versionNibble (stripped plainDigits) = 0xA ∨ versionNibble (stripped plainDigits) = 0xB :=
  quidParse_repacks_iff (by decide)
    (rfl : quidParse (some (plainDigits ++ 0 :: [])) (some Cuuid.zero) =
      (.ok, some (plainDigits ++ [0]), some plainIdentifier))

/-- The digit `f` is accepted as REV7, and the time read from it is beyond 60 bits. -/
theorem surplusDigits_not_repacks :
    ∃ out u, quidParse (some (surplusDigits ++ 0 :: [])) (some Cuuid.zero) = (.ok, out, some u) ∧
      u.version = quidRev7 ∧ (cuuidTime u).toNat = 0x4191111111111111 ∧
      (formatQuidRev7 Cuuid.zero 0 (cuuidTime u)).timeHiAndVersion ≠ u.timeHiAndVersion ∧
      ¬ Repacks u := by
  refine ⟨_, _, rfl, by decide, by decide, by decide, fun h => ?_⟩
  exact absurd h.bound (by decide)

end Quid
