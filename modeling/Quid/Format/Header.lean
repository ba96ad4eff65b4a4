import Quid.Generator.Calls
import Quid.Access
import Quid.Foundation.BitField

/-!
# What a header carries

`format_quid_rev4` and `format_quid_rev7` spread the low 60 bits of a timestamp
over three fields and bits of the clock sequence over two.  The top time word
shares its field with the version and is marked by `QUIDMAGIC`.
-/

namespace Quid

open Quid.Foundation
open Quid.Foundation.BitField

def Cuuid.wireTime (u : Cuuid) : Nat :=
  u.timeLow.toNat + u.timeMid.toNat * 2 ^ 32 +
    (u.timeHiAndVersion ^^^ quidMagic.toUInt16).toNat % 2 ^ 12 * 2 ^ 48

def Cuuid.wireVersion (u : Cuuid) : Nat :=
  (u.timeHiAndVersion ^^^ quidMagic.toUInt16).toNat / 2 ^ 12

variable {version clockSeq clockSeq' : UInt16} {timestamp timestamp' : UInt64}
  {u v : Cuuid}

/-! ## Time words -/

theorem and_mask_toNat (word : UInt64) (k : Nat) (mask : UInt64)
    (hmask : mask.toNat = 2 ^ k - 1) : (word &&& mask).toNat = word.toNat % 2 ^ k := by
  rw [UInt64.toNat_and, hmask, Nat.and_two_pow_sub_one_eq_mod]

theorem timeLow_toNat (timestamp : UInt64) :
    (timestamp &&& 0xffffffff).toNat = timestamp.toNat % 2 ^ 32 :=
  and_mask_toNat timestamp 32 0xffffffff rfl

theorem timeMid_toNat (timestamp : UInt64) :
    ((timestamp >>> 32) &&& 0xffff).toUInt16.toNat = timestamp.toNat / 2 ^ 32 % 2 ^ 16 := by
  have hshift : (timestamp >>> 32).toNat = timestamp.toNat / 2 ^ 32 :=
    Nat.shiftRight_eq_div_pow _ 32
  rw [UInt64.toNat_toUInt16, and_mask_toNat _ 16 0xffff rfl, hshift, Nat.mod_mod]

def topWord (timestamp : UInt64) : UInt16 := ((timestamp >>> 48) &&& 0xfff).toUInt16

theorem topWord_toNat (timestamp : UInt64) :
    (topWord timestamp).toNat = timestamp.toNat / 2 ^ 48 % 2 ^ 12 := by
  have hshift : (timestamp >>> 48).toNat = timestamp.toNat / 2 ^ 48 :=
    Nat.shiftRight_eq_div_pow _ 48
  rw [topWord, UInt64.toNat_toUInt16, and_mask_toNat _ 12 0xfff rfl, hshift]
  omega

theorem topWord_lt (timestamp : UInt64) : (topWord timestamp).toNat < 2 ^ 12 := by
  rw [topWord_toNat]
  exact Nat.mod_lt _ (by decide)

theorem version_mod (hversion : version &&& 0xfff = 0) : version.toNat % 2 ^ 12 = 0 := by
  have h := congrArg UInt16.toNat hversion
  rw [UInt16.toNat_and] at h
  exact (Nat.and_two_pow_sub_one_eq_mod version.toNat 12).symm.trans h

theorem timeWords_congr (h : timestamp.toNat % 2 ^ 60 = timestamp'.toNat % 2 ^ 60) :
    timestamp &&& 0xffffffff = timestamp' &&& 0xffffffff ∧
      ((timestamp >>> 32) &&& 0xffff).toUInt16 = ((timestamp' >>> 32) &&& 0xffff).toUInt16 ∧
      topWord timestamp = topWord timestamp' := by
  refine ⟨UInt64.toNat_inj.mp ?_, UInt16.toNat_inj.mp ?_, UInt16.toNat_inj.mp ?_⟩
  · rw [timeLow_toNat, timeLow_toNat]
    omega
  · rw [timeMid_toNat, timeMid_toNat]
    omega
  · rw [topWord_toNat, topWord_toNat]
    omega

/-! ## Time fields -/

structure Carries (u : Cuuid) (version : UInt16) (timestamp : UInt64) : Prop where
  timeLow : u.timeLow = timestamp &&& 0xffffffff
  timeMid : u.timeMid = ((timestamp >>> 32) &&& 0xffff).toUInt16
  timeHi : u.timeHiAndVersion = (topWord timestamp ^^^ quidMagic.toUInt16) ||| version

theorem packedTop_toNat (hversion : version &&& 0xfff = 0) (timestamp : UInt64) :
    (((topWord timestamp ^^^ quidMagic.toUInt16) ||| version) ^^^ quidMagic.toUInt16).toNat =
      version.toNat + timestamp.toNat / 2 ^ 48 % 2 ^ 12 := by
  -- the marker lies among the time bits, so the version bits do not meet it
  have hmarker : version.toBitVec &&& quidMagic.toUInt16.toBitVec = 0#16 := by
    have hlow : version.toBitVec &&& 0xfff#16 = 0#16 := congrArg UInt16.toBitVec hversion
    have hpart : 0x80#16 = 0xfff#16 &&& 0x80#16 := by decide
    calc
      version.toBitVec &&& quidMagic.toUInt16.toBitVec
          = version.toBitVec &&& (0xfff#16 &&& 0x80#16) := congrArg _ hpart
      _ = 0#16 := by rw [← BitVec.and_assoc, hlow, BitVec.zero_and]
  have hopen : ((topWord timestamp ^^^ quidMagic.toUInt16) ||| version) ^^^ quidMagic.toUInt16 =
      version ||| topWord timestamp :=
    UInt16.eq_of_toBitVec_eq (xor_or_xor _ _ (topWord timestamp).toBitVec hmarker)
  rw [hopen, UInt16.toNat_or, or_eq_add (version_mod hversion) (topWord_lt timestamp),
    topWord_toNat]

theorem Carries.top (h : Carries u version timestamp) (hversion : version &&& 0xfff = 0) :
    (u.timeHiAndVersion ^^^ quidMagic.toUInt16).toNat =
      version.toNat + timestamp.toNat / 2 ^ 48 % 2 ^ 12 := by
  rw [h.timeHi, packedTop_toNat hversion]

theorem Carries.wireTime (h : Carries u version timestamp) (hversion : version &&& 0xfff = 0) :
    u.wireTime = timestamp.toNat % 2 ^ 60 := by
  have hmod := version_mod hversion
  rw [Cuuid.wireTime, h.timeLow, h.timeMid, h.top hversion, timeLow_toNat, timeMid_toNat]
  omega

theorem Carries.wireVersion (h : Carries u version timestamp) (hversion : version &&& 0xfff = 0) :
    u.wireVersion = version.toNat / 2 ^ 12 := by
  have hmod := version_mod hversion
  rw [Cuuid.wireVersion, h.top hversion]
  omega

theorem Cuuid.SameWire.wireTime (h : u.SameWire v) : u.wireTime = v.wireTime := by
  rw [Cuuid.wireTime, Cuuid.wireTime, h.timeLow, h.timeMid, h.timeHiAndVersion]

theorem Cuuid.SameWire.wireVersion (h : u.SameWire v) : u.wireVersion = v.wireVersion := by
  rw [Cuuid.wireVersion, Cuuid.wireVersion, h.timeHiAndVersion]

theorem Carries.timeLow_lt (h : Carries u version timestamp) : u.timeLow.toNat < 2 ^ 32 := by
  rw [h.timeLow, timeLow_toNat]
  exact Nat.mod_lt _ (by decide)

/-! ## Clock fields -/

theorem clockFields_eq_iff :
    ((clockSeq &&& 0xff).toUInt8 = (clockSeq' &&& 0xff).toUInt8 ∧
      ((clockSeq &&& 0x4e00) >>> 8).toUInt8 ||| quidMagic =
        ((clockSeq' &&& 0x4e00) >>> 8).toUInt8 ||| quidMagic) ↔
      clockSeq &&& 0x4eff = clockSeq' &&& 0x4eff := by
  constructor
  · rintro ⟨hlow, hhigh⟩
    apply UInt16.eq_of_toBitVec_eq
    ext i hi
    have hl := congrArg (fun field => field.toBitVec.getLsbD i) hlow
    have hh := congrArg (fun field => field.toBitVec.getLsbD (i - 8)) hhigh
    clear hlow hhigh
    revert hl hh
    interval_cases i <;> simp +contextual [quidMagic]
  · intro h
    refine ⟨UInt8.eq_of_toBitVec_eq ?_, UInt8.eq_of_toBitVec_eq ?_⟩
    · ext i hi
      have hb := congrArg (fun field => field.toBitVec.getLsbD i) h
      revert hb
      interval_cases i <;> simp
    · ext i hi
      have hb := congrArg (fun field => field.toBitVec.getLsbD (i + 8)) h
      revert hb
      interval_cases i <;> simp [quidMagic]

/-! ## Created identifiers -/

variable {node : CuuidNode} {first last : UInt16} {flag subc : UInt8} {tag : Option TagText}

theorem rev4Identifier_carries : Carries
    (rev4Identifier timestamp clockSeq node first last flag subc) versionRev4 timestamp :=
  ⟨rfl, rfl, rfl⟩

theorem rev7Identifier_carries :
    Carries (rev7Identifier timestamp clockSeq flag subc tag) versionRev7 timestamp :=
  ⟨rfl, rfl, rfl⟩

theorem versionRev4_low : versionRev4 &&& 0xfff = 0 := by decide

theorem versionRev7_low : versionRev7 &&& 0xfff = 0 := by decide

def createdVersion (prior : Cuuid) : UInt8 :=
  if prior.version = quidRev4 then quidRev4 else quidRev7

theorem createdVersion_cases (prior : Cuuid) :
    createdVersion prior = quidRev4 ∨ createdVersion prior = quidRev7 := by
  unfold createdVersion
  split
  · exact .inl rfl
  · exact .inr rfl

theorem versionSubtrahend_low {version : UInt8}
    (hversion : version = quidRev4 ∨ version = quidRev7) :
    versionSubtrahend version &&& 0xfff = 0 := by
  rcases hversion with rfl | rfl
  · exact versionRev4_low
  · exact versionRev7_low

theorem quidCreate_carries {p p' : Process} {prior : Cuuid} {answer : Cresult × Option Cuuid}
    (hcall : quidCreate p (some prior) flag subc tag = .ok (answer, p')) :
    ∃ timestamp q u, getCurrentTime p = .ok (timestamp, q) ∧ answer = (.ok, some u) ∧
      u.version = createdVersion prior ∧ Carries u (versionSubtrahend u.version) timestamp := by
  obtain ⟨timestamp, q, u, htime, rfl, hshape⟩ := quidCreate_shape hcall
  refine ⟨timestamp, q, u, htime, rfl, ?_⟩
  rcases hshape with ⟨hversion, _, _, _, _, rfl⟩ | ⟨hversion, _, rfl⟩
  · exact ⟨(if_pos hversion).symm, rev4Identifier_carries⟩
  · exact ⟨(if_neg hversion).symm, rev7Identifier_carries⟩

theorem quidCreate_carries_at {p p' q : Process} {prior : Cuuid}
    (hcall : quidCreate p (some prior) flag subc tag = .ok ((.ok, some u), p'))
    (htime : getCurrentTime p = .ok (timestamp, q)) :
    u.version = createdVersion prior ∧ Carries u (versionSubtrahend u.version) timestamp := by
  obtain ⟨_, _, _, htime', hanswer, hversion, hcarries⟩ := quidCreate_carries hcall
  rw [htime] at htime'
  cases htime'
  cases hanswer
  exact ⟨hversion, hcarries⟩

end Quid
