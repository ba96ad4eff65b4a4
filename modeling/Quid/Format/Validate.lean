import Quid.Format.Header
import Quid.Text

/-!
# What the validator accepts

`quid_validate` reads the version back from the top time word.  On time fields
packed under one of the two versions it finds that version, and its only other
demand is a time below the top word that is not zero in its low 32 bits.
-/

namespace Quid

open Quid.Foundation.BitField

variable {version : UInt8} {timestamp : UInt64} {u : Cuuid}

theorem Carries.and_version {bits : UInt16} (h : Carries u bits timestamp) :
    u.timeHiAndVersion &&& bits = bits := by
  rw [h.timeHi]
  exact UInt16.eq_of_toBitVec_eq (or_and_self bits.toBitVec _)

theorem Carries.not_rev7 (h : Carries u versionRev4 timestamp) :
    u.timeHiAndVersion &&& versionRev7 ≠ versionRev7 := by
  intro hrev7
  have hclear : (topWord timestamp).toBitVec[12] = false :=
    Nat.testBit_lt_two_pow (topWord_lt timestamp)
  have hbit := congrArg (fun word => word.toBitVec.getLsbD 12) hrev7
  rw [h.timeHi] at hbit
  revert hbit
  simp [versionRev4, versionRev7, quidMagic, hclear]

theorem versionRev7_carries_validate (h : Carries u versionRev7 timestamp)
    (hlow : u.timeLow ≠ 0) :
    quidValidate (some u) = (.ok, some { u with version := quidRev7 }) := by
  simp [quidValidate, hlow, h.and_version]

theorem versionRev4_carries_validate (h : Carries u versionRev4 timestamp)
    (hlow : u.timeLow ≠ 0) :
    quidValidate (some u) = (.ok, some { u with version := quidRev4 }) := by
  simp [quidValidate, hlow, h.and_version, h.not_rev7]

theorem Carries.validate (h : Carries u (versionSubtrahend version) timestamp)
    (hversion : version = quidRev4 ∨ version = quidRev7) (hlow : u.timeLow ≠ 0) :
    quidValidate (some u) = (.ok, some { u with version }) := by
  rcases hversion with rfl | rfl
  · exact versionRev4_carries_validate h hlow
  · exact versionRev7_carries_validate h hlow

theorem quidValidate_zero (h : u.timeLow = 0) :
    quidValidate (some u) = (.error, some u) := by
  simp [quidValidate, h]

theorem quidCreate_validate {p p' q : Process} {prior : Cuuid} {flag subc : UInt8}
    {tag : Option TagText}
    (hcall : quidCreate p (some prior) flag subc tag = .ok ((.ok, some u), p'))
    (htime : getCurrentTime p = .ok (timestamp, q)) :
    quidValidate (some u) = (.ok, some u) ↔ timestamp &&& 0xffffffff ≠ 0 := by
  obtain ⟨hversion, hcarries⟩ := quidCreate_carries_at hcall htime
  constructor
  · intro hvalid hzero
    rw [quidValidate_zero (hcarries.timeLow.trans hzero)] at hvalid
    cases hvalid
  · intro hlow
    have hrevision : u.version = quidRev4 ∨ u.version = quidRev7 :=
      hversion ▸ createdVersion_cases prior
    exact hcarries.validate hrevision (by rwa [hcarries.timeLow])

end Quid
