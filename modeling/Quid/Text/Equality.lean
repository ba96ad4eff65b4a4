import Quid.Format.Validate
import Quid.Text.Print

/-!
# Equality of identifiers

`quid_cmp` compares the wire fields and leaves the `tag` and `version` fields
out.  On the identifiers a program can hold, created or parsed, the version
follows from the top time word, so nothing that can be read off two of them tells
them apart when `quid_cmp` does not.
-/

namespace Quid

open Quid.Foundation.CString

inductive Obtained (u : Cuuid) : Prop where
  | created {p p' : Process} {prior : Cuuid} {flag subc : UInt8} {tag : Option TagText}
      (hcall : quidCreate p (some prior) flag subc tag = .ok ((.ok, some u), p'))
      (hlow : u.timeLow ≠ 0)
  | parsed {s junk : Bytes} {prior : Cuuid} {out : Option Bytes} (hs : 0 ∉ s)
      (hparse : quidParse (some (s ++ 0 :: junk)) (some prior) = (.ok, out, some u))

variable {u v : Cuuid}

theorem Obtained.facts (h : Obtained u) :
    u.timeLow.toNat < 2 ^ 32 ∧ quidValidate (some u) = (.ok, some u) := by
  cases h with
  | @created p p' prior flag subc tag hcall hlow =>
      obtain ⟨timestamp, q, _, -, hanswer, hversion, hcarries⟩ := quidCreate_carries hcall
      cases hanswer
      have hrevision : u.version = quidRev4 ∨ u.version = quidRev7 :=
        hversion ▸ createdVersion_cases prior
      exact ⟨hcarries.timeLow_lt, hcarries.validate hrevision hlow⟩
  | parsed hs hparse =>
      obtain ⟨-, hlow, -, hvalid⟩ := parsed_facts hs hparse
      exact ⟨hlow, hvalid⟩

/-! ## Printing -/

theorem sameWire_iff_wireDigits (hu : u.timeLow.toNat < 2 ^ 32) (hv : v.timeLow.toNat < 2 ^ 32) :
    u.SameWire v ↔ wireDigits u = wireDigits v := by
  constructor
  · rintro ⟨hlow, hmid, htop, hhigh, hseq, hnode⟩
    simp only [wireDigits, wireFields, hlow, hmid, htop, hhigh, hseq, hnode]
  · intro hdigits
    have hdecoded : decoded (wireDigits u) Cuuid.zero = decoded (wireDigits v) Cuuid.zero := by
      rw [hdigits]
    rw [decoded_wireDigits hu, decoded_wireDigits hv] at hdecoded
    simp only [Cuuid.mk.injEq] at hdecoded
    obtain ⟨hlow, hmid, htop, hhigh, hseq, hnode, -⟩ := hdecoded
    exact ⟨hlow, hmid, htop, hhigh, hseq, hnode⟩

theorem quidTostring_eq_iff (hu : u.timeLow.toNat < 2 ^ 32) (hv : v.timeLow.toNat < 2 ^ 32)
    (dst : Bytes) :
    quidTostring (some u) (some dst) = quidTostring (some v) (some dst) ↔
      wireDigits u = wireDigits v := by
  rw [quidTostring_eq hu, quidTostring_eq hv]
  constructor
  · intro h
    simp only [Prod.mk.injEq, true_and, Option.some.injEq, List.append_cancel_right_eq] at h
    have hstripped := congrArg stripped h
    rwa [(wireDigits_hex hu).stripped_canonicalText,
      (wireDigits_hex hv).stripped_canonicalText] at hstripped
  · intro h
    rw [h]

/-! ## Reading -/

theorem Cuuid.SameWire.eq_of_valid (h : u.SameWire v) (hu : quidValidate (some u) = (.ok, some u))
    (hv : quidValidate (some v) = (.ok, some v)) : u = { v with tag := u.tag } := by
  obtain ⟨-, version, hrevision, hself⟩ := quidValidate_eq_ok.mp hu
  obtain ⟨-, version', hrevision', hself'⟩ := quidValidate_eq_ok.mp hv
  rw [h.timeHiAndVersion, hrevision'] at hrevision
  cases hrevision
  have hversion : u.version = v.version := by
    rw [congrArg Cuuid.version hself, congrArg Cuuid.version hself']
  obtain ⟨hlow, hmid, htop, hhigh, hseq, hnode⟩ := h
  cases u
  cases v
  simp only at hlow hmid htop hhigh hseq hnode hversion
  simp only [hlow, hmid, htop, hhigh, hseq, hnode, hversion]

structure SameReadings (u v : Cuuid) : Prop where
  flag : ∀ ndebug, quidFlag ndebug (some u) = quidFlag ndebug (some v)
  category : ∀ ndebug, quidCategory ndebug (some u) = quidCategory ndebug (some v)
  tag : ∀ ndebug, quidTag ndebug (some u) = quidTag ndebug (some v)
  microtime : quidMicrotime (some u) = quidMicrotime (some v)
  seconds : (quidTimeval u).tvSec = (quidTimeval v).tvSec
  timestamp : ∀ (Tm : Type) (gmtime : Int → Option Tm),
    quidTimestamp gmtime (some u) = quidTimestamp gmtime (some v)

theorem sameReadings_tag (v : Cuuid) (tag : TagText) : SameReadings { v with tag } v where
  flag := fun _ => rfl
  category := fun _ => rfl
  tag := fun _ => rfl
  microtime := rfl
  seconds := rfl
  timestamp := fun _ _ => rfl

/--
On created and parsed identifiers `quid_cmp` is equality: of the printed text,
and of everything that can be read.
-/
theorem quidCmp_obtained (hu : Obtained u) (hv : Obtained v) :
    (∀ dst, quidCmp (some u) (some v) = .ok ↔
      quidTostring (some u) (some dst) = quidTostring (some v) (some dst)) ∧
    (quidCmp (some u) (some v) = .ok → SameReadings u v) := by
  obtain ⟨hlow, hvalid⟩ := hu.facts
  obtain ⟨hlow', hvalid'⟩ := hv.facts
  refine ⟨fun dst => ?_, fun hcmp => ?_⟩
  · rw [quidCmp_some_ok_iff, sameWire_iff_wireDigits hlow hlow', quidTostring_eq_iff hlow hlow']
  · rw [(quidCmp_some_ok_iff.mp hcmp).eq_of_valid hvalid hvalid']
    exact sameReadings_tag v u.tag

theorem quidCmp_obtained_plain :
    let u := rev7Identifier 17000000000000000 0 3 4 none
    (∀ dst, quidCmp (some u) (some plainIdentifier) = .ok ↔
      quidTostring (some u) (some dst) = quidTostring (some plainIdentifier) (some dst)) ∧
    (quidCmp (some u) (some plainIdentifier) = .ok → SameReadings u plainIdentifier) := by
  obtain ⟨q, p', -, -, -, -, hcall⟩ := stillStart_creates 3 4 none
  exact quidCmp_obtained (.created hcall (by decide)) (.parsed (by decide)
    (rfl : quidParse (some (plainDigits ++ 0 :: [])) (some Cuuid.zero) =
      (.ok, some (plainDigits ++ [0]), some plainIdentifier)))

end Quid
