import Quid.Format.Metadata
import Quid.Format.Validate
import Quid.Text.Print

/-!
# Text transport of created identifiers

The text of an identifier holds its wire fields, and everything else that can be
asked of it follows from them: the version from the top time word, and the REV7
metadata from the node once the key and IV are derived from the header again.
-/

namespace Quid

open Quid.Foundation
open Quid.Foundation.CString

variable {p p' q : Process} {prior u : Cuuid} {flag subc : UInt8} {tag : Option TagText}
  {timestamp : UInt64} {clockseq first last : UInt16} {node : CuuidNode}

/-! ## Transport -/

structure Transported (u v : Cuuid) (flag subc : UInt8) : Prop where
  wire : v.SameWire u
  version : v.version = u.version
  flag : ∀ ndebug, quidFlag ndebug (some v) = .ok flag
  category : ∀ ndebug, quidCategory ndebug (some v) = .ok subc
  tag : ∀ ndebug, quidTag ndebug (some v) = quidTag ndebug (some u)
  timestamp : ∀ (Tm : Type) (gmtime : Int → Option Tm),
    quidTimestamp gmtime (some v) = quidTimestamp gmtime (some u)
  microtime : quidMicrotime (some v) = quidMicrotime (some u)

/--
Writing a created identifier and parsing the text gives an identifier with the
same fields, version, metadata and time.
-/
theorem quidCreate_transported
    (hcall : quidCreate p (some prior) flag subc tag = .ok ((.ok, some u), p'))
    (htime : getCurrentTime p = .ok (timestamp, q)) (hlow : timestamp &&& 0xffffffff ≠ 0)
    (dst : Bytes) (again : Cuuid) :
    ∃ text out v, quidTostring (some u) (some dst) = (.ok, some text) ∧
      quidParse (some text) (some again) = (.ok, out, some v) ∧ Transported u v flag subc := by
  have hwidth := (quidCreate_carries_at hcall htime).2.timeLow_lt
  have hvalid := (quidCreate_validate hcall htime).mpr hlow
  have hmetadata := quidCreate_metadata hcall htime hlow
  obtain ⟨out, hparse⟩ := quidParse_canonicalText hwidth hvalid (dst.drop (quidFullLen + 1)) again
  refine ⟨_, some out, { u with tag := again.tag }, quidTostring_eq hwidth dst, hparse, ?_⟩
  -- no function below reads the `tag` field, which is all the text lacks
  exact {
    wire := ⟨rfl, rfl, rfl, rfl, rfl, rfl⟩
    version := rfl
    flag := fun ndebug => (hmetadata ndebug).1
    category := fun ndebug => (hmetadata ndebug).2
    tag := fun _ => rfl
    timestamp := fun _ _ => rfl
    microtime := rfl }

theorem quidCreate_transported_still :
    ∃ text out v,
      quidTostring (some (rev7Identifier 17000000000000000 0 3 4 none))
          (some (List.replicate 39 0)) = (.ok, some text) ∧
        quidParse (some text) (some Cuuid.zero) = (.ok, out, some v) ∧
        Transported (rev7Identifier 17000000000000000 0 3 4 none) v 3 4 := by
  obtain ⟨q, p', htime, -, -, -, hcall⟩ := stillStart_creates 3 4 none
  exact quidCreate_transported hcall htime (by decide) (List.replicate 39 0) Cuuid.zero

end Quid
