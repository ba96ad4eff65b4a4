import Quid.Util
import Quid.Format.Header
import Quid.Foundation.JoinedNumeral
import Quid.Text.Print

/-!
# The output of the utility

The bracketed output is the library's text form, because every created
identifier has a lower time word of 32 bits and a marked clock sequence.  The
plain outputs write the eleven fields without padding or separators, so two
identifiers may be written alike when a digit passes from one field to the next.
-/

namespace Quid

open Quid.Foundation.CString
open Quid.Foundation.Numeral

def Created (u : Cuuid) : Prop :=
  ∃ p p' prior flag subc tag,
    quidCreate p (some prior) flag subc tag = .ok ((.ok, some u), p')

variable {u v : Cuuid}

theorem marked_toNat (field : UInt8) : 0x80 ≤ (field ||| quidMagic).toNat := by
  rw [UInt8.toNat_or]
  exact Nat.right_le_or

theorem Created.facts (h : Created u) :
    u.timeLow.toNat < 2 ^ 32 ∧ 0x80 ≤ u.clockSeqHiAndReserved.toNat := by
  obtain ⟨p, p', prior, flag, subc, tag, hcall⟩ := h
  obtain ⟨_, _, _, -, hanswer, hshape⟩ := quidCreate_shape hcall
  cases hanswer
  rcases hshape with ⟨-, _, _, _, _, rfl⟩ | ⟨-, _, rfl⟩
  · exact ⟨rev4Identifier_carries.timeLow_lt, marked_toNat _⟩
  · exact ⟨rev7Identifier_carries.timeLow_lt, marked_toNat _⟩

/-! ## The bracketed output -/

theorem toUInt32_toNat {word : UInt64} (h : word.toNat < 2 ^ 32) :
    word.toUInt32.toNat = word.toNat := by
  rw [UInt64.toNat_toUInt32, Nat.mod_eq_of_lt h]

theorem quidPrintFileHexBracket_eq (hlow : u.timeLow.toNat < 2 ^ 32)
    (hclock : 0x10 ≤ u.clockSeqHiAndReserved.toNat) (fp : Bytes) :
    quidPrintFileHexBracket fp u = fp ++ quidText u ++ [chr '\n'] := by
  have hpadded : hexText 1 u.clockSeqHiAndReserved.toNat =
      hexText 2 u.clockSeqHiAndReserved.toNat := by
    have hdigits : digits 16 2 u.clockSeqHiAndReserved.toNat =
        digits 16 1 u.clockSeqHiAndReserved.toNat := digits_succ (by decide) (by simpa using hclock)
    rw [hexText, hexText, hdigits]
  delta quidText
  simp only [quidPrintFileHexBracket, fprintf, toUInt32_toNat hlow, hpadded, List.append_assoc]
  rfl

theorem hexBracket_eq_tostring (h : Created u) (fp dst : Bytes) :
    ∃ text, quidTostring (some u) (some dst) =
        (.ok, some (text ++ 0 :: dst.drop (quidFullLen + 1))) ∧ 0 ∉ text ∧
      quidPrintFileHexBracket fp u = fp ++ text ++ [chr '\n'] := by
  obtain ⟨hlow, hclock⟩ := h.facts
  have hhex := wireDigits_hex hlow
  refine ⟨_, quidTostring_eq hlow dst, hhex.zero_notMem_canonicalText, ?_⟩
  rw [quidPrintFileHexBracket_eq hlow (by omega), quidText_eq hlow]

theorem created_stillRev4 (flag subc : UInt8) : Created (stillRev4 flag subc) := by
  obtain ⟨p', hcall⟩ := stillStart_creates_rev4 flag subc
  exact ⟨_, _, _, _, _, _, hcall⟩

theorem hexBracket_eq_tostring_still :
    ∃ text, quidTostring (some (stillRev4 1 2)) (some (List.replicate 39 0)) =
        (.ok, some (text ++ 0 :: (List.replicate 39 0).drop (quidFullLen + 1))) ∧ 0 ∉ text ∧
      quidPrintFileHexBracket [] (stillRev4 1 2) = [] ++ text ++ [chr '\n'] :=
  hexBracket_eq_tostring (created_stillRev4 1 2) [] (List.replicate 39 0)

/-! ## The plain outputs -/

def plainFields (u : Cuuid) : List Nat :=
  [u.timeLow.toNat, u.timeMid.toNat, u.timeHiAndVersion.toNat, u.clockSeqHiAndReserved.toNat,
    u.clockSeqLow.toNat, (u.node.get 0).toNat, (u.node.get 1).toNat, (u.node.get 2).toNat,
    (u.node.get 3).toNat, (u.node.get 4).toNat, (u.node.get 5).toNat]

def plainLine (base : Nat) (u : Cuuid) : Bytes :=
  (joined base (plainFields u)).map hexDigit ++ [chr '\n']

theorem quidPrintFileHex_eq (hlow : u.timeLow.toNat < 2 ^ 32) (fp : Bytes) :
    quidPrintFileHex fp u = fp ++ plainLine 16 u := by
  simp only [quidPrintFileHex, fprintf, toUInt32_toNat hlow, hexText, plainLine, joined,
    plainFields, List.flatMap_cons, List.flatMap_nil, List.map_append, List.append_assoc]
  rfl

theorem quidPrintFileDec_eq (hlow : u.timeLow.toNat < 2 ^ 32) (fp : Bytes) :
    quidPrintFileDec fp u = fp ++ plainLine 10 u := by
  have hnat : ∀ n : Nat, decText n = (digits 10 1 n).map hexDigit := by
    intro n
    simp [decText]
  have hlong : u.timeLow.toInt64.toInt = u.timeLow.toNat :=
    BitVec.toInt_eq_toNat_of_lt (by
      change 2 * u.timeLow.toNat < 2 ^ 64
      omega)
  simp only [quidPrintFileDec, fprintf, hlong, hnat, plainLine, joined, plainFields,
    List.flatMap_cons, List.flatMap_nil, List.map_append, List.append_assoc]
  rfl

theorem map_hexDigit_injective {first second : List Nat} (hfirst : ∀ d ∈ first, d < 16)
    (hsecond : ∀ d ∈ second, d < 16) (h : first.map hexDigit = second.map hexDigit) :
    first = second := by
  have hback : ∀ ds : List Nat, (∀ d ∈ ds, d < 16) → (ds.map hexDigit).map hexValue = ds := by
    intro ds hds
    rw [List.map_map]
    exact (List.map_congr_left fun d hd => hexValue_hexDigit (hds d hd)).trans (List.map_id _)
  rw [← hback first hfirst, h, hback second hsecond]

theorem plainLine_ne {base : Nat} (hlow : 1 < base) (hhigh : base ≤ 16)
    (hne : plainFields u ≠ plainFields v)
    (htold : ToldApart base (plainFields u) (plainFields v)) :
    plainLine base u ≠ plainLine base v := by
  have hlt : ∀ ns, ∀ d ∈ joined base ns, d < 16 :=
    fun ns d hd => (joined_lt hlow ns d hd).trans_le hhigh
  intro hline
  rw [plainLine, plainLine, List.append_cancel_right_eq] at hline
  exact joined_ne hlow hne htold (map_hexDigit_injective (hlt _) (hlt _) hline)

theorem plainFields_ne (h : quidCmp (some u) (some v) = .error) :
    plainFields u ≠ plainFields v := by
  intro hfields
  simp only [plainFields, List.cons.injEq, UInt64.toNat_inj, UInt16.toNat_inj, UInt8.toNat_inj]
    at hfields
  obtain ⟨hlow, hmid, htop, hhigh, hseq, h₀, h₁, h₂, h₃, h₄, h₅, -⟩ := hfields
  exact quidCmp_some_error_iff.mp h
    ⟨hlow, hmid, htop, hhigh, hseq, node_ext_iff.mpr ⟨h₀, h₁, h₂, h₃, h₄, h₅⟩⟩

/--
Each plain output tells two different identifiers apart when no digit can pass
from a field of theirs to the next, in particular when their fields are equally wide.
-/
theorem plainOutputs_identify (hu : Created u) (hv : Created v)
    (hcmp : quidCmp (some u) (some v) = .error) (fp : Bytes) :
    (ToldApart 16 (plainFields u) (plainFields v) →
      quidPrintFileHex fp u ≠ quidPrintFileHex fp v) ∧
    (ToldApart 10 (plainFields u) (plainFields v) →
      quidPrintFileDec fp u ≠ quidPrintFileDec fp v) := by
  have hne := plainFields_ne hcmp
  constructor
  · intro htold
    rw [quidPrintFileHex_eq hu.facts.1, quidPrintFileHex_eq hv.facts.1, ne_eq,
      List.append_cancel_left_eq]
    exact plainLine_ne (by decide) (by decide) hne htold
  · intro htold
    rw [quidPrintFileDec_eq hu.facts.1, quidPrintFileDec_eq hv.facts.1, ne_eq,
      List.append_cancel_left_eq]
    exact plainLine_ne (by decide) (by decide) hne htold

theorem plainOutputs_identify_still :
    quidPrintFileHex [] (stillRev4 1 2) ≠ quidPrintFileHex [] (stillRev4 1 3) ∧
      quidPrintFileDec [] (stillRev4 1 2) ≠ quidPrintFileDec [] (stillRev4 1 3) := by
  obtain ⟨hhex, hdec⟩ :=
    plainOutputs_identify (created_stillRev4 1 2) (created_stillRev4 1 3) (by decide) []
  exact ⟨hhex (.widths (by decide)), hdec (.widths (by decide))⟩

/-- Flag and category trade a digit: `1` and `11` are written like `11` and `1`. -/
theorem traded_digits_collide :
    (Created (stillRev4 0x1 0x11) ∧ Created (stillRev4 0x11 0x1) ∧
      quidCmp (some (stillRev4 0x1 0x11)) (some (stillRev4 0x11 0x1)) = .error ∧
      quidPrintFileHex [] (stillRev4 0x1 0x11) = quidPrintFileHex [] (stillRev4 0x11 0x1)) ∧
    Created (stillRev4 1 11) ∧ Created (stillRev4 11 1) ∧
      quidCmp (some (stillRev4 1 11)) (some (stillRev4 11 1)) = .error ∧
      quidPrintFileDec [] (stillRev4 1 11) = quidPrintFileDec [] (stillRev4 11 1) := by
  refine ⟨⟨created_stillRev4 _ _, created_stillRev4 _ _, by decide, ?_⟩,
    created_stillRev4 _ _, created_stillRev4 _ _, by decide, ?_⟩
  · decide
  · decide

end Quid
