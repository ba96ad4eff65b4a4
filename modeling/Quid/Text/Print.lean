import Quid.Text.Parse

/-!
# The canonical text

`quid_tostring` prints the fields in the order and at the widths at which
`quid_parse` reads them.  So the printed text holds, between its braces and
dashes, the digits the structure was decoded from, and parsing it decodes the
structure again.
-/

namespace Quid

open Quid.Foundation.CString
open Quid.Foundation.Window

variable {s text buffer junk : Bytes} {u u' v prior : Cuuid}

/-! ## The canonical shape -/

/-- The shape `{8-4-4-4-12}` of a text of 32 characters. -/
def canonicalText (text : Bytes) : Bytes :=
  [chr '{'] ++ window text 0 8 ++ [chr '-'] ++ window text 8 4 ++ [chr '-'] ++
    window text 12 4 ++ [chr '-'] ++ window text 16 4 ++ [chr '-'] ++ window text 20 12 ++
    [chr '}']

theorem length_canonicalText (h : text.length = quidLen) :
    (canonicalText text).length = quidFullLen := by
  have hwindow : ∀ start count, start + count ≤ 32 →
      (window text start count).length = count :=
    fun start count hwithin => length_window (hwithin.trans_eq h.symm)
  simp (disch := decide) [canonicalText, hwindow, quidLen, quidFullLen]

theorem windows_join (h : text.length = quidLen) :
    window text 0 8 ++ window text 8 4 ++ window text 12 4 ++ window text 16 4 ++
      window text 20 12 = text := by
  have hgroups := flatten_cut text 0 [8, 4, 4, 4, 12]
  have hwhole : window text 0 [8, 4, 4, 4, 12].sum = text :=
    (congrArg (window text 0) h.symm).trans (window_whole text)
  rw [hwhole] at hgroups
  simpa [cut] using hgroups

theorem isSpecial_digit {c : UInt8} (h : isxdigit c = true) : isSpecial c = false := by
  obtain ⟨-, -, hdash, -, -, -, hopen, hclose, hspace, -⟩ := isxdigit_facts c h
  simp [isSpecial, hdash, hopen, hclose, hspace]

theorem HexText.stripped_canonicalText (h : HexText text) :
    stripped (canonicalText text) = text := by
  have hkeep : ∀ start count,
      (window text start count).filter (fun c => !isSpecial c) = window text start count := by
    intro start count
    refine List.filter_eq_self.mpr fun c hc => ?_
    rw [isSpecial_digit (h.digits_window start count c hc)]
    rfl
  have hdash : [chr '-'].filter (fun c => !isSpecial c) = [] := rfl
  have hopen : [chr '{'].filter (fun c => !isSpecial c) = [] := rfl
  have hclose : [chr '}'].filter (fun c => !isSpecial c) = [] := rfl
  simp only [stripped, canonicalText, List.filter_append, hkeep, hdash, hopen, hclose,
    List.nil_append, List.append_nil]
  exact windows_join h.length

theorem HexText.zero_notMem_canonicalText (h : HexText text) : 0 ∉ canonicalText text := by
  have hwindow : ∀ start count, 0 ∉ window text start count :=
    fun start count hzero => isxdigit_ne_zero (h.digits_window start count 0 hzero) rfl
  have hmarks : (0 : UInt8) ≠ chr '{' ∧ (0 : UInt8) ≠ chr '-' ∧ (0 : UInt8) ≠ chr '}' := by decide
  simp [canonicalText, hwindow, hmarks]

/-! ## The printed digits -/

def wireFields (u : Cuuid) : List Bytes :=
  [hexText 8 u.timeLow.toNat, hexText 4 u.timeMid.toNat, hexText 4 u.timeHiAndVersion.toNat,
    hexText 2 u.clockSeqHiAndReserved.toNat, hexText 2 u.clockSeqLow.toNat,
    hexText 2 (u.node.get 0).toNat, hexText 2 (u.node.get 1).toNat, hexText 2 (u.node.get 2).toNat,
    hexText 2 (u.node.get 3).toNat, hexText 2 (u.node.get 4).toNat, hexText 2 (u.node.get 5).toNat]

def wireDigits (u : Cuuid) : Bytes := (wireFields u).flatten

def fieldWidths : List Nat := [8, 4, 4, 2, 2, 2, 2, 2, 2, 2, 2]

theorem map_length_wireFields (hlow : u.timeLow.toNat < 2 ^ 32) :
    (wireFields u).map List.length = fieldWidths := by
  have hlong : (hexText 8 u.timeLow.toNat).length = 8 := length_hexText hlow
  have hword : ∀ word : UInt16, (hexText 4 word.toNat).length = 4 :=
    fun word => length_hexText word.toNat_lt
  have hbyte : ∀ byte : UInt8, (hexText 2 byte.toNat).length = 2 :=
    fun byte => length_hexText byte.toNat_lt
  simp [wireFields, fieldWidths, hlong, hword, hbyte]

theorem window_wireDigits (hlow : u.timeLow.toNat < 2 ^ 32) (i k : Nat) :
    window (wireDigits u) (fieldWidths.take i).sum ((fieldWidths.drop i).take k).sum =
      (((wireFields u).drop i).take k).flatten := by
  rw [← map_length_wireFields hlow]
  exact window_flatten (wireFields u) i k

theorem wireDigits_hex (hlow : u.timeLow.toNat < 2 ^ 32) : HexText (wireDigits u) := by
  refine ⟨?_, fun c hc => ?_⟩
  · rw [wireDigits, List.length_flatten, map_length_wireFields hlow]
    rfl
  · obtain ⟨field, hfield, hmem⟩ := List.mem_flatten.mp hc
    simp only [wireFields, List.mem_cons, List.not_mem_nil, or_false] at hfield
    rcases hfield with rfl | rfl | rfl | rfl | rfl | rfl | rfl | rfl | rfl | rfl | rfl <;>
      exact isxdigit_hexText _ _ c hmem

theorem quidText_eq (hlow : u.timeLow.toNat < 2 ^ 32) :
    quidText u = canonicalText (wireDigits u) := by
  have hfields := window_wireDigits hlow
  have htimeLow : window (wireDigits u) 0 8 = _ := hfields 0 1
  have htimeMid : window (wireDigits u) 8 4 = _ := hfields 1 1
  have htimeHi : window (wireDigits u) 12 4 = _ := hfields 2 1
  have hclock : window (wireDigits u) 16 4 = _ := hfields 3 2
  have hnode : window (wireDigits u) 20 12 = _ := hfields 5 6
  rw [canonicalText, htimeLow, htimeMid, htimeHi, hclock, hnode]
  -- `delta`: the equation lemma of so long a concatenation is slow to derive
  delta quidText
  simp [wireFields]

theorem window_field (hlow : u.timeLow.toNat < 2 ^ 32) (i : Nat) {start count : Nat}
    {field : Bytes} (hstart : (fieldWidths.take i).sum = start)
    (hcount : ((fieldWidths.drop i).take 1).sum = count)
    (hfield : ((wireFields u).drop i).take 1 = [field]) :
    window (wireDigits u) start count = field := by
  subst hstart hcount
  rw [window_wireDigits hlow, hfield, List.flatten_singleton]

theorem window_nodeByte (hlow : u.timeLow.toNat < 2 ^ 32) (i : Fin 6) :
    window (wireDigits u) (20 + i.val * 2) 2 = hexText 2 (u.node.get i).toNat := by
  have hstart : (fieldWidths.take (5 + i.val)).sum = 20 + i.val * 2 := by
    revert i
    decide
  have hcount : ((fieldWidths.drop (5 + i.val)).take 1).sum = 2 := by
    revert i
    decide
  exact window_field hlow (5 + i.val) hstart hcount (by fin_cases i <;> rfl)

theorem decoded_wireDigits (hlow : u.timeLow.toNat < 2 ^ 32) (prior : Cuuid) :
    decoded (wireDigits u) prior = { u with tag := prior.tag, version := prior.version } := by
  have htimeLow : window (wireDigits u) 0 8 = _ := window_field hlow 0 rfl rfl rfl
  have htimeMid : window (wireDigits u) 8 4 = _ := window_field hlow 1 rfl rfl rfl
  have htimeHi : window (wireDigits u) 12 4 = _ := window_field hlow 2 rfl rfl rfl
  have hclockHi : window (wireDigits u) 16 2 = _ := window_field hlow 3 rfl rfl rfl
  have hclockLow : window (wireDigits u) 18 2 = _ := window_field hlow 4 rfl rfl rfl
  have hnode : Vector.ofFn (fun i : Fin 6 => u.node.get i) = u.node := by
    refine node_ext_iff.mpr ?_
    simp
  simp only [decoded, htimeLow, htimeMid, htimeHi, hclockHi, hclockLow,
    window_nodeByte hlow, hexNumber_hexText, uint64_ofInt_self, uint16_ofInt_self,
    uint8_ofInt_self, hnode]

theorem HexText.timeLow_lt (h : HexText text) (prior : Cuuid) :
    (decoded text prior).timeLow.toNat < 2 ^ 32 := by
  rw [h.timeLow_toNat]
  exact h.hexNumber_window_lt (by decide)

theorem HexText.hexText_window (h : HexText text) {start count : Nat}
    (hwithin : start + count ≤ 32) :
    hexText count (hexNumber (window text start count)) =
      window (text.map tolower) start count := by
  have hprint := hexText_hexNumber (h.digits_window start count)
  rw [h.length_window hwithin] at hprint
  rw [hprint, map_window]

theorem wireDigits_decoded (h : HexText text) (prior : Cuuid) :
    wireDigits (decoded text prior) = text.map tolower := by
  have hlong : hexText 8 (decoded text prior).timeLow.toNat = window (text.map tolower) 0 8 := by
    rw [h.timeLow_toNat, h.hexText_window (by decide)]
  have hword : ∀ start, start + 4 ≤ 32 →
      hexText 4 (UInt16.ofInt (hexNumber (window text start 4))).toNat =
        window (text.map tolower) start 4 := by
    intro start hwithin
    rw [uint16_ofInt_toNat (h.hexNumber_window_lt hwithin), h.hexText_window hwithin]
  have hbyte : ∀ start, start + 2 ≤ 32 →
      hexText 2 (UInt8.ofInt (hexNumber (window text start 2))).toNat =
        window (text.map tolower) start 2 := by
    intro start hwithin
    rw [uint8_ofInt_toNat (h.hexNumber_window_lt hwithin), h.hexText_window hwithin]
  have hfields : wireFields (decoded text prior) = cut (text.map tolower) 0 fieldWidths := by
    rw [wireFields, hlong]
    simp [decoded, cut, fieldWidths, hword, hbyte]
  have hlength : (text.map tolower).length = fieldWidths.sum := by
    rw [List.length_map, h.length]
    rfl
  rw [wireDigits, hfields, flatten_cut, ← hlength, window_whole]

/-! ## Printing -/

theorem quidTostring_eq (hlow : u.timeLow.toNat < 2 ^ 32) (dst : Bytes) :
    quidTostring (some u) (some dst) =
      (.ok, some (canonicalText (wireDigits u) ++ 0 :: dst.drop (quidFullLen + 1))) := by
  have hlength := length_canonicalText (wireDigits_hex hlow).length
  have htake : (canonicalText (wireDigits u)).take quidFullLen = canonicalText (wireDigits u) :=
    List.take_of_length_le hlength.le
  simp only [quidTostring, snprintf, quidText_eq hlow, Nat.add_sub_cancel, htake]
  rw [memcpy_full rfl, List.length_append, hlength, List.append_assoc]
  rfl

/-! ## Parsing what was printed -/

theorem quidValidate_congr (hvalid : quidValidate (some u) = (.ok, some u)) (tag : TagText)
    (version : UInt8) :
    quidValidate (some { u with tag, version }) = (.ok, some { u with tag }) := by
  obtain ⟨hlow, revision, hrevision, hu⟩ := quidValidate_eq_ok.mp hvalid
  have hversion : u.version = revision := congrArg Cuuid.version hu
  exact quidValidate_eq_ok.mpr ⟨hlow, revision, hrevision, by rw [← hversion]⟩

/-- A valid identifier is parsed back from its text, except for the tag, which the text lacks. -/
theorem quidParse_canonicalText (hlow : u.timeLow.toNat < 2 ^ 32)
    (hvalid : quidValidate (some u) = (.ok, some u)) (junk : Bytes) (prior : Cuuid) :
    ∃ buffer, quidParse (some (canonicalText (wireDigits u) ++ 0 :: junk)) (some prior) =
      (.ok, some buffer, some { u with tag := prior.tag }) := by
  have hhex := wireDigits_hex hlow
  obtain ⟨hparse, -⟩ := quidParse_eq hhex.zero_notMem_canonicalText junk prior
  rw [hhex.stripped_canonicalText, decoded_wireDigits hlow, quidValidate_congr hvalid] at hparse
  exact ⟨_, hparse hhex⟩

theorem quidValidate_again (h : quidValidate (some u) = (.ok, some v)) :
    quidValidate (some v) = (.ok, some v) := by
  obtain ⟨hlow, version, hversion, rfl⟩ := quidValidate_eq_ok.mp h
  exact quidValidate_eq_ok.mpr ⟨hlow, version, hversion, rfl⟩

/-! ## The canonical form of an accepted string -/

def printedText (s : Bytes) : Bytes := canonicalText ((stripped s).map tolower)

variable {out : Option Bytes}

theorem accepts_of_quidParse (hs : 0 ∉ s)
    (hparse : quidParse (some (s ++ 0 :: junk)) (some prior) = (.ok, out, some u)) :
    Accepts (stripped s) ∧
      u = { decoded (stripped s) prior with version := textVersion (stripped s) } := by
  have haccepts : Accepts (stripped s) := by
    by_contra hnot
    obtain ⟨u', herror⟩ := quidParse_rejects hs hnot junk prior
    rw [hparse] at herror
    cases herror
  have hok := quidParse_accepts hs haccepts junk prior
  rw [hparse] at hok
  simp only [Prod.mk.injEq, Option.some.injEq] at hok
  exact ⟨haccepts, hok.2.2⟩

theorem parsed_facts (hs : 0 ∉ s)
    (hparse : quidParse (some (s ++ 0 :: junk)) (some prior) = (.ok, out, some u)) :
    HexText (stripped s) ∧ u.timeLow.toNat < 2 ^ 32 ∧
      wireDigits u = (stripped s).map tolower ∧ quidValidate (some u) = (.ok, some u) := by
  obtain ⟨haccepts, hu⟩ := accepts_of_quidParse hs hparse
  have hvalid := quidValidate_decoded_accepts haccepts prior
  rw [← hu] at hvalid
  refine ⟨haccepts.hex, ?_, ?_, quidValidate_again hvalid⟩
  · rw [hu]
    exact haccepts.hex.timeLow_lt prior
  · rw [hu]
    exact wireDigits_decoded haccepts.hex prior

theorem quidTostring_parsed (hs : 0 ∉ s)
    (hparse : quidParse (some (s ++ 0 :: junk)) (some prior) = (.ok, out, some u))
    (dst : Bytes) : quidTostring (some u) (some dst) =
      (.ok, some (printedText s ++ 0 :: dst.drop (quidFullLen + 1))) := by
  obtain ⟨-, hlow, hdigits, -⟩ := parsed_facts hs hparse
  rw [quidTostring_eq hlow, hdigits, printedText]

theorem HexText.map_tolower (h : HexText text) : HexText (text.map tolower) := by
  refine ⟨(List.length_map _).trans h.length, fun c hc => ?_⟩
  obtain ⟨digit, hdigit, rfl⟩ := List.mem_map.mp hc
  obtain ⟨-, -, -, -, -, -, -, -, -, -, -, hlower⟩ := isxdigit_facts digit (h.digits digit hdigit)
  exact hlower

structure CanonicalPrint (s : Bytes) (u : Cuuid) : Prop where
  hex : HexText (stripped s)
  written : ∀ dst, quidTostring (some u) (some dst) =
    (.ok, some (printedText s ++ 0 :: dst.drop (quidFullLen + 1)))
  length : (printedText s).length = 38
  unterminated : 0 ∉ printedText s
  digits : stripped (printedText s) = (stripped s).map tolower
  same : ∀ s' junk prior out u', 0 ∉ s' →
    quidParse (some (s' ++ 0 :: junk)) (some prior) = (.ok, out, some u') →
    (stripped s').map tolower = (stripped s).map tolower →
    ∀ dst, quidTostring (some u') (some dst) = quidTostring (some u) (some dst)
  again : ∀ junk prior, ∃ out,
    quidParse (some (printedText s ++ 0 :: junk)) (some prior) =
      (.ok, out, some { u with tag := prior.tag })

/--
Every accepted string is printed in its canonical form, which depends only on its
digits without their case, and which is parsed to the same structure.  The tag is
not printed: it is what the caller's structure held.
-/
theorem quidParse_canonicalPrint (hs : 0 ∉ s)
    (hparse : quidParse (some (s ++ 0 :: junk)) (some prior) = (.ok, out, some u)) :
    CanonicalPrint s u ∧ u.tag = prior.tag := by
  have hwritten := quidTostring_parsed hs hparse
  obtain ⟨hhex, hlow, hdigits, hvalid⟩ := parsed_facts hs hparse
  refine ⟨⟨hhex, hwritten, ?_, ?_, ?_, ?_, ?_⟩, ?_⟩
  · exact length_canonicalText hhex.map_tolower.length
  · exact hhex.map_tolower.zero_notMem_canonicalText
  · exact hhex.map_tolower.stripped_canonicalText
  · intro s' junk' prior' out' u' hs' hparse' hsame dst
    rw [quidTostring_parsed hs' hparse', hwritten, printedText, hsame, printedText]
  · intro junk' prior'
    obtain ⟨buffer, hback⟩ := quidParse_canonicalText hlow hvalid junk' prior'
    rw [hdigits] at hback
    exact ⟨some buffer, hback⟩
  · rw [(accepts_of_quidParse hs hparse).2]
    rfl

def plainIdentifier : Cuuid where
  timeLow := 0x11111111
  timeMid := 0x1111
  timeHiAndVersion := 0xb111
  clockSeqHiAndReserved := 0x11
  clockSeqLow := 0x11
  node := Vector.replicate 6 0x11
  tag := Vector.replicate 3 0
  version := quidRev7

theorem quidParse_canonicalPrint_plainDigits :
    CanonicalPrint plainDigits plainIdentifier ∧ plainIdentifier.tag = Cuuid.zero.tag :=
  quidParse_canonicalPrint (by decide)
    (rfl : quidParse (some (plainDigits ++ 0 :: [])) (some Cuuid.zero) =
      (.ok, some (plainDigits ++ [0]), some plainIdentifier))

end Quid
