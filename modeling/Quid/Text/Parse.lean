import Quid.Text
import Quid.Foundation.BitField
import Quid.Foundation.Compaction
import Quid.Foundation.Window

/-!
# The language of `quid_parse`

Parsing sees a string through its stripped text only: the characters left when
the separators are gone.  When that text is 32 hexadecimal digits, the scratch
buffers hold one window of it after the other and each `strtol` reads its window
as a numeral, so none of the leniency of `strtol` is reached.
-/

namespace Quid

open Quid.Foundation.BitField
open Quid.Foundation.Compaction
open Quid.Foundation.CString
open Quid.Foundation.Numeral
open Quid.Foundation.Window

def stripped (s : Bytes) : Bytes := s.filter fun c => !isSpecial c

def decoded (text : Bytes) (prior : Cuuid) : Cuuid :=
  { prior with
    timeLow := UInt64.ofInt (hexNumber (window text 0 8))
    timeMid := UInt16.ofInt (hexNumber (window text 8 4))
    timeHiAndVersion := UInt16.ofInt (hexNumber (window text 12 4))
    clockSeqHiAndReserved := UInt8.ofInt (hexNumber (window text 16 2))
    clockSeqLow := UInt8.ofInt (hexNumber (window text 18 2))
    node := Vector.ofFn fun i : Fin 6 =>
      UInt8.ofInt (hexNumber (window text (20 + i.val * 2) 2)) }

structure HexText (text : Bytes) : Prop where
  length : text.length = quidLen
  digits : ∀ c ∈ text, isxdigit c = true

variable {s text tail junk : Bytes} {prior : Cuuid}

/-! ## Stripping -/

theorem stripLoop_eq_compact (fuel : Nat) (s : Bytes) (pr pw : Nat) :
    stripLoop fuel s pr pw = compact 0 isSpecial fuel s pr pw := by
  induction fuel generalizing s pr pw with
  | zero => rfl
  | succ fuel ih => simp only [stripLoop, compact, ih]

/--
The passes of the loop over a terminated buffer: the fuel covers them, no cell
beyond the terminator is written, and the kept characters come first.
-/
theorem stripSpecialChars_passes (hs : 0 ∉ s) (junk : Bytes) :
    ∃ writes left pw gap, Passes 0 isSpecial (s ++ 0 :: junk) 0 0 writes left pw ∧
      (∀ fuel, s.length < fuel → stripLoop fuel (s ++ 0 :: junk) 0 0 = (left, pw)) ∧
      (∀ cell ∈ pw :: writes, cell ≤ s.length) ∧
      (stripped s).length + gap.length = s.length ∧
      stripSpecialChars (s ++ 0 :: junk) = left.set pw 0 ∧
      left.set pw 0 = stripped s ++ 0 :: (gap ++ junk) := by
  obtain ⟨writes, left, pw, gap, hpasses, hcount, hwithin, hcells, hleft⟩ :=
    passes_close 0 isSpecial s junk hs
  have hloop : ∀ fuel, s.length < fuel → stripLoop fuel (s ++ 0 :: junk) 0 0 = (left, pw) := by
    intro fuel hfuel
    rw [stripLoop_eq_compact]
    exact hpasses.compact_eq (hcount ▸ hfuel)
  have hfuel : s.length < (s ++ 0 :: junk).length := by simp
  refine ⟨writes, left, pw, gap, hpasses, hloop, hwithin, hcells, ?_, hleft⟩
  rw [stripSpecialChars, hloop _ hfuel]

theorem stripSpecialChars_eq (hs : 0 ∉ s) (junk : Bytes) :
    ∃ gap, (stripped s).length + gap.length = s.length ∧
      stripSpecialChars (s ++ 0 :: junk) = stripped s ++ 0 :: (gap ++ junk) := by
  obtain ⟨_, left, pw, gap, -, -, -, hcells, hstrip, hleft⟩ := stripSpecialChars_passes hs junk
  exact ⟨gap, hcells, hstrip.trans hleft⟩

theorem zero_notMem_stripped (hs : 0 ∉ s) : 0 ∉ stripped s :=
  fun h => hs (List.mem_of_mem_filter h)

theorem ishex_eq (htext : 0 ∉ text) (tail : Bytes) :
    ishex (text ++ 0 :: tail) = text.all isxdigit := by
  induction text with
  | nil => rfl
  | cons c text ih =>
      have hc : c ≠ 0 := fun h => htext (by simp [h])
      have hrest : 0 ∉ text := fun h => htext (List.mem_cons_of_mem _ h)
      rw [List.cons_append, ishex, if_neg hc, List.all_cons, ih hrest]
      cases isxdigit c <;> rfl

/-! ## Windows -/

theorem HexText.length_window (h : HexText text) {start count : Nat}
    (hwithin : start + count ≤ 32) : (window text start count).length = count := by
  apply Foundation.Window.length_window
  rwa [h.length]

theorem HexText.digits_window (h : HexText text) (start count : Nat) :
    ∀ c ∈ window text start count, isxdigit c = true :=
  fun c hc => h.digits c (mem_of_mem_window hc)

theorem HexText.hexNumber_window_lt (h : HexText text) {start count : Nat}
    (hwithin : start + count ≤ 32) : hexNumber (window text start count) < 16 ^ count := by
  have hlt := hexNumber_lt (h.digits_window start count)
  rwa [h.length_window hwithin] at hlt

theorem HexText.memcpy_window (h : HexText text) (tail buffer : Bytes) (start count : Nat)
    (hbuffer : buffer.drop count = [0]) (hwithin : start + count ≤ 32) :
    memcpy buffer ((text ++ 0 :: tail).drop start) count = window text start count ++ [0] := by
  have hfront : start + count ≤ text.length := by rwa [h.length]
  have hcopy : window (text ++ 0 :: tail) start count = window text start count :=
    window_append_left hfront
  rw [memcpy, hbuffer, ← hcopy, window]

theorem HexText.drop_window (h : HexText text) {start count : Nat}
    (hwithin : start + count ≤ 32) : (window text start count ++ [0]).drop count = [0] :=
  List.drop_left' (h.length_window hwithin)

theorem HexText.strtol16_window (h : HexText text) {start count : Nat} (hcount : count ≤ 15)
    (hwithin : start + count ≤ 32) :
    strtol16 (window text start count ++ [0]) = hexNumber (window text start count) :=
  strtol16_hex (h.digits_window start count) ((h.length_window hwithin).trans_le hcount) []

theorem HexText.decodeNode_window (h : HexText text) (tail : Bytes) (u : Cuuid)
    {start : Nat} (hstart : start + 2 ≤ 32) (i : Fin 6) :
    decodeNode (text ++ 0 :: tail) (u, window text start 2 ++ [0]) i =
      ({ u with
          node := u.node.put i (UInt8.ofInt (hexNumber (window text (20 + i.val * 2) 2))) },
        window text (20 + i.val * 2) 2 ++ [0]) := by
  have hi := i.isLt
  have hcopy := h.memcpy_window tail _ (20 + i.val * 2) 2 (h.drop_window hstart) (by omega)
  have hnumber : strtol16 (window text (20 + i.val * 2) 2 ++ [0]) =
      hexNumber (window text (20 + i.val * 2) 2) := h.strtol16_window (by decide) (by omega)
  simp only [decodeNode, hcopy, hnumber]

theorem HexText.foldl_decodeNode (h : HexText text) (tail : Bytes) (bytes : List (Fin 6))
    (u : Cuuid) {start : Nat} (hstart : start + 2 ≤ 32) :
    (List.foldl (decodeNode (text ++ 0 :: tail)) (u, window text start 2 ++ [0]) bytes).1 =
      { u with
        node := bytes.foldl (fun (node : CuuidNode) (i : Fin 6) => node.put i
          (UInt8.ofInt (hexNumber (window text (20 + i.val * 2) 2)))) u.node } := by
  induction bytes generalizing u start with
  | nil => rfl
  | cons i bytes ih =>
      have hi := i.isLt
      rw [List.foldl_cons, List.foldl_cons, h.decodeNode_window tail u hstart i]
      exact ih _ (by omega)

theorem putAll_eq_ofFn (byte : Fin 6 → UInt8) (node : CuuidNode) :
    List.foldl (fun (node : CuuidNode) (i : Fin 6) => node.put i (byte i)) node
      [0, 1, 2, 3, 4, 5] = Vector.ofFn byte := by
  refine node_ext_iff.mpr ?_
  simp

theorem strtoquid_eq (h : HexText text) (tail : Bytes) (prior : Cuuid) :
    strtoquid (text ++ 0 :: tail) prior = decoded text prior := by
  -- a buffer that is used again keeps the NUL of its first use
  have hlow := h.memcpy_window tail (List.replicate 9 0) 0 8 rfl (by decide)
  have hmid := h.memcpy_window tail (List.replicate 5 0) 8 4 rfl (by decide)
  have htop := h.memcpy_window tail _ 12 4
    (h.drop_window (by decide : 8 + 4 ≤ 32)) (by decide)
  have hhigh := h.memcpy_window tail (List.replicate 3 0) 16 2 rfl (by decide)
  have hseq := h.memcpy_window tail _ 18 2
    (h.drop_window (by decide : 16 + 2 ≤ 32)) (by decide)
  have hnumber : ∀ start count, count ≤ 15 → start + count ≤ 32 → strtol16
      (window text start count ++ [0]) = hexNumber (window text start count) :=
    fun _ _ => h.strtol16_window
  rw [List.drop_zero] at hlow
  rw [strtoquid]
  simp only [hlow, hmid, htop, hhigh, hseq]
  rw [h.foldl_decodeNode tail _ _ (by decide)]
  simp only [hnumber 0 8 (by decide) (by decide), hnumber 8 4 (by decide) (by decide),
    hnumber 12 4 (by decide) (by decide), hnumber 16 2 (by decide) (by decide),
    hnumber 18 2 (by decide) (by decide), decoded, putAll_eq_ofFn]

theorem quidParse_eq (hs : 0 ∉ s) (junk : Bytes) (prior : Cuuid) :
    (HexText (stripped s) →
      quidParse (some (s ++ 0 :: junk)) (some prior) =
        ((if (quidValidate (some (decoded (stripped s) prior))).1 = .error then .error else .ok),
          some (stripSpecialChars (s ++ 0 :: junk)),
          (quidValidate (some (decoded (stripped s) prior))).2)) ∧
    (¬ HexText (stripped s) →
      quidParse (some (s ++ 0 :: junk)) (some prior) =
        (.error, some (stripSpecialChars (s ++ 0 :: junk)), some prior)) := by
  obtain ⟨gap, -, htail⟩ := stripSpecialChars_eq hs junk
  have hzero := zero_notMem_stripped hs
  have hlength : strlen (stripped s ++ 0 :: (gap ++ junk)) = (stripped s).length := by
    rw [strlen, cString_append_zero hzero]
  refine ⟨fun hhex => ?_, fun hnot => ?_⟩
  · have hall : ishex (stripped s ++ 0 :: (gap ++ junk)) = true := by
      rw [ishex_eq hzero]
      exact List.all_eq_true.mpr hhex.digits
    simp only [quidParse, htail, hlength, hhex.length, hall, strtoquid_eq hhex]
    simp only [ne_eq, not_true_eq_false, if_false, Bool.not_true, Bool.false_eq_true]
    split <;> rfl
  · simp only [quidParse, htail, hlength]
    by_cases hlong : (stripped s).length = quidLen
    · have hall : ishex (stripped s ++ 0 :: (gap ++ junk)) = false := by
        rw [ishex_eq hzero, Bool.eq_false_iff]
        exact fun hall => hnot ⟨hlong, List.all_eq_true.mp hall⟩
      simp [hlong, hall]
    · simp [hlong]

/-! ## Validation of a decoded text -/

theorem quidValidate_error {u : Cuuid} (h : (quidValidate (some u)).1 = .error) :
    (quidValidate (some u)).2 = some u := by
  by_cases hlow : u.timeLow = 0
  · simp [quidValidate, hlow]
  · simp only [quidValidate, hlow, if_false] at h ⊢
    split
    · next hrev7 => simp [hrev7] at h
    · split
      · next hrev7 hrev4 => simp [hrev7, hrev4] at h
      · rfl

theorem hexValue_eq_zero_iff {c : UInt8} : isxdigit c = true → (hexValue c = 0 ↔ c = chr '0') := by
  revert c
  apply forall_byte
  decide +kernel

theorem HexText.timeLow_toNat (h : HexText text) (prior : Cuuid) :
    (decoded text prior).timeLow.toNat = hexNumber (window text 0 8) :=
  uint64_ofInt_toNat ((h.hexNumber_window_lt (by decide)).trans (by decide))

theorem HexText.timeLow_eq_zero_iff (h : HexText text) :
    (decoded text prior).timeLow = 0 ↔ ∀ c ∈ text.take 8, c = chr '0' := by
  have hdigits := h.digits_window 0 8
  have hwindow : window text 0 8 = text.take 8 := by rw [window, List.drop_zero]
  rw [← UInt64.toNat_inj, h.timeLow_toNat, hexNumber, UInt64.toNat_zero,
    value_eq_zero_iff (by decide), ← hwindow]
  simp only [List.mem_map, forall_exists_index, and_imp, forall_apply_eq_imp_iff₂]
  exact forall₂_congr fun c hc => hexValue_eq_zero_iff (hdigits c hc)

def versionNibble (text : Bytes) : Nat := hexValue (text.getD 12 0)

theorem HexText.drop_version (h : HexText text) :
    text.drop 12 = text.getD 12 0 :: text.drop 13 := by
  have hlength : 12 < text.length := by rw [h.length]; decide
  rw [List.drop_eq_getElem_cons hlength, List.getD_eq_getElem?_getD,
    List.getElem?_eq_getElem hlength, Option.getD_some]

theorem HexText.versionNibble_lt (h : HexText text) : versionNibble text < 16 := by
  have hmem : text.getD 12 0 ∈ text.drop 12 := by
    rw [h.drop_version]
    exact List.mem_cons_self
  exact hexValue_lt (h.digits _ (List.mem_of_mem_drop hmem))

theorem HexText.timeHi_toNat (h : HexText text) (prior : Cuuid) :
    ∃ rest, rest < 2 ^ 12 ∧
      (decoded text prior).timeHiAndVersion.toNat = versionNibble text * 2 ^ 12 + rest := by
  have hnumber : ((decoded text prior).timeHiAndVersion).toNat = hexNumber (window text 12 4) :=
    uint16_ofInt_toNat (h.hexNumber_window_lt (by decide))
  have hsplit : window text 12 4 = [text.getD 12 0] ++ window text 13 3 := by
    rw [window, h.drop_version]
    rfl
  refine ⟨hexNumber (window text 13 3), h.hexNumber_window_lt (by decide), ?_⟩
  rw [hnumber, hexNumber, hsplit, List.map_append, value_append, List.length_map,
    h.length_window (by decide)]
  simp [versionNibble, hexNumber, value]

theorem HexText.and_version_iff (h : HexText text) {bits : UInt16} {mask : Nat}
    (hmask : bits.toNat = mask * 2 ^ 12) :
    (decoded text prior).timeHiAndVersion &&& bits = bits ↔ versionNibble text &&& mask = mask := by
  obtain ⟨rest, hrest, hword⟩ := h.timeHi_toNat prior
  rw [← UInt16.toNat_inj, UInt16.toNat_and, hmask, and_high_eq_iff hword hrest]

/-! ## The language -/

structure Accepts (text : Bytes) : Prop where
  hex : HexText text
  nonzero : ¬ ∀ c ∈ text.take 8, c = chr '0'
  version : versionNibble text &&& 0xA = 0xA

def textVersion (text : Bytes) : UInt8 :=
  if versionNibble text % 2 = 1 then quidRev7 else quidRev4

theorem nibble_rev7_iff : ∀ d : Fin 16,
    d.val &&& 0xB = 0xB ↔ d.val &&& 0xA = 0xA ∧ d.val % 2 = 1 := by
  decide

theorem versionRev4_toNat : versionRev4.toNat = 0xA * 2 ^ 12 := rfl

theorem versionRev7_toNat : versionRev7.toNat = 0xB * 2 ^ 12 := rfl

theorem quidValidate_decoded_accepts (h : Accepts text) (prior : Cuuid) :
    quidValidate (some (decoded text prior)) =
      (.ok, some { decoded text prior with version := textVersion text }) := by
  have hlow : (decoded text prior).timeLow ≠ 0 :=
    fun hzero => h.nonzero (h.hex.timeLow_eq_zero_iff.mp hzero)
  have hrev4 : (decoded text prior).timeHiAndVersion &&& versionRev4 = versionRev4 :=
    (h.hex.and_version_iff versionRev4_toNat).mpr h.version
  have hrev7 : (decoded text prior).timeHiAndVersion &&& versionRev7 = versionRev7 ↔
      versionNibble text % 2 = 1 := by
    rw [h.hex.and_version_iff versionRev7_toNat, nibble_rev7_iff ⟨_, h.hex.versionNibble_lt⟩,
      and_iff_right h.version]
  simp only [quidValidate, hlow, if_false, hrev7, hrev4, if_true, textVersion]
  split <;> rfl

theorem quidValidate_decoded_rejects (hhex : HexText text) (h : ¬ Accepts text)
    (prior : Cuuid) : (quidValidate (some (decoded text prior))).1 = .error := by
  by_cases hzero : ∀ c ∈ text.take 8, c = chr '0'
  · simp [quidValidate, hhex.timeLow_eq_zero_iff.mpr hzero]
  · have hnibble : ¬ versionNibble text &&& 0xA = 0xA := fun hversion => h ⟨hhex, hzero, hversion⟩
    have hrev4 : ¬ (decoded text prior).timeHiAndVersion &&& versionRev4 = versionRev4 :=
      fun hbits => hnibble ((hhex.and_version_iff versionRev4_toNat).mp hbits)
    have hrev7 : ¬ (decoded text prior).timeHiAndVersion &&& versionRev7 = versionRev7 := by
      intro hbits
      have hmask := (hhex.and_version_iff versionRev7_toNat).mp hbits
      exact hnibble ((nibble_rev7_iff ⟨_, hhex.versionNibble_lt⟩).mp hmask).1
    simp only [quidValidate, hrev4, hrev7, if_false]
    split <;> rfl

theorem quidParse_accepts (hs : 0 ∉ s) (h : Accepts (stripped s)) (junk : Bytes)
    (prior : Cuuid) : quidParse (some (s ++ 0 :: junk)) (some prior) =
      (.ok, some (stripSpecialChars (s ++ 0 :: junk)),
        some { decoded (stripped s) prior with version := textVersion (stripped s) }) := by
  rw [(quidParse_eq hs junk prior).1 h.hex, quidValidate_decoded_accepts h prior]
  rfl

theorem quidParse_rejects (hs : 0 ∉ s) (h : ¬ Accepts (stripped s)) (junk : Bytes)
    (prior : Cuuid) : ∃ u, quidParse (some (s ++ 0 :: junk)) (some prior) =
      (.error, some (stripSpecialChars (s ++ 0 :: junk)), some u) := by
  obtain ⟨hhex, hother⟩ := quidParse_eq hs junk prior
  by_cases htext : HexText (stripped s)
  · have herror := quidValidate_decoded_rejects htext h prior
    rw [hhex htext, if_pos herror, quidValidate_error herror]
    exact ⟨_, rfl⟩
  · exact ⟨prior, hother htext⟩

/--
`quid_parse` accepts exactly the strings whose stripped text is an identifier,
and the version it leaves comes from the text alone.
-/
theorem quidParse_ok_iff (hs : 0 ∉ s) (junk : Bytes) (prior : Cuuid) :
    ((quidParse (some (s ++ 0 :: junk)) (some prior)).1 = .ok ↔ Accepts (stripped s)) ∧
      (Accepts (stripped s) → ∃ buffer u,
        quidParse (some (s ++ 0 :: junk)) (some prior) = (.ok, some buffer, some u) ∧
          u.version = textVersion (stripped s)) := by
  refine ⟨⟨fun hok => ?_, fun h => ?_⟩, fun h => ?_⟩
  · by_contra hnot
    obtain ⟨u, hparse⟩ := quidParse_rejects hs hnot junk prior
    rw [hparse] at hok
    cases hok
  · rw [quidParse_accepts hs h junk prior]
  · exact ⟨_, _, quidParse_accepts hs h junk prior, rfl⟩

def plainDigits : Bytes := List.replicate 12 (chr '1') ++ chr 'b' :: List.replicate 19 (chr '1')

theorem quidParse_ok_iff_plainDigits :
    ((quidParse (some (plainDigits ++ 0 :: [])) (some Cuuid.zero)).1 = .ok ↔
        Accepts (stripped plainDigits)) ∧
      (Accepts (stripped plainDigits) → ∃ buffer u,
        quidParse (some (plainDigits ++ 0 :: [])) (some Cuuid.zero) =
          (.ok, some buffer, some u) ∧ u.version = textVersion (stripped plainDigits)) :=
  quidParse_ok_iff (by decide) [] Cuuid.zero

/-! ## Failed parses -/

/--
A failed parse writes no version and no tag, and writes the other fields only
when the text was 32 digits, so that the failure was left to validation.
-/
theorem quidParse_failed (text : Option Bytes) (htext : ∀ s ∈ text, 0 ∉ s) (junk : Bytes)
    (prior : Cuuid)
    (hfail : (quidParse (text.map (· ++ 0 :: junk)) (some prior)).1 ≠ .ok) :
    ∃ u, (quidParse (text.map (· ++ 0 :: junk)) (some prior)).2.2 = some u ∧
      u.version = prior.version ∧ u.tag = prior.tag ∧
      ((∀ s ∈ text, ¬ HexText (stripped s)) → u = prior) ∧
      ∀ s ∈ text, HexText (stripped s) → u = decoded (stripped s) prior := by
  cases text with
  | none => exact ⟨prior, rfl, rfl, rfl, fun _ => rfl, by simp⟩
  | some s =>
      obtain ⟨hhex, hother⟩ := quidParse_eq (htext s rfl) junk prior
      simp only [Option.map_some] at hfail ⊢
      by_cases hdigits : HexText (stripped s)
      · rw [hhex hdigits] at hfail ⊢
        have herror : (quidValidate (some (decoded (stripped s) prior))).1 = .error := by
          by_contra hvalid
          exact hfail (if_neg hvalid)
        exact ⟨_, quidValidate_error herror, rfl, rfl,
          fun hnot => absurd hdigits (hnot s rfl), by simp⟩
      · rw [hother hdigits]
        exact ⟨prior, rfl, rfl, rfl, fun _ => rfl, by simp [hdigits]⟩

def zeroLowDigits : Bytes := List.replicate 8 (chr '0') ++ List.replicate 24 (chr '1')

theorem quidParse_failed_zeroLowDigits :
    ∃ u, (quidParse ((some zeroLowDigits).map (· ++ 0 :: [])) (some Cuuid.zero)).2.2 = some u ∧
      u.version = Cuuid.zero.version ∧ u.tag = Cuuid.zero.tag ∧
      ((∀ s ∈ some zeroLowDigits, ¬ HexText (stripped s)) → u = Cuuid.zero) ∧
      ∀ s ∈ some zeroLowDigits, HexText (stripped s) → u = decoded (stripped s) Cuuid.zero :=
  quidParse_failed (some zeroLowDigits) (by decide) [] Cuuid.zero (by decide)

theorem zeroLowDigits_written :
    ∃ out u, quidParse (some (zeroLowDigits ++ 0 :: [])) (some Cuuid.zero) =
        (.error, out, some u) ∧ u ≠ Cuuid.zero :=
  ⟨_, _, rfl, by decide⟩

end Quid
