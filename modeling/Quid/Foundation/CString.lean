import Quid.Foundation.Numeral
import Mathlib.Data.List.TakeWhile

/-!
# C strings

Memory is a list of bytes, a string ends at the first NUL, and the functions of
the C standard library below work in the C locale with a 64-bit `long`.
-/

namespace Quid.Foundation.CString

open Quid.Foundation.Numeral

abbrev Bytes := List UInt8

def chr (c : Char) : UInt8 := c.toNat.toUInt8

def cString (memory : Bytes) : Bytes := memory.takeWhile (· ≠ 0)

def strlen (memory : Bytes) : Nat := (cString memory).length

def memcpy (dst src : Bytes) (count : Nat) : Bytes :=
  src.take count ++ dst.drop count

def isspace (c : UInt8) : Bool := c = 32 || (9 ≤ c && c ≤ 13)

def isxdigit (c : UInt8) : Bool :=
  (48 ≤ c && c ≤ 57) || (97 ≤ c && c ≤ 102) || (65 ≤ c && c ≤ 70)

def tolower (c : UInt8) : UInt8 := if 65 ≤ c && c ≤ 90 then c + 32 else c

def hexValue (c : UInt8) : Nat :=
  if c ≤ 57 then c.toNat - 48 else if 97 ≤ c then c.toNat - 87 else c.toNat - 55

def hexDigit (d : Nat) : UInt8 := if d < 10 then 48 + d.toUInt8 else 87 + d.toUInt8

/-- `%.<width>x`. -/
def hexText (width n : Nat) : Bytes := (digits 16 width n).map hexDigit

def decText (n : Int) : Bytes :=
  (if n < 0 then [chr '-'] else []) ++ (digits 10 1 n.natAbs).map hexDigit

def hexNumber (text : Bytes) : Nat := value 16 (text.map hexValue)

def longMin : Int := -9223372036854775808
def longMax : Int := 9223372036854775807

def skipSign : Bytes → Bool × Bytes
  | c :: rest =>
      if c = chr '-' then (true, rest)
      else if c = chr '+' then (false, rest)
      else (false, c :: rest)
  | [] => (false, [])

/-- `0x` is a prefix only when a digit follows it. -/
def skipPrefix : Bytes → Bytes
  | zero :: x :: digit :: rest =>
      if zero = chr '0' ∧ (x = chr 'x' ∨ x = chr 'X') ∧ isxdigit digit then digit :: rest
      else zero :: x :: digit :: rest
  | text => text

/-- `strtol(memory, NULL, 16)`, and `strtoll` as well. -/
def strtol16 (memory : Bytes) : Int :=
  let (negative, text) := skipSign ((cString memory).dropWhile isspace)
  let magnitude : Int := hexNumber ((skipPrefix text).takeWhile isxdigit)
  max longMin (min longMax (if negative then -magnitude else magnitude))

/-- `snprintf(dst, size, ...)` of a text: at most `size - 1` characters and a NUL. -/
def snprintf (dst : Bytes) (size : Nat) (text : Bytes) : Bytes :=
  let written := text.take (size - 1) ++ [0]
  memcpy dst written written.length

/-! ## Strings -/

theorem cString_append_zero {text : Bytes} (h : 0 ∉ text) (rest : Bytes) :
    cString (text ++ 0 :: rest) = text := by
  have hall : ∀ c ∈ text, (decide (c ≠ 0)) = true := by
    intro c hc
    simp only [decide_eq_true_eq]
    rintro rfl
    exact h hc
  rw [cString, List.takeWhile_append_of_pos hall]
  simp

theorem memcpy_full {dst src : Bytes} {count : Nat} (hsrc : src.length = count) :
    memcpy dst src count = src ++ dst.drop count := by
  simp [memcpy, ← hsrc]

/-! ## Hexadecimal digits -/

theorem forall_byte {P : UInt8 → Prop} (h : ∀ i : Fin 256, P (UInt8.ofNat i.val)) (c : UInt8) :
    P c := by
  simpa using h ⟨c.toNat, c.toNat_lt⟩

theorem isxdigit_facts (c : UInt8) : isxdigit c = true →
    c ≠ 0 ∧ isspace c = false ∧ c ≠ chr '-' ∧ c ≠ chr '+' ∧ c ≠ chr 'x' ∧ c ≠ chr 'X' ∧
      c ≠ chr '{' ∧ c ≠ chr '}' ∧ c ≠ chr ' ' ∧ hexValue c < 16 ∧
      hexDigit (hexValue c) = tolower c ∧ isxdigit (tolower c) = true := by
  revert c
  apply forall_byte
  decide +kernel

theorem hexDigit_facts : ∀ d : Fin 16,
    isxdigit (hexDigit d.val) = true ∧ hexValue (hexDigit d.val) = d.val ∧
      tolower (hexDigit d.val) = hexDigit d.val := by
  decide

theorem isxdigit_ne_zero {c : UInt8} (h : isxdigit c = true) : c ≠ 0 := (isxdigit_facts c h).1

theorem hexValue_lt {c : UInt8} (h : isxdigit c = true) : hexValue c < 16 := by
  obtain ⟨-, -, -, -, -, -, -, -, -, hlt, -, -⟩ := isxdigit_facts c h
  exact hlt

theorem hexDigit_hexValue {c : UInt8} (h : isxdigit c = true) :
    hexDigit (hexValue c) = tolower c := by
  obtain ⟨-, -, -, -, -, -, -, -, -, -, hdigit, -⟩ := isxdigit_facts c h
  exact hdigit

theorem isxdigit_hexDigit {d : Nat} (h : d < 16) : isxdigit (hexDigit d) = true :=
  (hexDigit_facts ⟨d, h⟩).1

theorem hexValue_hexDigit {d : Nat} (h : d < 16) : hexValue (hexDigit d) = d :=
  (hexDigit_facts ⟨d, h⟩).2.1

/-! ## Hexadecimal numerals -/

variable {text : Bytes}

theorem map_hexValue_lt (htext : ∀ c ∈ text, isxdigit c = true) :
    ∀ d ∈ text.map hexValue, d < 16 := by
  intro d hd
  obtain ⟨c, hc, rfl⟩ := List.mem_map.mp hd
  exact hexValue_lt (htext c hc)

theorem hexNumber_lt (htext : ∀ c ∈ text, isxdigit c = true) :
    hexNumber text < 16 ^ text.length := by
  have hlt := value_lt (text.map hexValue) (map_hexValue_lt htext)
  rwa [List.length_map] at hlt

theorem hexText_hexNumber (htext : ∀ c ∈ text, isxdigit c = true) :
    hexText text.length (hexNumber text) = text.map tolower := by
  have hdigits := digits_value (text.map hexValue) (map_hexValue_lt htext)
  rw [List.length_map] at hdigits
  rw [hexText, hexNumber, hdigits, List.map_map]
  exact List.map_congr_left fun c hc => hexDigit_hexValue (htext c hc)

theorem isxdigit_hexText (width n : Nat) : ∀ c ∈ hexText width n, isxdigit c = true := by
  intro c hc
  obtain ⟨d, hd, rfl⟩ := List.mem_map.mp hc
  exact isxdigit_hexDigit (digits_lt (by decide) width n d hd)

theorem hexNumber_hexText (width n : Nat) : hexNumber (hexText width n) = n := by
  have hback : (hexText width n).map hexValue = digits 16 width n := by
    rw [hexText, List.map_map]
    refine (List.map_congr_left fun d hd => ?_).trans (List.map_id _)
    exact hexValue_hexDigit (digits_lt (by decide) width n d hd)
  rw [hexNumber, hback, value_digits]

theorem length_hexText {width n : Nat} (h : n < 16 ^ width) : (hexText width n).length = width := by
  rw [hexText, List.length_map, length_digits h]

theorem strtol16_hex (htext : ∀ c ∈ text, isxdigit c = true) (hlength : text.length ≤ 15)
    (rest : Bytes) : strtol16 (text ++ 0 :: rest) = hexNumber text := by
  have hstring : cString (text ++ 0 :: rest) = text :=
    cString_append_zero (fun h => isxdigit_ne_zero (htext 0 h) rfl) rest
  have hspace : text.dropWhile isspace = text := by
    cases text with
    | nil => rfl
    | cons c text =>
        obtain ⟨-, hspace, -⟩ := isxdigit_facts c (htext c (by simp))
        exact List.dropWhile_cons_of_neg (by simp [hspace])
  have hsign : skipSign text = (false, text) := by
    cases text with
    | nil => rfl
    | cons c text =>
        obtain ⟨-, -, hminus, hplus, -⟩ := isxdigit_facts c (htext c (by simp))
        simp [skipSign, hminus, hplus]
  have hprefix : skipPrefix text = text := by
    match text, htext with
    | [], _ | [_], _ | [_, _], _ => rfl
    | zero :: x :: digit :: text, htext =>
        obtain ⟨-, -, -, -, hlower, hupper, -⟩ := isxdigit_facts x (htext x (by simp))
        simp [skipPrefix, hlower, hupper]
  have hdigits : text.takeWhile isxdigit = text := List.takeWhile_eq_self_iff.2 htext
  have hbound : hexNumber text < 16 ^ 15 :=
    (hexNumber_lt htext).trans_le (Nat.pow_le_pow_right (by decide) hlength)
  simp only [strtol16, hstring, hspace, hsign, hprefix, hdigits]
  unfold longMin longMax
  simp only [Bool.false_eq_true, if_false]
  omega

end Quid.Foundation.CString
