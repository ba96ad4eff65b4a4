import Quid.Text.Parse

/-!
# Parsing a buffer again

`quid_parse` strips the caller's buffer in place before it looks at it, on every
path.  What is left holds the same characters and no separators, so stripping
does not change it again and a second call finds what the first one found.
-/

namespace Quid

open Quid.Foundation.Compaction
open Quid.Foundation.CString

variable {s : Bytes}

/-! ## Stripping in place -/

/-- What `strip_special_chars` does to the buffer that holds the string `s`. -/
structure StripsInPlace (s junk : Bytes) : Prop where
  /-- The loop comes to the NUL, and neither it nor the closing write passes it. -/
  passes : ∃ writes left pw, Passes 0 isSpecial (s ++ 0 :: junk) 0 0 writes left pw ∧
    (∀ fuel, s.length < fuel → stripLoop fuel (s ++ 0 :: junk) 0 0 = (left, pw)) ∧
    stripSpecialChars (s ++ 0 :: junk) = left.set pw 0 ∧ ∀ cell ∈ pw :: writes, cell ≤ s.length
  text : cString (stripSpecialChars (s ++ 0 :: junk)) = stripped s
  beyond : (stripSpecialChars (s ++ 0 :: junk)).drop (s.length + 1) = junk

theorem stripSpecialChars_inPlace (hs : 0 ∉ s) (junk : Bytes) : StripsInPlace s junk := by
  obtain ⟨writes, left, pw, gap, hpasses, hloop, hwithin, hcells, hstrip, hleft⟩ :=
    stripSpecialChars_passes hs junk
  have hbuffer := hstrip.trans hleft
  refine ⟨⟨writes, left, pw, hpasses, hloop, hstrip, hwithin⟩, ?_, ?_⟩
  · rw [hbuffer, cString_append_zero (zero_notMem_stripped hs)]
  · have hfront : stripped s ++ 0 :: (gap ++ junk) = (stripped s ++ 0 :: gap) ++ junk := by simp
    have hlength : (stripped s ++ 0 :: gap).length = s.length + 1 := by
      rw [List.length_append, List.length_cons]
      omega
    rw [hbuffer, hfront, ← hlength, List.drop_left]

theorem stripped_stripped (s : Bytes) : stripped (stripped s) = stripped s := by
  simp [stripped]

theorem stripSpecialChars_stripped (hs : 0 ∉ s) (junk : Bytes) :
    stripSpecialChars (stripped s ++ 0 :: junk) = stripped s ++ 0 :: junk := by
  obtain ⟨gap, hcells, hstrip⟩ := stripSpecialChars_eq (zero_notMem_stripped hs) junk
  rw [stripped_stripped] at hcells hstrip
  have hgap : gap = [] := List.eq_nil_of_length_eq_zero (by omega)
  rw [hstrip, hgap, List.nil_append]

/-! ## The second call -/

/-- A second call on what the first one left of the buffer, with another structure. -/
def ParsesAgain (s junk : Bytes) (prior prior' : Cuuid) : Prop :=
  ∃ code buffer u u',
    quidParse (some (s ++ 0 :: junk)) (some prior) = (code, some buffer, some u) ∧
      quidParse (some buffer) (some prior') = (code, some buffer, some u') ∧
      (code = .ok → u'.SameWire u ∧ u'.version = u.version)

theorem quidParse_parsesAgain (hs : 0 ∉ s) (junk : Bytes) (prior prior' : Cuuid) :
    ParsesAgain s junk prior prior' := by
  obtain ⟨gap, -, hstrip⟩ := stripSpecialChars_eq hs junk
  have hzero := zero_notMem_stripped hs
  have hagain := stripSpecialChars_stripped hs (gap ++ junk)
  by_cases h : Accepts (stripped s)
  · have hfirst := quidParse_accepts hs h junk prior
    have hsecond := quidParse_accepts hzero ((stripped_stripped s).symm ▸ h) (gap ++ junk) prior'
    rw [hstrip] at hfirst
    rw [hagain, stripped_stripped] at hsecond
    exact ⟨_, _, _, _, hfirst, hsecond, fun _ => ⟨⟨rfl, rfl, rfl, rfl, rfl, rfl⟩, rfl⟩⟩
  · obtain ⟨u, hfirst⟩ := quidParse_rejects hs h junk prior
    obtain ⟨u', hsecond⟩ :=
      quidParse_rejects hzero ((stripped_stripped s).symm ▸ h) (gap ++ junk) prior'
    rw [hstrip] at hfirst
    rw [hagain] at hsecond
    exact ⟨_, _, u, u', hfirst, hsecond, nofun⟩

/--
Stripping filters the string in place, within its own cells, and parsing the
buffer it leaves gives the same code, buffer, fields and version again.
-/
theorem quidParse_repeatable (hs : 0 ∉ s) (junk : Bytes) (prior prior' : Cuuid) :
    StripsInPlace s junk ∧ ParsesAgain s junk prior prior' :=
  ⟨stripSpecialChars_inPlace hs junk, quidParse_parsesAgain hs junk prior prior'⟩

theorem quidParse_repeatable_separators :
    StripsInPlace (chr '{' :: plainDigits ++ [chr ' ', chr '-', chr '}']) [7, 0, 7] ∧
      ParsesAgain (chr '{' :: plainDigits ++ [chr ' ', chr '-', chr '}']) [7, 0, 7] Cuuid.zero
        { Cuuid.zero with version := quidRev4 } :=
  quidParse_repeatable (by decide) [7, 0, 7] Cuuid.zero { Cuuid.zero with version := quidRev4 }

end Quid
