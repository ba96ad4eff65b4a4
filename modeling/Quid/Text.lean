import Quid.Cuuid
import Quid.Foundation.CString

/-!
# The text form

`quid_parse` strips separators from the caller's buffer in place, decodes the
digits and validates the result; `quid_tostring` prints an identifier.
-/

namespace Quid

open Quid.Foundation.CString

def isSpecial (c : UInt8) : Bool :=
  c == chr '-' || c == chr '{' || c == chr '}' || c == chr ' '

/-- The loop: `pr` reads and `pw` writes in one buffer. -/
def stripLoop : Nat → Bytes → Nat → Nat → Bytes × Nat
  | 0, s, _, pw => (s, pw)
  | fuel + 1, s, pr, pw =>
      if s.getD pr 0 = 0 then (s, pw)
      else
        let s := s.set pw (s.getD pr 0)
        if isSpecial (s.getD pw 0) then stripLoop fuel s (pr + 1) pw
        else stripLoop fuel s (pr + 1) (pw + 1)

/-- Each pass reads one more character, so the buffer's length bounds the passes. -/
def stripSpecialChars (s : Bytes) : Bytes :=
  let (s, pw) := stripLoop s.length s 0 0
  s.set pw 0

def ishex : Bytes → Bool
  | [] => true
  | c :: s => if c = 0 then true else if !isxdigit c then false else ishex s

def decodeNode (str : Bytes) (state : Cuuid × Bytes) (i : Fin 6) : Cuuid × Bytes :=
  let node := memcpy state.2 (str.drop (20 + i.val * 2)) 2
  ({ state.1 with node := state.1.node.put i (UInt8.ofInt (strtol16 node)) }, node)

def strtoquid (str : Bytes) (u : Cuuid) : Cuuid :=
  let octet1 := List.replicate 9 0
  let octet := List.replicate 5 0
  let node := List.replicate 3 0
  let octet1 := memcpy octet1 str 8
  let u := { u with timeLow := UInt64.ofInt (strtol16 octet1) }
  let octet := memcpy octet (str.drop 8) 4
  let u := { u with timeMid := UInt16.ofInt (strtol16 octet) }
  let octet := memcpy octet (str.drop (8 + 4)) 4
  let u := { u with timeHiAndVersion := UInt16.ofInt (strtol16 octet) }
  let node := memcpy node (str.drop (8 + 4 + 4)) 2
  let u := { u with clockSeqHiAndReserved := UInt8.ofInt (strtol16 node) }
  let node := memcpy node (str.drop (8 + 4 + 4 + 2)) 2
  let u := { u with clockSeqLow := UInt8.ofInt (strtol16 node) }
  (List.foldl (decodeNode str) (u, node) [0, 1, 2, 3, 4, 5]).1

def quidValidate (cuuid : Option Cuuid) : Cresult × Option Cuuid :=
  match cuuid with
  | none => (.invalidParam, none)
  | some u =>
      if u.timeLow = 0 then (.error, some u)
      else if u.timeHiAndVersion &&& versionRev7 = versionRev7 then
        (.ok, some { u with version := quidRev7 })
      else if u.timeHiAndVersion &&& versionRev4 = versionRev4 then
        (.ok, some { u with version := quidRev4 })
      else (.error, some u)

def revisionOf (timeHiAndVersion : UInt16) : Option UInt8 :=
  if timeHiAndVersion &&& versionRev7 = versionRev7 then some quidRev7
  else if timeHiAndVersion &&& versionRev4 = versionRev4 then some quidRev4
  else none

theorem quidValidate_eq_ok {u v : Cuuid} :
    quidValidate (some u) = (.ok, some v) ↔
      u.timeLow ≠ 0 ∧ ∃ version, revisionOf u.timeHiAndVersion = some version ∧
        v = { u with version } := by
  by_cases hlow : u.timeLow = 0
  · simp [quidValidate, hlow]
  · simp only [quidValidate, revisionOf, hlow, if_false, ne_eq, not_false_eq_true, true_and]
    split
    · simp [eq_comm]
    · split <;> simp [eq_comm]

def quidLen : Nat := 32

def quidFullLen : Nat := quidLen + 4 + 2

def quidParse (quid : Option Bytes) (cuuid : Option Cuuid) :
    Cresult × Option Bytes × Option Cuuid :=
  match quid, cuuid with
  | none, cuuid => (.invalidParam, none, cuuid)
  | some quid, none => (.invalidParam, some quid, none)
  | some quid, some cuuid =>
      let quid := stripSpecialChars quid
      if strlen quid ≠ quidLen then (.error, some quid, some cuuid)
      else if !ishex quid then (.error, some quid, some cuuid)
      else
        let cuuid := strtoquid quid cuuid
        let (result, cuuid) := quidValidate (some cuuid)
        -- `!quid_validate(cuuid)`: only `QUID_ERROR` is zero
        if result = .error then (.error, some quid, cuuid)
        else (.ok, some quid, cuuid)

def quidText (u : Cuuid) : Bytes :=
  [chr '{'] ++ hexText 8 u.timeLow.toNat ++ [chr '-'] ++ hexText 4 u.timeMid.toNat ++
    [chr '-'] ++ hexText 4 u.timeHiAndVersion.toNat ++ [chr '-'] ++
    hexText 2 u.clockSeqHiAndReserved.toNat ++ hexText 2 u.clockSeqLow.toNat ++ [chr '-'] ++
    hexText 2 (u.node.get 0).toNat ++ hexText 2 (u.node.get 1).toNat ++
    hexText 2 (u.node.get 2).toNat ++ hexText 2 (u.node.get 3).toNat ++
    hexText 2 (u.node.get 4).toNat ++ hexText 2 (u.node.get 5).toNat ++ [chr '}']

def quidTostring (cuuid : Option Cuuid) (str : Option Bytes) : Cresult × Option Bytes :=
  match str, cuuid with
  | none, _ => (.invalidParam, none)
  | some str, none => (.invalidParam, some str)
  | some str, some cuuid => (.ok, some (snprintf str (quidFullLen + 1) (quidText cuuid)))

end Quid
