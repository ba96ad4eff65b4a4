import Quid.Platform
import Mathlib.Tactic

/-!
# The identifier structure of `quid.h`

The wire fields of an identifier, its revision, the result codes of the public
functions, and comparison.  A pointer argument of a public function is an
`Option`: `none` is `NULL`.
-/

namespace Quid

abbrev CuuidNode := Vector UInt8 6

abbrev TagText := Vector UInt8 3

instance nodeSize_neZero : NeZero 6 := ⟨by decide⟩

instance tagSize_neZero : NeZero 3 := ⟨by decide⟩

def CuuidNode.put (node : CuuidNode) (i : Fin 6) (byte : UInt8) : CuuidNode := node.set i byte

@[simp] theorem CuuidNode.get_put (node : CuuidNode) (i j : Fin 6) (byte : UInt8) :
    (node.put i byte).get j = if i = j then byte else node.get j := by
  have hget : (node.put i byte).get j = (Vector.set node i byte)[j.val] := rfl
  rw [hget, Vector.getElem_set]
  simp only [Fin.ext_iff]
  rfl

@[simp] theorem CuuidNode.get_ofFn (byte : Fin 6 → UInt8) (i : Fin 6) :
    (Vector.ofFn byte).get i = byte i :=
  Vector.getElem_ofFn i.isLt

structure Cuuid where
  timeLow : UInt64
  timeMid : UInt16
  timeHiAndVersion : UInt16
  clockSeqHiAndReserved : UInt8
  clockSeqLow : UInt8
  node : CuuidNode
  tag : TagText
  version : UInt8
  deriving DecidableEq, Repr

inductive Cresult where
  | error
  | ok
  | invalidParam
  deriving DecidableEq, Repr

def quidRev4 : UInt8 := 0x10
def quidRev7 : UInt8 := 0x12

def versionRev4 : UInt16 := 0xa000
def versionRev7 : UInt16 := 0xb000

def quidMagic : UInt8 := 0x80

def padding : TagText := #v[0x12, 0x82, 0x7b]

/-- The structure after `memset(cuuid, '\0', sizeof(cuuid_t))`. -/
def Cuuid.zero : Cuuid where
  timeLow := 0
  timeMid := 0
  timeHiAndVersion := 0
  clockSeqHiAndReserved := 0
  clockSeqLow := 0
  node := Vector.replicate 6 0
  tag := Vector.replicate 3 0
  version := 0

def bytes16 (v : UInt16) : List UInt8 := [v.toUInt8, (v >>> 8).toUInt8]

def bytes64 (v : UInt64) : List UInt8 :=
  (List.range 8).map fun i => (v >>> (8 * UInt64.ofNat i)).toUInt8

/-- The 24 bytes of the structure: its layout has no padding. -/
def Cuuid.bytes (u : Cuuid) : List UInt8 :=
  bytes64 u.timeLow ++ bytes16 u.timeMid ++ bytes16 u.timeHiAndVersion ++
    [u.clockSeqHiAndReserved, u.clockSeqLow] ++ u.node.toList ++ u.tag.toList ++
    [u.version]

def memvcmp (memory : List UInt8) (val : UInt8) : Bool :=
  memory.head? == some val && memory.dropLast == memory.tail

theorem memvcmp_zero : memvcmp Cuuid.zero.bytes 0 = true := by decide

/-! ## Comparison -/

structure Cuuid.SameWire (u v : Cuuid) : Prop where
  timeLow : u.timeLow = v.timeLow
  timeMid : u.timeMid = v.timeMid
  timeHiAndVersion : u.timeHiAndVersion = v.timeHiAndVersion
  clockSeqHiAndReserved : u.clockSeqHiAndReserved = v.clockSeqHiAndReserved
  clockSeqLow : u.clockSeqLow = v.clockSeqLow
  node : u.node = v.node

/-- `quid_cmp`: the comparison itself is 1 on equal identifiers and 0 otherwise. -/
def quidCmp (s1 s2 : Option Cuuid) : Cresult :=
  match s1, s2 with
  | some s1, some s2 =>
      if s1.timeLow = s2.timeLow
        ∧ s1.timeMid = s2.timeMid
        ∧ s1.timeHiAndVersion = s2.timeHiAndVersion
        ∧ s1.clockSeqHiAndReserved = s2.clockSeqHiAndReserved
        ∧ s1.clockSeqLow = s2.clockSeqLow
        ∧ s1.node.get 0 = s2.node.get 0
        ∧ s1.node.get 1 = s2.node.get 1
        ∧ s1.node.get 2 = s2.node.get 2
        ∧ s1.node.get 3 = s2.node.get 3
        ∧ s1.node.get 4 = s2.node.get 4
        ∧ s1.node.get 5 = s2.node.get 5
      then .ok else .error
  | _, _ => .invalidParam

theorem node_ext_iff {a b : CuuidNode} :
    a = b ↔ a.get 0 = b.get 0 ∧ a.get 1 = b.get 1 ∧ a.get 2 = b.get 2 ∧
      a.get 3 = b.get 3 ∧ a.get 4 = b.get 4 ∧ a.get 5 = b.get 5 := by
  constructor
  · rintro rfl
    simp
  · rintro ⟨h₀, h₁, h₂, h₃, h₄, h₅⟩
    apply Vector.ext
    intro i hi
    interval_cases i <;> assumption

theorem quidCmp_some_ok_iff {u v : Cuuid} :
    quidCmp (some u) (some v) = .ok ↔ u.SameWire v := by
  simp only [quidCmp, ← node_ext_iff]
  constructor
  · intro h
    split at h
    · next hsame =>
        obtain ⟨h₁, h₂, h₃, h₄, h₅, h₆⟩ := hsame
        exact ⟨h₁, h₂, h₃, h₄, h₅, h₆⟩
    · cases h
  · rintro ⟨h₁, h₂, h₃, h₄, h₅, h₆⟩
    exact if_pos ⟨h₁, h₂, h₃, h₄, h₅, h₆⟩

theorem quidCmp_some_error_iff {u v : Cuuid} :
    quidCmp (some u) (some v) = .error ↔ ¬ u.SameWire v := by
  rw [← quidCmp_some_ok_iff]
  simp only [quidCmp]
  split <;> simp

end Quid
