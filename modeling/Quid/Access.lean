import Quid.Node

/-!
# Reading an identifier

The time, tag, category and flag of an identifier, recovered from its wire
fields by the revision its `version` field names.
-/

namespace Quid

/-- The version bits `quid_timeval` subtracts. -/
def versionSubtrahend (version : UInt8) : UInt16 :=
  if version = quidRev4 then versionRev4
  else if version = quidRev7 then versionRev7
  else 0

/-- The reconstructed timestamp; the top word is computed in `int`. -/
def cuuidTime (cuuid : Cuuid) : UInt64 :=
  let top : Int := (cuuid.timeHiAndVersion ^^^ quidMagic.toUInt16).toNat -
    (versionSubtrahend cuuid.version).toNat
  cuuid.timeLow ||| (cuuid.timeMid.toUInt64 <<< 32) ||| (UInt64.ofInt top <<< 48)

def quidTimeval (cuuid : Cuuid) : Timeval :=
  let time := cuuidTime cuuid
  let usec := (time / 10) % 1000000
  let sec := ((time / 10) - usec) / 1000000
  ⟨sec.toNat, usec.toNat⟩

def quidTimestamp {Tm : Type} (gmtime : Int → Option Tm) (cuuid : Option Cuuid) :
    Except Stop (Option Tm) :=
  match cuuid with
  | none => .error .bail
  | some cuuid => .ok (gmtime (quidTimeval cuuid).tvSec)

def quidMicrotime (cuuid : Option Cuuid) : Except Stop Int :=
  match cuuid with
  | none => .error .bail
  | some cuuid => .ok (quidTimeval cuuid).tvUsec

/-- What the returned pointer leads to: a string literal, or the static tag bytes. -/
inductive TagResult where
  | literal (text : String)
  | tag (bytes : TagText)
  deriving DecidableEq, Repr

def decryptNode (ndebug : Bool) (cuuid : Cuuid) : Except Stop CuuidNode :=
  encryptNode ndebug cuuid.timeLow cuuid.clockSeqHiAndReserved cuuid.clockSeqLow cuuid.node

def quidTag (ndebug : Bool) (cuuid : Option Cuuid) : Except Stop TagResult :=
  match cuuid with
  | none => .error .bail
  | some cuuid =>
      if cuuid.version ≠ quidRev7 then .ok (.literal "Not implemented")
      else do
        let node ← decryptNode ndebug cuuid
        if node.get 0 ≠ quidRev7 then
          return .literal "Invalid"
        if node.get 3 = padding.get 0 ∧ node.get 4 = padding.get 1 ∧ node.get 5 = padding.get 2 then
          return .literal "None"
        return .tag #v[node.get 3, node.get 4, node.get 5]

def metadataByte (i : Fin 6) (ndebug : Bool) (cuuid : Option Cuuid) : Except Stop UInt8 :=
  match cuuid with
  | none => .error .bail
  | some cuuid =>
      if cuuid.version = quidRev4 then .ok (cuuid.node.get i)
      else if cuuid.version = quidRev7 then do
        let node ← decryptNode ndebug cuuid
        return node.get i
      else .ok 0

theorem metadataByte_rev4 {u : Cuuid} (hversion : u.version = quidRev4) (i : Fin 6)
    (ndebug : Bool) : metadataByte i ndebug (some u) = .ok (u.node.get i) :=
  if_pos hversion

theorem metadataByte_rev7 {u : Cuuid} {ndebug : Bool} {node : CuuidNode}
    (hversion : u.version = quidRev7) (hnode : decryptNode ndebug u = .ok node) (i : Fin 6) :
    metadataByte i ndebug (some u) = .ok (node.get i) := by
  have hother : quidRev7 ≠ quidRev4 := by decide
  simp only [metadataByte, hversion, hother, if_false, if_true, hnode]
  rfl

def quidCategory : Bool → Option Cuuid → Except Stop UInt8 := metadataByte 2

def quidFlag : Bool → Option Cuuid → Except Stop UInt8 := metadataByte 1

end Quid
