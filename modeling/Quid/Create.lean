import Quid.Node
import Quid.Process

/-!
# Creating identifiers

`quid_create` and the two revisions it dispatches to.  The part of each revision
that follows its draws is a definition of its own, so that what an identifier
contains can be told apart from how its ingredients were drawn.
-/

namespace Quid

def formatHeader (version clockMask : UInt16) (uid : Cuuid) (clockSeq : UInt16)
    (timestamp : UInt64) : Cuuid :=
  { uid with
    timeLow := timestamp &&& 0xffffffff
    timeMid := ((timestamp >>> 32) &&& 0xffff).toUInt16
    timeHiAndVersion :=
      (((timestamp >>> 48) &&& 0xfff).toUInt16 ^^^ quidMagic.toUInt16) ||| version
    clockSeqLow := (clockSeq &&& 0xff).toUInt8
    clockSeqHiAndReserved := ((clockSeq &&& clockMask) >>> 8).toUInt8 ||| quidMagic }

def headerRev4 : Cuuid → UInt16 → UInt64 → Cuuid := formatHeader versionRev4 0x3f00

def formatQuidRev7 : Cuuid → UInt16 → UInt64 → Cuuid := formatHeader versionRev7 0x4e00

def formatQuidRev4 (p : Process) (uid : Cuuid) (clockSeq : UInt16) (timestamp : UInt64)
    (node : CuuidNode) : Except Stop (Cuuid × Process) := do
  let uid := { headerRev4 uid clockSeq timestamp with node := node }
  let (first, p) ← trueRandom p
  let uid := { uid with node := (uid.node.put 0 first.toUInt8).put 1 quidRev4 }
  let (last, p) ← trueRandom p
  return ({ uid with node := uid.node.put 5 (last &&& 0xff).toUInt8 }, p)

def quidCreateRev4 (p : Process) (uid : Option Cuuid) (flag subc : UInt8) :
    Except Stop ((Cresult × Option Cuuid) × Process) :=
  match uid with
  | none => .ok ((.invalidParam, none), p)
  | some uid => do
      cAssert p.ndebug (memvcmp uid.bytes 0)
      let uid := { uid with version := quidRev4 }
      let (timestamp, p) ← getCurrentTime p
      let (node, p) ← getMemorySeed p
      let (clockseq, p) ← trueRandom p
      let (uid, p) ← formatQuidRev4 p uid clockseq timestamp node
      let uid := { uid with node := (uid.node.put 1 flag).put 2 subc }
      return ((.ok, some uid), p)

def effectiveTag (tag : Option TagText) : TagText :=
  match tag with
  | some tag => if tag.get 0 ≠ 0 ∧ tag.get 1 ≠ 0 ∧ tag.get 2 ≠ 0 then tag else padding
  | none => padding

def plainNode (flag subc : UInt8) (tag : Option TagText) : CuuidNode :=
  let text := effectiveTag tag
  #v[quidRev7, flag, subc, text.get 0, text.get 1, text.get 2]

def assembleRev7 (ndebug : Bool) (uid : Cuuid) (clockseq : UInt16) (timestamp : UInt64)
    (flag subc : UInt8) (tag : Option TagText) : Except Stop Cuuid := do
  let uid := formatQuidRev7 uid clockseq timestamp
  let node ← encryptNode ndebug uid.timeLow uid.clockSeqHiAndReserved uid.clockSeqLow
    (plainNode flag subc tag)
  return { uid with node }

def quidCreateRev7 (p : Process) (uid : Option Cuuid) (flag subc : UInt8)
    (tag : Option TagText) : Except Stop ((Cresult × Option Cuuid) × Process) :=
  match uid with
  | none => .ok ((.invalidParam, none), p)
  | some uid => do
      cAssert p.ndebug (memvcmp uid.bytes 0)
      let uid := { uid with version := quidRev7 }
      let (timestamp, p) ← getCurrentTime p
      let (clockseq, p) ← trueRandom p
      let uid ← assembleRev7 p.ndebug uid clockseq timestamp flag subc tag
      return ((.ok, some uid), p)

def quidCreate (p : Process) (cuuid : Option Cuuid) (flag subc : UInt8)
    (tag : Option TagText) : Except Stop ((Cresult × Option Cuuid) × Process) :=
  match cuuid with
  | none => .ok ((.invalidParam, none), p)
  | some cuuid =>
      let requestedVersion := cuuid.version
      let cuuid := Cuuid.zero
      if requestedVersion = quidRev4 then quidCreateRev4 p (some cuuid) flag subc
      else quidCreateRev7 p (some cuuid) flag subc tag

end Quid
