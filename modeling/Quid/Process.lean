import Quid.Cuuid
import Quid.Platform

/-!
# The generator's process state

The static variables of `quid.c`, the answers the process will get from its
platform, and the functions that read the clock and draw random values.

What the platform will answer is part of the state: `clock` holds the outcomes of
the coming calls of `get_system_time`, `draws` what the coming calls of
`true_random` get from `rand` and `gettimeofday`, `files` what the system does
with `.rnd`.  A call that needs a reading when `clock` is empty has not returned.
`trace` records the calls of `srand` and the conversions to `uint16_t`.
-/

namespace Quid

/-- One evaluation of `rand() + get_tick_count()` and of its conversion. -/
structure RandomDraw where
  rand : Nat
  timeOfDay : TimeOfDay
  other : UInt16
  deriving DecidableEq, Repr

inductive Event where
  | srand (seed : UInt32)
  | convert (value : Int)
  deriving DecidableEq, Repr

abbrev Clock := List (Except Stop UInt64)

structure Process where
  ndebug : Bool
  maxMemSeed : Int
  maxRndSeed : Int
  inited : Bool
  timeLast : UInt64
  idsThisTick : UInt16
  rndSeedCount : Int
  memSeedCount : Int
  savedNode : CuuidNode
  clock : Clock
  draws : Nat → RandomDraw
  files : Nat → RandFile
  trace : List Event

def uidsPerTick : UInt16 := 1024
def memSeedCycle : Int := 65536
def rndSeedCycle : Int := 4096

def Process.initial (ndebug : Bool) (clock : Clock) (draws : Nat → RandomDraw)
    (files : Nat → RandFile) : Process where
  ndebug := ndebug
  maxMemSeed := memSeedCycle
  maxRndSeed := rndSeedCycle
  inited := false
  timeLast := 0
  idsThisTick := 0
  rndSeedCount := 0
  memSeedCount := 0
  savedNode := Vector.replicate 6 0
  clock := clock
  draws := draws
  files := files
  trace := []

def stillDraw : RandomDraw := ⟨0, ⟨0, ⟨1700000000, 0⟩⟩, 0⟩

def stillFile : RandFile where
  content := some (List.replicate 6 1)
  seed := Vector.replicate 16 0
  opensForWriting := true
  writes := true
  closes := true

def Process.still (readings : List UInt64) : Process :=
  .initial false (readings.map .ok) (fun _ => stillDraw) (fun _ => stillFile)

/-! ## Setters -/

def quidSetMemSeed (cnt : Int) (p : Process) : Process := { p with maxMemSeed := cnt }

def quidSetRndSeed (cnt : Int) (p : Process) : Process := { p with maxRndSeed := cnt }

/-! ## Time -/

def squeezeTime (tv : Timeval) : UInt64 :=
  let result := UInt64.ofInt tv.tvSec
  let result := result * 10000000
  result + UInt64.ofInt (tv.tvUsec * 10)

def getSystemTime (ndebug : Bool) (answer : TimeOfDay) : Except Stop UInt64 :=
  if answer.status ≠ 0 then .error .bail
  else do
    let result := squeezeTime answer.tv
    cAssert ndebug (result > 10000000000000000)
    return result

def nextSystemTime (p : Process) : Except Stop (UInt64 × Process) :=
  match p.clock with
  | [] => .error .waiting
  | outcome :: clock => do
      let timeNow ← outcome
      return (timeNow, { p with clock })

/-- The `for (;;)` of `get_current_time` over the readings still to come. -/
def currentTimeLoop (p : Process) : Clock → Except Stop (UInt64 × Process)
  | [] => .error .waiting
  | .error stop :: _ => .error stop
  | .ok timeNow :: clock =>
      if p.timeLast ≠ timeNow then
        .ok (timeNow, { p with timeLast := timeNow, idsThisTick := 0, clock })
      else if p.idsThisTick < uidsPerTick then
        .ok (timeNow, { p with idsThisTick := p.idsThisTick + 1, clock })
      else currentTimeLoop p clock

/-- The block under `if (!inited)`: a reading is taken and not used. -/
def initCurrentTime (p : Process) : Except Stop Process :=
  if p.inited then .ok p
  else do
    let (_, p) ← nextSystemTime p
    return { p with idsThisTick := uidsPerTick, inited := true }

def getCurrentTime (p : Process) : Except Stop (UInt64 × Process) := do
  let p ← initCurrentTime p
  let (timeNow, p) ← currentTimeLoop p p.clock
  return (timeNow + p.idsThisTick.toUInt64, p)

/-- The value is a whole number of milliseconds, which a `double` holds exactly. -/
def getTickCount (ndebug : Bool) (answer : TimeOfDay) : Except Stop Int := do
  cAssert ndebug (answer.status = 0)
  return answer.tv.tvSec * 1000 + answer.tv.tvUsec.tdiv 1000

/-! ## Random values -/

/-- Advance a seed counter: it starts over only when it equals its limit. -/
def advanceCount (count limit : Int) : Except Stop Int :=
  if count = limit then .ok 0 else intSucc count

def srandSeed (timeNow : UInt64) : UInt32 :=
  let timeNow := timeNow / uidsPerTick.toUInt64
  (((timeNow >>> 32) ^^^ timeNow) &&& 0xffffffff).toUInt32

def seedRandom (p : Process) : Except Stop Process :=
  if p.rndSeedCount ≠ 0 then .ok p
  else do
    let (timeNow, p) ← nextSystemTime p
    return { p with trace := p.trace ++ [.srand (srandSeed timeNow)] }

def trueRandom (p : Process) : Except Stop (UInt16 × Process) := do
  let p ← seedRandom p
  let rndSeedCount ← advanceCount p.rndSeedCount p.maxRndSeed
  let draw := p.draws 0
  let tick ← getTickCount p.ndebug draw.timeOfDay
  let value := draw.rand + tick
  return (toUInt16 value draw.other,
    { p with
      rndSeedCount
      draws := fun k => p.draws (k + 1)
      trace := p.trace ++ [.convert value] })

/-! ## The memory seed -/

def nodeOf (bytes : List UInt8) : CuuidNode :=
  Vector.ofFn fun i : Fin 6 => bytes.getD i.val 0

def readSeedFile (file : RandFile) : Except Stop CuuidNode :=
  match file.content with
  | some content =>
      if content.length < 6 then .error .bail
      else if !file.closes then .error .bail
      else .ok (nodeOf content)
  | none =>
      let seed := file.seed.set 0 (file.seed[0] ||| 0x01)
      if file.opensForWriting && !file.writes then .error .bail
      else if file.opensForWriting && !file.closes then .error .bail
      else .ok (nodeOf seed.toList)

def loadMemorySeed (p : Process) : Except Stop Process :=
  if p.memSeedCount ≠ 0 then .ok p
  else do
    let savedNode ← readSeedFile (p.files 0)
    return { p with savedNode, files := fun k => p.files (k + 1) }

def getMemorySeed (p : Process) : Except Stop (CuuidNode × Process) := do
  let p ← loadMemorySeed p
  let memSeedCount ← advanceCount p.memSeedCount p.maxMemSeed
  return (p.savedNode, { p with memSeedCount })

end Quid
