import Quid.Platform

/-!
# The clocks of a Windows build

On Windows the library and the utility bring a `gettimeofday` of their own each.
Both read the system time and convert it to a count of 100 ns units; `long` has
32 bits there.
-/

namespace Quid

structure SystemTime where
  wYear : UInt16
  wMonth : UInt16
  wDayOfWeek : UInt16
  wDay : UInt16
  wHour : UInt16
  wMinute : UInt16
  wSecond : UInt16
  wMilliseconds : UInt16
  deriving DecidableEq, Repr

structure FileTime where
  dwLowDateTime : UInt32
  dwHighDateTime : UInt32
  deriving DecidableEq, Repr

/-- `(long)` of a `uint64_t`: the low 32 bits, signed. -/
def toLong (value : UInt64) : Int := value.toUInt32.toInt32.toInt

def fileTimeCount (fileTime : FileTime) : UInt64 :=
  let time := fileTime.dwLowDateTime.toUInt64
  time + (fileTime.dwHighDateTime.toUInt64 <<< 32)

def epochDiff : UInt64 := 116444736000000000

def epoch : UInt64 := 11644473600

section

variable (systemTimeToFileTime : SystemTime → FileTime)

def win32Gettimeofday (ndebug : Bool) (systemTime : SystemTime) : Except Stop TimeOfDay := do
  let time := fileTimeCount (systemTimeToFileTime systemTime)
  let tvSec := toLong ((time - epochDiff) / 10000000)
  let tvUsec : Int := systemTime.wMilliseconds.toNat * 1000
  cAssert ndebug (tvSec > 1000000000)
  return ⟨0, ⟨tvSec, tvUsec⟩⟩

def utilGettimeofday (systemTime : SystemTime) : TimeOfDay :=
  let time := fileTimeCount (systemTimeToFileTime systemTime)
  let tvSec := toLong ((time - epoch) / 10000000)
  let tvUsec : Int := systemTime.wMilliseconds.toNat * 1000
  ⟨0, ⟨tvSec, tvUsec⟩⟩

end

end Quid
