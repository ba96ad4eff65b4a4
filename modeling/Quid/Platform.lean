import Quid.Foundation.Run
import Mathlib.Tactic

/-!
# What the platform gives the library

The library runs in a C process on a POSIX system with LP64 types: `long` and
`time_t` have 64 bits and `int` has 32.  This file holds the ways in which a call
can end the process, the answers of the system calls the library makes, and the
C conversions whose result is not fixed by the value alone.
-/

namespace Quid

/--
Why a call does not return to its caller: a failed `assert`,
`FATAL_ERROR_BAIL()`, `abort()`, signed arithmetic that leaves its type, or a clock
that gives no further reading to a call that still asks for the time.
-/
inductive Stop where
  | assertion
  | bail
  | abort
  | overflow
  | waiting
  deriving DecidableEq, Repr

/-- `assert`: compiled out when `NDEBUG` is defined. -/
def cAssert (ndebug condition : Bool) : Except Stop Unit :=
  if ndebug || condition then .ok () else .error .assertion

@[simp] theorem cAssert_true (ndebug : Bool) : cAssert ndebug true = .ok () := by
  simp [cAssert]

@[simp] theorem cAssert_eq_ok {ndebug condition : Bool} {u : Unit} :
    cAssert ndebug condition = .ok u ↔ ndebug = true ∨ condition = true := by
  simp [cAssert, imp_iff_or_not, or_comm]

def intMax : Int := 2147483647

def intSucc (x : Int) : Except Stop Int :=
  if x = intMax then .error .overflow else .ok (x + 1)

def intMin : Int := -2147483648

def intMul (x y : Int) : Except Stop Int :=
  if intMin ≤ x * y ∧ x * y ≤ intMax then .ok (x * y) else .error .overflow

def int64Mul (x y : Int) : Except Stop Int :=
  if -9223372036854775808 ≤ x * y ∧ x * y ≤ 9223372036854775807 then .ok (x * y)
  else .error .overflow

structure Timeval where
  tvSec : Int
  tvUsec : Int
  deriving DecidableEq, Repr

structure TimeOfDay where
  status : Int
  tv : Timeval
  deriving DecidableEq, Repr

/--
What the system does with `.rnd` when the memory seed is due: the content when
the file opens for reading, the bytes that happen to lie in `seed` when it does
not, and which of the later operations succeed.
-/
structure RandFile where
  content : Option (List UInt8)
  seed : Vector UInt8 16
  opensForWriting : Bool
  writes : Bool
  closes : Bool
  deriving DecidableEq, Repr

/-! ## Conversions -/

theorem uint64_ofInt_toNat {n : Nat} (h : n < 2 ^ 64) : (UInt64.ofInt n).toNat = n := by
  rw [UInt64.ofInt, UInt64.toNat_ofNat']
  omega

theorem uint16_ofInt_toNat {n : Nat} (h : n < 2 ^ 16) : (UInt16.ofInt n).toNat = n := by
  rw [UInt16.ofInt, UInt16.toNat_ofNat']
  omega

theorem uint8_ofInt_toNat {n : Nat} (h : n < 2 ^ 8) : (UInt8.ofInt n).toNat = n := by
  rw [UInt8.ofInt, UInt8.toNat_ofNat']
  omega

theorem uint64_ofInt_self (word : UInt64) : UInt64.ofInt word.toNat = word :=
  UInt64.toNat_inj.mp (uint64_ofInt_toNat word.toNat_lt)

theorem uint16_ofInt_self (word : UInt16) : UInt16.ofInt word.toNat = word :=
  UInt16.toNat_inj.mp (uint16_ofInt_toNat word.toNat_lt)

theorem uint8_ofInt_self (word : UInt8) : UInt8.ofInt word.toNat = word :=
  UInt8.toNat_inj.mp (uint8_ofInt_toNat word.toNat_lt)

/--
Conversion of an integral `double` to `uint16_t`.  A value the type cannot
represent has no defined result; `other` stands for what the target leaves.
-/
def toUInt16 (value : Int) (other : UInt16) : UInt16 :=
  if 0 ≤ value ∧ value ≤ 65535 then UInt16.ofInt value else other

end Quid
