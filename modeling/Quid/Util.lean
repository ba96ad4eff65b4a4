import Quid.Cuuid
import Quid.Foundation.CString

/-!
# The utility `quidutil.c`

How `main` writes an identifier and how it waits between two of them.  A stream
is the bytes written to it so far.
-/

namespace Quid

open Quid.Foundation
open Quid.Foundation.CString

/-! ## Output -/

def fprintf (fp text : Bytes) : Bytes := fp ++ text

def quidPrintFileHex (fp : Bytes) (u : Cuuid) : Bytes :=
  let fp := fprintf fp (hexText 1 u.timeLow.toUInt32.toNat)
  let fp := fprintf fp (hexText 1 u.timeMid.toNat)
  let fp := fprintf fp (hexText 1 u.timeHiAndVersion.toNat)
  let fp := fprintf fp (hexText 1 u.clockSeqHiAndReserved.toNat)
  let fp := fprintf fp (hexText 1 u.clockSeqLow.toNat)
  let fp := fprintf fp (hexText 1 (u.node.get 0).toNat)
  let fp := fprintf fp (hexText 1 (u.node.get 1).toNat)
  let fp := fprintf fp (hexText 1 (u.node.get 2).toNat)
  let fp := fprintf fp (hexText 1 (u.node.get 3).toNat)
  let fp := fprintf fp (hexText 1 (u.node.get 4).toNat)
  let fp := fprintf fp (hexText 1 (u.node.get 5).toNat)
  fprintf fp [chr '\n']

/-- `time_low` is printed as a `long`. -/
def quidPrintFileDec (fp : Bytes) (u : Cuuid) : Bytes :=
  let fp := fprintf fp (decText u.timeLow.toInt64.toInt)
  let fp := fprintf fp (decText u.timeMid.toNat)
  let fp := fprintf fp (decText u.timeHiAndVersion.toNat)
  let fp := fprintf fp (decText u.clockSeqHiAndReserved.toNat)
  let fp := fprintf fp (decText u.clockSeqLow.toNat)
  let fp := fprintf fp (decText (u.node.get 0).toNat)
  let fp := fprintf fp (decText (u.node.get 1).toNat)
  let fp := fprintf fp (decText (u.node.get 2).toNat)
  let fp := fprintf fp (decText (u.node.get 3).toNat)
  let fp := fprintf fp (decText (u.node.get 4).toNat)
  let fp := fprintf fp (decText (u.node.get 5).toNat)
  fprintf fp [chr '\n']

def quidPrintFileHexBracket (fp : Bytes) (u : Cuuid) : Bytes :=
  let fp := fprintf fp [chr '{']
  let fp := fprintf fp (hexText 8 u.timeLow.toUInt32.toNat ++ [chr '-'])
  let fp := fprintf fp (hexText 4 u.timeMid.toNat ++ [chr '-'])
  let fp := fprintf fp (hexText 4 u.timeHiAndVersion.toNat ++ [chr '-'])
  let fp := fprintf fp (hexText 1 u.clockSeqHiAndReserved.toNat)
  let fp := fprintf fp (hexText 2 u.clockSeqLow.toNat ++ [chr '-'])
  let fp := fprintf fp (hexText 2 (u.node.get 0).toNat)
  let fp := fprintf fp (hexText 2 (u.node.get 1).toNat)
  let fp := fprintf fp (hexText 2 (u.node.get 2).toNat)
  let fp := fprintf fp (hexText 2 (u.node.get 3).toNat)
  let fp := fprintf fp (hexText 2 (u.node.get 4).toNat)
  let fp := fprintf fp (hexText 2 (u.node.get 5).toNat)
  fprintf fp [chr '}', chr '\n']

def printFormatHexBacket : Int := 0
def printFormatHex : Int := 1
def printFormatDec : Int := 2

def quidPrintFile (fp : Bytes) (u : Cuuid) (format : Int) : Bytes :=
  if format = printFormatHex then quidPrintFileHex fp u
  else if format = printFormatDec then quidPrintFileDec fp u
  else quidPrintFileHexBracket fp u

/-! ## Waiting -/

structure Timespec where
  tvSec : Int
  tvNsec : Int
  deriving DecidableEq, Repr

def qusleep (usec : Int) : Except Stop Timespec := do
  let nsec ← int64Mul usec 1000
  return ⟨0, nsec⟩

/-- `if (delay)` in the loop of `main`: the sleep asked for, if there is one. -/
def mainDelay (delay : Int) : Except Stop (Option Timespec) :=
  if delay ≠ 0 then do
    let usec ← intMul delay 1000
    let tm ← qusleep usec
    return some tm
  else .ok none

end Quid
