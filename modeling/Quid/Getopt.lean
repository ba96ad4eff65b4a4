import Quid.Foundation.CString
import Quid.Foundation.Exchange
import Quid.Foundation.Run

/-!
# The option parser `win32_getopt.h`

The parser the utility is built with where the platform has none.  Its static
variables and the argument vector, which it permutes, are the state of a call.
Characters from 128 on are negative `char` values.  An argument is the list of
its characters without the NUL.
-/

namespace Quid

open Quid.Foundation
open Quid.Foundation.CString
open Quid.Foundation.Exchange

/-- Memory outside the argument vector or a string, a remainder by zero, a loop that goes on. -/
inductive Fault where
  | memory
  | division
  | unending
  deriving DecidableEq, Repr

inductive HasArg where
  | noArgument
  | requiredArgument
  | optionalArgument
  deriving DecidableEq, Repr

/-- `flag` is an address, or none where the source has `NULL`. -/
structure LongOption where
  name : Bytes
  hasArg : HasArg
  flag : Option Nat
  val : Int
  deriving DecidableEq, Repr

/--
A pointer to scanned characters: those from it up to the NUL, and whether it
still points to the first character of an argument.
-/
structure Cursor where
  text : Bytes
  first : Bool
  deriving DecidableEq, Repr

def emsg : Cursor := ⟨[], false⟩

def charInt (c : UInt8) : Int := c.toInt8.toInt

structure Report where
  optopt : Int
  optarg : Option Bytes
  idx : Option Nat
  stores : List (Nat × Int)
  stderr : Bytes
  deriving DecidableEq, Repr

structure Getopt where
  nargv : List Bytes
  optind : Nat
  optreset : Bool
  place : Cursor
  posixlyCorrect : Option Bool
  nonoptStart : Option Nat
  nonoptEnd : Option Nat
  report : Report
  deriving DecidableEq, Repr

/-- The values the static variables start with, and an index for the caller. -/
def Report.initial : Report := ⟨charInt (chr '?'), none, some 0, [], []⟩

def Getopt.initial (nargv : List Bytes) : Getopt where
  nargv := nargv
  optind := 1
  optreset := false
  place := emsg
  posixlyCorrect := none
  nonoptStart := none
  nonoptEnd := none
  report := .initial

structure Flags where
  permute : Bool
  allargs : Bool
  longonly : Bool
  deriving DecidableEq, Repr

/-- The arguments of a call besides the vector, and what it reads of its surroundings. -/
structure Call where
  options : Option Bytes
  longOptions : Option (List LongOption)
  opterr : Bool
  environment : Bool
  progname : Bytes
  deriving DecidableEq, Repr

def ascii (text : String) : Bytes := text.toList.map chr

def badch : Int := charInt (chr '?')

def badarg (options : Bytes) : Int :=
  if options.head? = some (chr ':') then charInt (chr ':') else charInt (chr '?')

def inorder : Int := 1

def strchr (options : Bytes) (c : UInt8) : Option Bytes :=
  match options.dropWhile (· ≠ c) with
  | [] => none
  | oli => some oli

def Getopt.readArg (s : Getopt) (i : Nat) : Except Fault (Option Bytes) :=
  if i ≤ s.nargv.length then .ok s.nargv[i]? else .error .memory

def warnx (call : Call) (options message : Bytes) (r : Report) : Report :=
  if call.opterr && options.head? ≠ some (chr ':') then
    { r with stderr := r.stderr ++ call.progname ++ ascii ": " ++ message ++ [chr '\n'] }
  else r

def recargchar (c : UInt8) : Bytes := ascii "option requires an argument -- " ++ [c]
def recargstring (text : Bytes) : Bytes := ascii "option requires an argument -- " ++ text
def ambig (text : Bytes) : Bytes := ascii "ambiguous option -- " ++ text
def noarg (text : Bytes) : Bytes := ascii "option doesn't take an argument -- " ++ text
def illoptchar (c : UInt8) : Bytes := ascii "unknown option -- " ++ [c]
def illoptstring (text : Bytes) : Bytes := ascii "unknown option -- " ++ text

/-! ## Permutation -/

def gcdLoop : Nat → Nat → Nat → Nat
  | 0, _, b => b
  | fuel + 1, a, b => if a % b = 0 then b else gcdLoop fuel b (a % b)

def gcd (a b : Nat) : Except Fault Nat :=
  if b = 0 then .error .division else .ok (gcdLoop b a b)

def permuteArgs (panonoptStart panonoptEnd optEnd : Nat) (nargv : List Bytes) :
    Except Fault (List Bytes) := do
  let nnonopts := panonoptEnd - panonoptStart
  let nopts := optEnd - panonoptEnd
  let ncycle ← gcd nnonopts nopts
  let cyclelen := (optEnd - panonoptStart) / ncycle
  let next pos := if pos ≥ panonoptEnd then pos - nnonopts else pos + nopts
  match cyclesLoop next panonoptEnd cyclelen ncycle nargv with
  | none => .error .memory
  | some nargv => .ok nargv

def Getopt.permuteSkipped (nonoptEnd : Nat) (s : Getopt) : Except Fault (Nat × Getopt) :=
  match s.nonoptStart with
  | none => .error .memory
  | some nonoptStart => do
      let nargv ← permuteArgs nonoptStart nonoptEnd s.optind s.nargv
      return (nonoptEnd - nonoptStart, { s with nargv })

/-! ## Long options -/

def identicalInterpretation (x y : LongOption) : Bool :=
  x.hasArg = y.hasArg && x.flag = y.flag && x.val = y.val

abbrev Matched := Option (Nat × LongOption) × Bool

def partialMatch (i : Nat) (o : LongOption) : Matched → Matched
  | (none, ambiguous) => (some (i, o), ambiguous)
  | (some (m, seen), ambiguous) =>
      (some (m, seen), if !identicalInterpretation o seen then true else ambiguous)

def matchLoop (name : Bytes) (shortToo : Bool) : Nat → List LongOption → Matched → Matched
  | _, [], matched => matched
  | i, o :: rest, matched =>
      if !name.isPrefixOf o.name then matchLoop name shortToo (i + 1) rest matched
      else if o.name.length = name.length then (some (i, o), false)
      else if shortToo && name.length = 1 then matchLoop name shortToo (i + 1) rest matched
      else matchLoop name shortToo (i + 1) rest (partialMatch i o matched)

def splitEqual (text : Bytes) : Bytes × Option Bytes :=
  (text.takeWhile (· ≠ chr '='), (strchr text (chr '=')).map (·.drop 1))

def answerMatch (o : LongOption) : Int := if o.flag = none then o.val else 0

/-- `if (has_arg == required_argument || has_arg == optional_argument)`. -/
def takeLongArgument (o : LongOption) (hasEqual : Option Bytes) (s : Getopt) :
    Except Fault Getopt :=
  match o.hasArg, hasEqual with
  | .noArgument, _ => .ok s
  | _, some argument => .ok { s with report.optarg := some argument }
  | .requiredArgument, none => do
      let argument ← s.readArg s.optind
      return { s with optind := s.optind + 1, report.optarg := argument }
  | .optionalArgument, none => .ok s

def reportMatch (m : Nat) (o : LongOption) (r : Report) : Report :=
  let r := { r with idx := r.idx.map fun _ => m }
  match o.flag with
  | some flag => { r with stores := r.stores ++ [(flag, o.val)] }
  | none => r

def parseLongOptions (call : Call) (options : Bytes) (longOptions : List LongOption)
    (shortToo : Bool) (s : Getopt) : Except Fault (Int × Getopt) := do
  let currentArgv := s.place.text
  let s := { s with optind := s.optind + 1 }
  let (name, hasEqual) := splitEqual currentArgv
  let (found, ambiguous) := matchLoop name shortToo 0 longOptions (none, false)
  if ambiguous then
    let report := warnx call options (ambig name) s.report
    return (badch, { s with report := { report with optopt := 0 } })
  match found with
  | some (m, o) =>
      if o.hasArg = .noArgument ∧ hasEqual.isSome then
        let report := warnx call options (noarg name) s.report
        return (badarg options, { s with report := { report with optopt := answerMatch o } })
      let s ← takeLongArgument o hasEqual s
      if o.hasArg = .requiredArgument ∧ s.report.optarg = none then
        let report := warnx call options (recargstring currentArgv) s.report
        return (badarg options,
          { s with optind := s.optind - 1, report := { report with optopt := answerMatch o } })
      return (answerMatch o, { s with report := reportMatch m o s.report })
  | none =>
      if shortToo then
        return (-1, { s with optind := s.optind - 1 })
      let report := warnx call options (illoptstring currentArgv) s.report
      return (badch, { s with report := { report with optopt := 0 } })

/-! ## Short options -/

/-- The argument of the option letter `c`; `oli` follows the letter's colon. -/
def takeShortArgument (call : Call) (options : Bytes) (nargc : Nat) (c : UInt8) (oli : Bytes)
    (s : Getopt) : Except Fault (Int × Getopt) := do
  let s := { s with report.optarg := none }
  if s.place.text ≠ [] then
    return (charInt c,
      { s with place := emsg, optind := s.optind + 1, report.optarg := some s.place.text })
  if oli.head? ≠ some (chr ':') then
    let s := { s with optind := s.optind + 1 }
    if s.optind ≥ nargc then
      let report := warnx call options (recargchar c) s.report
      return (badarg options,
        { s with place := emsg, report := { report with optopt := charInt c } })
    let argument ← s.readArg s.optind
    return (charInt c,
      { s with place := emsg, optind := s.optind + 1, report.optarg := argument })
  return (charInt c, { s with place := emsg, optind := s.optind + 1 })

def longAfterW (call : Call) (options : Bytes) (longOptions : List LongOption) (nargc : Nat)
    (c : UInt8) (s : Getopt) : Except Fault (Int × Getopt) := do
  if s.place.text ≠ [] then
    let (optchar, s) ← parseLongOptions call options longOptions false s
    return (optchar, { s with place := emsg })
  let s := { s with optind := s.optind + 1 }
  if s.optind ≥ nargc then
    let report := warnx call options (recargchar c) s.report
    return (badarg options,
      { s with place := emsg, report := { report with optopt := charInt c } })
  match ← s.readArg s.optind with
  | none => .error .memory
  | some argument =>
      let s := { s with place := ⟨argument, true⟩ }
      let (optchar, s) ← parseLongOptions call options longOptions false s
      return (optchar, { s with place := emsg })

def Getopt.passWord (s : Getopt) : Getopt :=
  if s.place.text = [] then { s with optind := s.optind + 1 } else s

def unknownOption (call : Call) (options : Bytes) (c : UInt8) (s : Getopt) : Int × Getopt :=
  if c = chr '-' ∧ s.place.text = [] then (-1, s)
  else
    let s := s.passWord
    let report := warnx call options (illoptchar c) s.report
    (badch, { s with report := { report with optopt := charInt c } })

/-- `oli` follows the letter in `options`. -/
def knownOption (call : Call) (options : Bytes) (nargc : Nat) (c : UInt8) (oli : Bytes)
    (s : Getopt) : Except Fault (Int × Getopt) :=
  match call.longOptions, decide (c = chr 'W' ∧ oli.head? = some (chr ';')) with
  | some longOptions, true => longAfterW call options longOptions nargc c s
  | _, _ =>
      if oli.head? ≠ some (chr ':') then .ok (charInt c, s.passWord)
      else takeShortArgument call options nargc c (oli.drop 1) s

def findShort (options : Bytes) (c : UInt8) (rest : Bytes) : Option Bytes :=
  if c = chr ':' ∨ (c = chr '-' ∧ rest ≠ []) then none else strchr options c

def shortOption (call : Call) (options : Bytes) (nargc : Nat) (s : Getopt) :
    Except Fault (Int × Getopt) :=
  match s.place.text with
  | [] => .error .memory
  | c :: rest =>
      let s := { s with place := ⟨rest, false⟩ }
      match findShort options c rest with
      | none => .ok (unknownOption call options c s)
      | some oli => knownOption call options nargc c (oli.drop 1) s

/-! ## One call -/

def longThenShort (call : Call) (options : Bytes) (longOptions : List LongOption) (nargc : Nat)
    (shortToo : Bool) (s : Getopt) : Except Fault (Int × Getopt) := do
  let (optchar, s) ← parseLongOptions call options longOptions shortToo s
  if optchar ≠ -1 then
    return (optchar, { s with place := emsg })
  shortOption call options nargc s

/-- From "Check long options" on: an option starts at `place`. -/
def optionAt (call : Call) (options : Bytes) (flags : Flags) (nargc : Nat) (s : Getopt) :
    Except Fault (Int × Getopt) :=
  match call.longOptions with
  | none => shortOption call options nargc s
  | some longOptions =>
      if s.place.first then shortOption call options nargc s
      else if s.place.text.head? = some (chr '-') then
        longThenShort call options longOptions nargc false
          { s with place := ⟨s.place.text.drop 1, false⟩ }
      else if flags.longonly then
        let shortToo := s.place.text.head? ≠ some (chr ':') &&
          s.place.text.head?.any (options.contains ·)
        longThenShort call options longOptions nargc shortToo s
      else shortOption call options nargc s

inductive Scan where
  | again (s : Getopt)
  | answer (value : Int) (s : Getopt)
  | option (s : Getopt)
  deriving DecidableEq, Repr

/-- The end of the vector, and the argument `--`: the skipped arguments go behind the options. -/
def finishScan (s : Getopt) : Except Fault Scan :=
  match s.nonoptEnd with
  | some nonoptEnd => do
      let (skipped, s) ← s.permuteSkipped nonoptEnd
      return .answer (-1)
        { s with optind := s.optind - skipped, nonoptStart := none, nonoptEnd := none }
  | none =>
      .ok (.answer (-1) { s with nonoptStart := none, nonoptEnd := none })

def scanOperand (flags : Flags) (argument : Bytes) (s : Getopt) : Except Fault Scan :=
  let s := { s with place := emsg }
  if flags.allargs then
    .ok (.answer inorder { s with optind := s.optind + 1, report.optarg := some argument })
  else if !flags.permute then .ok (.answer (-1) s)
  else
    match s.nonoptStart, s.nonoptEnd with
    | none, _ => .ok (.again { s with nonoptStart := some s.optind, optind := s.optind + 1 })
    | some _, none => .ok (.again { s with optind := s.optind + 1 })
    | some _, some nonoptEnd => do
        let (skipped, s) ← s.permuteSkipped nonoptEnd
        return .again { s with
          nonoptStart := some (s.optind - skipped), nonoptEnd := none, optind := s.optind + 1 }

def Getopt.opened (s : Getopt) : Getopt :=
  if s.nonoptStart ≠ none ∧ s.nonoptEnd = none then { s with nonoptEnd := some s.optind } else s

def dashes : Bytes := [chr '-', chr '-']

def scanOption (argument : Bytes) (s : Getopt) : Except Fault Scan :=
  let s := s.opened
  if argument = dashes then
    finishScan { s with optind := s.optind + 1, place := emsg }
  else if argument.length = 1 then .ok (.option { s with place := ⟨argument, true⟩ })
  else .ok (.option { s with place := ⟨argument.drop 1, false⟩ })

def isOperand (options argument : Bytes) : Bool :=
  argument.head? ≠ some (chr '-') || (argument.length = 1 && !options.contains (chr '-'))

/-- From the label `start` to a `goto` there, a `return`, or "Check long options". -/
def scanPass (options : Bytes) (flags : Flags) (nargc : Nat) (s : Getopt) : Except Fault Scan :=
  if s.optreset ∨ s.place.text = [] then
    let s := { s with optreset := false }
    if s.optind ≥ nargc then
      let s := { s with place := emsg }
      match s.nonoptStart, s.nonoptEnd with
      | some nonoptStart, none => finishScan { s with optind := nonoptStart }
      | _, _ => finishScan s
    else do
      match ← s.readArg s.optind with
      | none => .error .memory
      | some argument =>
          if isOperand options argument then scanOperand flags argument s
          else scanOption argument s
  else .ok (.option s)

/-- Every `goto start` has passed one more argument. -/
def scan (options : Bytes) (flags : Flags) (nargc : Nat) : Nat → Getopt → Except Fault Scan
  | 0, _ => .error .unending
  | fuel + 1, s => do
      match ← scanPass options flags nargc s with
      | .again s => scan options flags nargc fuel s
      | reached => .ok reached

def callFlags (options : Bytes) (posixlyCorrect : Bool) (flags : Flags) : Flags :=
  if options.head? = some (chr '-') then { flags with allargs := true }
  else if posixlyCorrect ∨ options.head? = some (chr '+') then { flags with permute := false }
  else flags

def callOptions (options : Bytes) : Bytes :=
  if options.head? = some (chr '+') ∨ options.head? = some (chr '-') then options.drop 1
  else options

/-- The entry of a call: `optind` 0 and `optreset` start anew, and `optarg` is cleared. -/
def enterCall (call : Call) (s : Getopt) : Getopt :=
  let s := if s.optind = 0 then { s with optind := 1, optreset := true } else s
  let s := if s.posixlyCorrect = none ∨ s.optreset then
    { s with posixlyCorrect := some call.environment } else s
  let s := { s with report.optarg := none }
  if s.optreset then { s with nonoptStart := none, nonoptEnd := none } else s

def afterScan (call : Call) (options : Bytes) (flags : Flags) (nargc : Nat) :
    Scan → Except Fault (Int × Getopt)
  | .again _ => .error .unending
  | .answer value s => .ok (value, s)
  | .option s => optionAt call options flags nargc s

def getoptInternal (call : Call) (flags : Flags) (s : Getopt) : Except Fault (Int × Getopt) :=
  match call.options with
  | none => .ok (-1, s)
  | some options => do
      let s := enterCall call s
      let flags := callFlags options (s.posixlyCorrect = some true) flags
      let options := callOptions options
      let nargc := s.nargv.length
      let reached ← scan options flags nargc (nargc + 1) s
      afterScan call options flags nargc reached

def getopt (call : Call) (s : Getopt) : Except Fault (Int × Getopt) :=
  getoptInternal { call with longOptions := none } ⟨false, false, false⟩
    { s with report.idx := none }

def getoptLong (call : Call) : Getopt → Except Fault (Int × Getopt) :=
  getoptInternal call ⟨true, false, false⟩

def getoptLongOnly (call : Call) : Getopt → Except Fault (Int × Getopt) :=
  getoptInternal call ⟨true, false, true⟩

end Quid
