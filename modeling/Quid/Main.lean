import Quid.Access
import Quid.Create
import Quid.Getopt
import Quid.Text
import Quid.Util

/-!
# The program `quidutil`

`main` reads its options one after another, then either checks the identifiers it
was given or makes new ones.  What it prints is the bytes written to its streams;
the texts of a broken-down time and of the `double` values are the C library's.
-/

namespace Quid

open Quid.Foundation.CString
open Quid.Foundation.Numeral

/-! ## Flags and categories -/

def idfNull : UInt8 := 0x00
def idfPublic : UInt8 := 0x01
def idfIdsafe : UInt8 := 0x02
def idfMaster : UInt8 := 0x04
def idfSigned : UInt8 := 0x08
def idfTagged : UInt8 := 0x20
def idfStrict : UInt8 := 0x40

def flagPublic : UInt8 := (1 : UInt8) <<< 0
def flagIdsafe : UInt8 := (1 : UInt8) <<< 1
def flagMaster : UInt8 := (1 : UInt8) <<< 2
def flagSigned : UInt8 := (1 : UInt8) <<< 3
def flagTagged : UInt8 := (1 : UInt8) <<< 5
def flagStrict : UInt8 := (1 : UInt8) <<< 6

def clsCmon : UInt8 := 0x1
def clsInfo : UInt8 := 0x2
def clsWarn : UInt8 := 0x3
def clsError : UInt8 := 0x4

def categoryName (cat : UInt8) : Bytes :=
  if cat = clsCmon then ascii "Common"
  else if cat = clsInfo then ascii "Info"
  else if cat = clsWarn then ascii "Warning"
  else if cat = clsError then ascii "Error"
  else ascii "Unknown"

/-! ## The ways out -/

/-- What has been written when `main` is left: `file` is `fp`, `none` where it is `NULL`. -/
structure Output where
  stdout : Bytes
  file : Option Bytes
  sleeps : List Timespec
  deriving DecidableEq, Repr

def Output.empty : Output := ⟨[], none, []⟩

inductive Exit where
  | returned (status : Int) (out : Output)
  | stopped (reason : Stop)
  | faulted (fault : Fault)
  deriving DecidableEq, Repr

/-- `return status` among the options, where nothing else has been printed. -/
def leave {α : Type} (status : Int) (text : Bytes) : Except Exit α :=
  .error (.returned status { Output.empty with stdout := text })

/-! ## Numbers -/

def isdigit (c : UInt8) : Bool := chr '0' ≤ c && c ≤ chr '9'

def decimalNumber (memory : Bytes) : Int :=
  let (negative, text) := skipSign ((cString memory).dropWhile isspace)
  let magnitude : Int := value 10 ((text.takeWhile isdigit).map hexValue)
  if negative then -magnitude else magnitude

/-- A number that the type cannot represent has no defined result. -/
def atoi (memory : Bytes) : Except Exit Int :=
  let number := decimalNumber memory
  if intMin ≤ number ∧ number ≤ intMax then .ok number else .error (.stopped .overflow)

def atoll (memory : Bytes) : Except Exit Int :=
  let number := decimalNumber memory
  if longMin ≤ number ∧ number ≤ longMax then .ok number else .error (.stopped .overflow)

/-! ## Options -/

structure Settings where
  cuuid : Cuuid
  n : UInt64
  fname : Option Bytes
  fout : Bool
  nout : Bool
  fmat : Int
  vbose : Bool
  tag : TagText
  delay : Int
  flg : UInt8
  cat : UInt8
  process : Process

/-- `uninitialized` is what lies in `cuuid`, of which only the version is set. -/
def Settings.initial (uninitialized : Cuuid) (process : Process) : Settings where
  cuuid := { uninitialized with version := quidRev7 }
  n := 1
  fname := none
  fout := false
  nout := false
  fmat := printFormatHexBacket
  vbose := false
  tag := Vector.replicate 3 0
  delay := 0
  flg := idfNull
  cat := clsCmon
  process := process

def longOption (name : String) (hasArg : HasArg) (val : Int) : LongOption :=
  ⟨ascii name, hasArg, none, val⟩

/-- `long_options` without the element that ends it. -/
def mainLongOptions : List LongOption :=
  [longOption "category" .requiredArgument 0,
    longOption "set-safe" .noArgument 0,
    longOption "set-master" .noArgument 0,
    longOption "set-public" .noArgument 0,
    longOption "set-sign" .noArgument 0,
    longOption "set-tag" .noArgument 0,
    longOption "set-strict" .noArgument 0,
    longOption "list-categories" .noArgument 0,
    longOption "rev" .requiredArgument 0,
    longOption "tag" .requiredArgument 0,
    longOption "rand-seed" .requiredArgument 0,
    longOption "memory-seed" .requiredArgument 0,
    longOption "output-hex" .noArgument (charInt (chr 'x')),
    longOption "output-number" .noArgument (charInt (chr 'i')),
    longOption "verbose" .noArgument (charInt (chr 'V')),
    longOption "version" .noArgument (charInt (chr 'v')),
    longOption "help" .noArgument (charInt (chr 'h'))]

def mainShortOptions : Bytes := ascii "c:d:o:qxivVh"

def mainCall (environment : Bool) (progname : Bytes) : Call where
  options := some mainShortOptions
  longOptions := some mainLongOptions
  opterr := true
  environment := environment
  progname := progname

structure Config where
  projectName : Bytes
  projectVersion : Bytes
  projectAuthor : Bytes
  projectBugreport : Bytes
  projectCompileYear : Bytes
  deriving DecidableEq, Repr

def usage (config : Config) : Bytes :=
  ascii "Usage: " ++ config.projectName ++ ascii " [OPTIONS] identifier...\n" ++
  ascii "QUID generation and validation tool.\n" ++
  ascii "\nOptions:\n" ++
  ascii "  -c <count>               Number of identifiers\n" ++
  ascii "  -d <ms>                  Delay between generation in miliseconds\n" ++
  ascii "  --rand-seek=<cycles>     Reinitialize rand seed per <cycles>\n" ++
  ascii "  --memory-seed=<cycles>   Reinitialize memory seed per <cycles>\n" ++
  ascii "\nGeneration:\n" ++
  ascii "  --rev=<version>          Select identifier version\n" ++
  ascii "  --list-categories        Show all categories\n" ++
  ascii "  --tag=<tag>              Set tag\n" ++
  ascii "  --category=<index>       Set identifier with category\n" ++
  ascii "  --set-public             Set public flag\n" ++
  ascii "  --set-safe               Set safety flag\n" ++
  ascii "  --set-master             Set master flag\n" ++
  ascii "  --set-sign               Set signed flag\n" ++
  ascii "  --set-tag                Set tagging flag\n" ++
  ascii "  --set-strict             Set strict data flag\n" ++
  ascii "\nOutput:\n" ++
  ascii "  -o <file>                Output to <file>\n" ++
  ascii "  -x, --output-hex         Output identifier as hexadecimal\n" ++
  ascii "  -i, --output-number      Output identifier as number\n" ++
  ascii "  -q                       Silent, no output shown on screen\n" ++
  ascii "\n" ++
  ascii "  -V, --verbose            Output verbose information\n" ++
  ascii "  -v, --version            Show version\n" ++
  ascii "  -h, --help               Show this help\n\n" ++
  ascii "Report bugs to <" ++ config.projectBugreport ++ ascii ">\n"

def printVersion (config : Config) : Bytes :=
  ascii "QUID Generator " ++ config.projectVersion ++ ascii "\n" ++
  ascii "Copyright (C) " ++ config.projectCompileYear ++ ascii " " ++ config.projectAuthor ++
  ascii "\n" ++
  ascii "Report bugs to <" ++ config.projectBugreport ++ ascii ">\n"

/-- `optarg`, where the code reads it without a test. -/
def optargOf (r : Report) : Except Exit Bytes :=
  match r.optarg with
  | some argument => .ok argument
  | none => .error (.faulted .memory)

def setRev (argument : Bytes) (s : Settings) : Except Exit Settings := do
  let rev ← atoi argument
  if rev = 4 then return { s with cuuid.version := quidRev4 }
  else if rev = 7 then return { s with cuuid.version := quidRev7 }
  else leave 1 (ascii "supported revisions: 4, 7\n")

def seeHelp : Bytes := ascii "see --help for more information\n"

def setTag (argument : Bytes) (s : Settings) : Except Exit Settings :=
  match argument with
  | [first, second, third] => .ok { s with tag := #v[first, second, third] }
  | _ =>
      leave 1 (ascii "tag must be exactly 3 characters, " ++ decText argument.length ++
        ascii " given\n" ++ seeHelp)

def categoryLine (cat : UInt8) : Bytes :=
  decText cat.toNat ++ ascii ") " ++ categoryName cat ++ ascii "\n"

def listCategories : Bytes :=
  categoryLine clsCmon ++ categoryLine clsInfo ++ categoryLine clsWarn ++ categoryLine clsError

/-- `cat` is a `char`: the number is cut to eight bits before it is checked. -/
def setCategory (argument : Bytes) (s : Settings) : Except Exit Settings := do
  let number ← atoi argument
  let cat := UInt8.ofInt number
  if cat = clsCmon ∨ cat = clsInfo ∨ cat = clsWarn ∨ cat = clsError then
    return { s with cat }
  else leave 1 (ascii "unknown category " ++ decText (charInt cat) ++ ascii "\n" ++ seeHelp)

def setFlag (flag : UInt8) (s : Settings) : Settings := { s with flg := s.flg ||| flag }

/-- `case 0`: a long option without a letter, by its name. -/
def longCase (name : Bytes) (r : Report) (s : Settings) : Except Exit Settings :=
  if name = ascii "rand-seed" then do
    let cycles ← atoi (← optargOf r)
    return { s with process := quidSetRndSeed cycles s.process }
  else if name = ascii "memory-seed" then do
    let cycles ← atoi (← optargOf r)
    return { s with process := quidSetMemSeed cycles s.process }
  else if name = ascii "rev" then do setRev (← optargOf r) s
  else if name = ascii "tag" then do setTag (← optargOf r) s
  else if name = ascii "list-categories" then leave 0 listCategories
  else if name = ascii "set-safe" then .ok (setFlag idfIdsafe s)
  else if name = ascii "set-public" then .ok (setFlag idfPublic s)
  else if name = ascii "set-master" then .ok (setFlag idfMaster s)
  else if name = ascii "set-tag" then .ok (setFlag idfTagged s)
  else if name = ascii "set-strict" then .ok (setFlag idfStrict s)
  else if name = ascii "set-sign" then .ok (setFlag idfSigned s)
  else if name = ascii "category" then do setCategory (← optargOf r) s
  else .ok s

/-- `long_options[option_index].name`; the element that ends the table has none. -/
def optionName (r : Report) : Except Exit Bytes :=
  match r.idx.bind (mainLongOptions[·]?) with
  | some o => .ok o.name
  | none => .error (.faulted .memory)

def mainSwitch (config : Config) (c : Int) (r : Report) (s : Settings) : Except Exit Settings :=
  if c = 0 then do longCase (← optionName r) r s
  else if c = charInt (chr 'c') then do
    let count ← atoll (← optargOf r)
    return { s with n := UInt64.ofInt count }
  else if c = charInt (chr 'd') then do
    let delay ← atoi (← optargOf r)
    return { s with delay }
  else if c = charInt (chr 'o') then .ok { s with fname := r.optarg, fout := true }
  else if c = charInt (chr 'x') then .ok { s with fmat := printFormatHex }
  else if c = charInt (chr 'i') then .ok { s with fmat := printFormatDec }
  else if c = charInt (chr 'q') then .ok { s with nout := true }
  else if c = charInt (chr 'V') then .ok { s with vbose := true }
  else if c = charInt (chr 'v') then leave 0 (printVersion config)
  else leave 0 (usage config)

def mainOptions (config : Config) (call : Call) :
    Nat → Getopt → Settings → Except Exit (Settings × Getopt)
  | 0, _, _ => .error (.faulted .unending)
  | fuel + 1, parser, s => do
      let (c, parser) ← (getoptLong call
        { parser with report.idx := parser.report.idx.map fun _ => 0 }).mapError .faulted
      if c = -1 then
        return (s, parser)
      let s ← mainSwitch config c parser.report s
      mainOptions config call fuel parser s

def mainFuel (argv : List Bytes) : Nat := (argv.map (·.length + 1)).sum + 1

/-! ## Identifiers that are given -/

structure Surroundings where
  /-- `asctime(gmtime(&sec))` -/
  asctime : Int → Bytes
  /-- `%f` of `usec / 1000.0` -/
  milliseconds : Int → Bytes
  /-- what lies behind the three bytes `quid_tag` returns the address of -/
  behindTag : Bytes
  /-- what lies in `structure` and `rev` before they are set -/
  unsetStructure : Bytes
  unsetRev : Bytes

def tagString (around : Surroundings) : TagResult → Bytes
  | .literal text => ascii text
  | .tag bytes => cString (bytes.toList ++ around.behindTag)

def flagLine (sflag flag : UInt8) (name : String) : Bytes :=
  if sflag &&& flag ≠ 0 then ascii " * " ++ ascii name ++ ascii "\n" else []

def revisionNames (around : Surroundings) (version : UInt8) : Int × Bytes × Bytes :=
  if version = quidRev4 then (4, ascii "memgrep", ascii "REV2012")
  else if version = quidRev7 then (7, ascii "ChaCha/4", ascii "REV2017")
  else (0, around.unsetStructure, around.unsetRev)

def rule : Bytes := List.replicate 45 (chr '-') ++ [chr '\n']

def reportText (healthy : Bool) (timestamp microtime : Bytes) (revision : Int × Bytes × Bytes)
    (tag : Bytes) (category sflag : UInt8) : Bytes :=
  rule ++
    ascii "Health          : " ++ (if healthy then ascii "OK" else ascii "INVALID") ++
    ascii "\nTimestamp (UTC) : " ++ timestamp ++
    ascii "Microtime       : " ++ microtime ++
    ascii "ms\nStructure       : " ++ revision.2.1 ++
    ascii "\nCuuid version   : " ++ decText revision.1 ++ ascii " (" ++ revision.2.2 ++
    ascii ")\nTag             : " ++ tag ++
    ascii "\nCategory        : " ++ categoryName category ++
    ascii "\nFlags           :\n" ++
    flagLine sflag flagPublic "Public" ++ flagLine sflag flagIdsafe "Safe" ++
    flagLine sflag flagMaster "master" ++ flagLine sflag flagSigned "Signed" ++
    flagLine sflag flagTagged "Tagged" ++ flagLine sflag flagStrict "Strict" ++ rule

def inputVerbose (around : Surroundings) (ndebug : Bool) (u : Cuuid) : Except Stop Bytes := do
  let revision := revisionNames around u.version
  let (healthy, validated) := quidValidate (some u)
  let u := validated.getD u
  let timestamp ← quidTimestamp (fun sec => some (around.asctime sec)) (some u)
  let microtime ← quidMicrotime (some u)
  let tag ← quidTag ndebug (some u)
  let category ← quidCategory ndebug (some u)
  let flag ← quidFlag ndebug (some u)
  return reportText (healthy ≠ .error) (timestamp.getD []) (around.milliseconds microtime)
    revision (tagString around tag) category (flag ^^^ idfNull)

/-- One turn of `while (optind < argc)`, with `uuid` and what has been printed. -/
def checkOperand (around : Surroundings) (ndebug vbose : Bool) (state : Cuuid × Bytes)
    (argument : Bytes) : Except Stop (Cuuid × Bytes) := do
  let stdout := fprintf state.2 (argument ++ [chr '\t'])
  let (result, _, parsed) := quidParse (some (argument ++ [0])) (some state.1)
  let uuid := parsed.getD state.1
  if result = .error then
    return (uuid, fprintf stdout (ascii "INVALID\n"))
  let stdout := fprintf stdout (ascii "VALID\n")
  if vbose then
    let report ← inputVerbose around ndebug uuid
    return (uuid, fprintf stdout report)
  return (uuid, stdout)

def checkOperands (around : Surroundings) (ndebug vbose : Bool) (uuid : Cuuid)
    (operands : List Bytes) : Except Stop Bytes := do
  let (_, stdout) ← operands.foldlM (checkOperand around ndebug vbose) (uuid, [])
  return stdout

/-! ## New identifiers -/

inductive Found where
  | nothing
  | directory
  | other
  deriving DecidableEq, Repr

structure FileSystem where
  stat : Bytes → Found
  fopens : Bytes → Bool

def checkFname (fs : FileSystem) (pathname : Bytes) : Int :=
  match fs.stat pathname with
  | .nothing => 0
  | .directory => 1
  | .other => 2

/-- The stream `fp`: the file is new, so it starts empty. -/
def openOutput (fs : FileSystem) (s : Settings) : Except Exit (Option Bytes) :=
  if !s.fout then .ok none
  else
    match s.fname with
    | none => .error (.faulted .memory)
    | some fname =>
        let rtn := checkFname fs fname
        if rtn = 0 then
          if fs.fopens fname then .ok (some [])
          else leave 1 (fname ++ ascii " is not writable\n")
        else if rtn = 1 then leave 1 (fname ++ ascii " is a directory\n")
        else leave 1 (fname ++ ascii " already exists\n")

def quidPrint (stdout : Bytes) (u : Cuuid) (format : Int) : Bytes :=
  quidPrintFile stdout u format

def showIdentifier (s : Settings) (cuuid : Cuuid) (out : Output) : Output :=
  if !s.fout then
    if !s.nout then { out with stdout := quidPrint out.stdout cuuid s.fmat } else out
  else { out with file := out.file.map fun fp => quidPrintFile fp cuuid s.fmat }

structure Generation where
  i : Nat
  cuuid : Cuuid
  process : Process
  out : Output

/-- The `for` loop with so many turns to go; `intflag` is read once in each. -/
def generateLoop (s : Settings) (intflag : Nat → Bool) :
    Nat → Generation → Except Stop Generation
  | 0, g => .ok g
  | turns + 1, g => do
      cAssert g.process.ndebug (s.cat ≠ 0)
      let ((_, cuuid), process) ← quidCreate g.process (some g.cuuid) s.flg s.cat (some s.tag)
      let cuuid := cuuid.getD g.cuuid
      if intflag g.i then
        return { g with cuuid, process }
      let out := showIdentifier s cuuid g.out
      let slept ← mainDelay s.delay
      let out := { out with sleeps := out.sleeps ++ slept.toList }
      generateLoop s intflag turns ⟨g.i + 1, cuuid, process, out⟩

/-- `cpu` and `elapsed` are the two numbers of seconds, as `%0.2f` writes them. -/
def printVerbose (cpu elapsed : Bytes) (i : Nat) (delay : Int) : Bytes :=
  let line := List.replicate 29 (chr '-') ++ [chr '\n']
  line ++ ascii "Generated " ++ decText i ++ ascii " identifiers\nUsed " ++ cpu ++
    ascii " seconds of CPU time\nFinished in about " ++ elapsed ++ ascii " seconds\nDelayed " ++
    decText delay ++ ascii " miliseconds\n" ++ line

def generate (fs : FileSystem) (intflag : Nat → Bool) (cpu elapsed : Bytes) (s : Settings) :
    Except Exit Output := do
  let file ← openOutput fs s
  let g ← (generateLoop s intflag s.n.toNat
    ⟨0, s.cuuid, s.process, { Output.empty with file }⟩).mapError .stopped
  if s.vbose then
    return { g.out with stdout := g.out.stdout ++ printVerbose cpu elapsed g.i s.delay }
  return g.out

/-! ## The program -/

structure World where
  config : Config
  around : Surroundings
  fs : FileSystem
  intflag : Nat → Bool
  cpu : Bytes
  elapsed : Bytes
  /-- what lies in the two structures of `main` before they are written -/
  cuuid : Cuuid
  uuid : Cuuid
  process : Process

def finish : Except Exit Output → Exit
  | .ok out => .returned 0 out
  | .error exit => exit

def mainAfter (world : World) (s : Settings) (parser : Getopt) : Except Exit Output :=
  if parser.optind < parser.nargv.length then do
    let stdout ← (checkOperands world.around s.process.ndebug s.vbose world.uuid
      (parser.nargv.drop parser.optind)).mapError .stopped
    return { Output.empty with stdout }
  else generate world.fs world.intflag world.cpu world.elapsed s

def mainProgram (world : World) (call : Call) (argv : List Bytes) : Exit :=
  finish do
    let (s, parser) ← mainOptions world.config call (mainFuel argv) (.initial argv)
      (.initial world.cuuid world.process)
    mainAfter world s parser

end Quid
