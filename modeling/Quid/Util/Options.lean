import Quid.Getopt.Contract
import Quid.Getopt.Modes
import Quid.Main

/-!
# The options of the utility

`main` handles each answer of the option parser before it asks for the next one.
What it makes of a whole command line is therefore a fold over the options that a
reader from left to right finds, up to the first operand where POSIX is asked for,
and the values it is left with are sound.
-/

namespace Quid

open Quid.Foundation
open Quid.Foundation.CString

variable {config : Config} {call : Call} {s s' : Settings} {parser parser' : Getopt}
  {value : Int} {report : Report}

theorem mainCall_permuting (environment : Bool) (progname : Bytes) :
    Permuting (mainCall environment progname) mainShortOptions :=
  ⟨rfl, by decide, by decide⟩

theorem mainCall_answering (environment : Bool) (progname : Bytes) :
    Answering (mainCall environment progname) mainShortOptions where
  long := by
    rintro longOptions htable o ho -
    cases htable
    have hall : mainLongOptions.all (fun o => o.val ≠ -1) = true := by decide
    exact of_decide_eq_true (List.all_eq_true.mp hall o ho)
  short := by
    intro c hc
    have hall : mainShortOptions.all (fun c => charInt c ≠ -1) = true := by decide
    exact of_decide_eq_true (List.all_eq_true.mp hall c hc)
  dash h := by cases h

/-! ## The loop -/

def optionStep (config : Config) (s : Settings) (answer : Int × Report) : Except Exit Settings :=
  mainSwitch config answer.1 answer.2 s

theorem mainOptions_eq {fuel : Nat} {answers : List (Int × Report)}
    (h : optionLoop call ⟨true, false, false⟩ fuel parser = .ok (answers, parser')) :
    mainOptions config call fuel parser s =
      answers.foldlM (optionStep config) s >>= fun s => .ok (s, parser') := by
  induction fuel generalizing parser s answers with
  | zero => cases h
  | succ fuel ih =>
      obtain ⟨⟨c, next⟩, hcall, h⟩ := bind_eq_ok.mp h
      have hlong : getoptLong call { parser with report.idx := parser.report.idx.map fun _ => 0 } =
          .ok (c, next) := hcall
      dsimp only at h
      by_cases hc : c = -1
      · rw [if_pos hc] at h
        cases h
        simp only [mainOptions, hlong, Except.mapError, ok_bind, hc, if_true]
        rfl
      · rw [if_neg hc] at h
        obtain ⟨⟨rest, last⟩, hloop, h⟩ := bind_eq_ok.mp h
        cases h
        simp only [mainOptions, hlong, Except.mapError, ok_bind, hc, if_false, List.foldlM_cons,
          optionStep]
        cases hswitch : mainSwitch config c next.report s with
        | error exit => rfl
        | ok s₁ => exact ih hloop

/-! ## Enough calls -/

/-- What is left to scan at a place: its characters, and the arguments from the next one on. -/
def unscanned (place : Cursor) (words : List Bytes) : Nat :=
  if place.text = [] then (words.map (·.length + 1)).sum
  else place.text.length + (words.tail.map (·.length + 1)).sum

theorem sum_drop_le (words : List Bytes) (count : Nat) :
    ((words.drop count).map (·.length + 1)).sum ≤ (words.map (·.length + 1)).sum := by
  rw [List.map_drop]
  exact List.Sublist.sum_le_sum (List.drop_sublist _ _) fun _ _ => Nat.zero_le _

theorem startPlace_length (w : Bytes) : (startPlace w).text.length ≤ w.length := by
  unfold startPlace
  split
  · exact le_rfl
  · simp

theorem Occurrence.Advances.unscanned_lt {o : Occurrence} {place : Cursor} {words : List Bytes}
    (ho : o.Advances place words) (hplace : place.text ≠ []) (hwords : words ≠ []) :
    unscanned o.place (words.drop o.count) < unscanned place words := by
  obtain ⟨w, words, rfl⟩ := List.exists_cons_of_ne_nil hwords
  have hpositive := List.length_pos_of_ne_nil hplace
  by_cases hcount : o.count = 0
  · obtain ⟨htext, -, hshorter⟩ := ho.inside hcount
    simp only [unscanned, htext, hplace, if_false, hcount, List.drop_zero]
    exact Nat.add_lt_add_right hshorter _
  · obtain ⟨count, hsucc⟩ := Nat.exists_eq_add_one_of_ne_zero hcount
    have hrest := sum_drop_le words count
    simp only [unscanned, ho.done hcount, emsg, hplace, if_true, if_false, hsucc,
      List.drop_succ_cons, List.tail_cons]
    omega

theorem Reads.answers_le {options : Bytes} {longonly : Bool} {place : Cursor}
    {words : List Bytes} {report : Report} {items : List Item}
    (h : Reads call options longonly place words report items)
    (hanswer : Answering call options) :
    (items.flatMap Item.answers).length ≤ unscanned place words := by
  induction h with
  | done hops => simp
  | dashes hops => simp [Item.answers]
  | @first ops words w r o items hops hw hdashes hfound hrest ih =>
      have ho := hfound.advances hanswer (startPlace_scanned hw) (List.cons_ne_nil w words)
      have hless := ho.unscanned_lt (startPlace_scanned hw).text_ne (List.cons_ne_nil w words)
      have hword := startPlace_length w
      have hwhole : unscanned (startPlace w) (w :: words) ≤ unscanned emsg (ops ++ w :: words) := by
        simp only [unscanned, emsg, (startPlace_scanned hw).text_ne, if_true, if_false,
          List.tail_cons, List.map_append, List.sum_append, List.map_cons, List.sum_cons]
        omega
      simp only [List.flatMap_append, answers_operands, List.flatMap_cons, Item.answers,
        List.nil_append, List.length_append, List.length_singleton]
      omega
  | @next place words r o items hplace hwords hfound hrest ih =>
      have ho := hfound.advances hanswer hplace hwords
      have hless := ho.unscanned_lt hplace.text_ne hwords
      simp only [List.flatMap_cons, Item.answers, List.length_append, List.length_singleton]
      omega

/-! ## Ways out -/

/-- A result with `P`, a `return` of 0 or 1, or a number that its type cannot represent. -/
def Orderly {α : Type} (P : α → Prop) : Except Exit α → Prop
  | .ok a => P a
  | .error (.returned status _) => status = 0 ∨ status = 1
  | .error (.stopped reason) => reason = .overflow
  | .error (.faulted _) => False

section

variable {α β : Type} {P : α → Prop} {Q : β → Prop}

theorem Orderly.bind {first : Except Exit α} {next : α → Except Exit β} (h : Orderly P first)
    (hnext : ∀ a, P a → Orderly Q (next a)) : Orderly Q (first >>= next) := by
  cases first with
  | ok a => exact hnext a h
  | error exit => cases exit <;> exact h

theorem Orderly.foldlM {step : α → β → Except Exit α} {inputs : List β} {a : α} (ha : P a)
    (hstep : ∀ a input, input ∈ inputs → P a → Orderly P (step a input)) :
    Orderly P (inputs.foldlM step a) := by
  induction inputs generalizing a with
  | nil => exact ha
  | cons input inputs ih =>
      rw [List.foldlM_cons]
      apply (hstep a input List.mem_cons_self ha).bind
      intro a' ha'
      exact ih ha' fun b other hmem => hstep b other (List.mem_cons_of_mem _ hmem)

theorem Orderly.ite {c : Prop} [Decidable c] {first second : Except Exit α}
    (hfirst : c → Orderly P first) (hsecond : ¬c → Orderly P second) :
    Orderly P (if c then first else second) := by
  split
  · next h => exact hfirst h
  · next h => exact hsecond h

theorem orderly_leave {status : Int} (hstatus : status = 0 ∨ status = 1) (text : Bytes) :
    Orderly P (leave status text) := hstatus

end

theorem orderly_atoi (argument : Bytes) : Orderly (fun _ => True) (atoi argument) := by
  unfold atoi
  dsimp only
  split
  · trivial
  · rfl

theorem orderly_atoll (argument : Bytes) : Orderly (fun _ => True) (atoll argument) := by
  unfold atoll
  dsimp only
  split
  · trivial
  · rfl

theorem orderly_optargOf (h : report.optarg ≠ none) :
    Orderly (fun argument => report.optarg = some argument) (optargOf report) := by
  unfold optargOf
  cases hgiven : report.optarg with
  | none => exact absurd hgiven h
  | some argument => rfl

/-! ## Sound settings -/

def knownFlags : UInt8 := idfPublic ||| idfIdsafe ||| idfMaster ||| idfSigned ||| idfTagged |||
  idfStrict

/-- What the rest of `main` relies on: in particular its assertion and its file name. -/
structure Settings.Sound (s : Settings) : Prop where
  version : s.cuuid.version = quidRev4 ∨ s.cuuid.version = quidRev7
  cat : s.cat = clsCmon ∨ s.cat = clsInfo ∨ s.cat = clsWarn ∨ s.cat = clsError
  flg : s.flg ||| knownFlags = knownFlags
  tag : s.tag = Vector.replicate 3 0 ∨ ∀ i, s.tag.get i ≠ 0
  fname : s.fout = true → s.fname ≠ none

theorem Settings.initial_sound (uninitialized : Cuuid) (process : Process) :
    (Settings.initial uninitialized process).Sound where
  version := .inr rfl
  cat := .inl rfl
  flg := (by decide : idfNull ||| knownFlags = knownFlags)
  tag := .inl rfl
  fname h := by cases h

theorem setRev_orderly (hs : s.Sound) (argument : Bytes) :
    Orderly Settings.Sound (setRev argument s) := by
  apply (orderly_atoi argument).bind
  intro rev _
  split
  · exact ⟨.inl rfl, hs.cat, hs.flg, hs.tag, hs.fname⟩
  split
  · exact ⟨.inr rfl, hs.cat, hs.flg, hs.tag, hs.fname⟩
  · exact orderly_leave (.inr rfl) _

theorem setTag_orderly (hs : s.Sound) {argument : Bytes} (hargument : 0 ∉ argument) :
    Orderly Settings.Sound (setTag argument s) := by
  unfold setTag
  split
  · next first second third =>
      simp only [List.mem_cons, List.not_mem_nil, or_false, not_or] at hargument
      obtain ⟨hfirst, hsecond, hthird⟩ := hargument
      refine ⟨hs.version, hs.cat, hs.flg, .inr fun i => ?_, hs.fname⟩
      match i with
      | 0 => exact Ne.symm hfirst
      | 1 => exact Ne.symm hsecond
      | 2 => exact Ne.symm hthird
  · exact orderly_leave (.inr rfl) _

theorem setCategory_orderly (hs : s.Sound) (argument : Bytes) :
    Orderly Settings.Sound (setCategory argument s) := by
  apply (orderly_atoi argument).bind
  intro number _
  dsimp only
  split
  · next hcat => exact ⟨hs.version, hcat, hs.flg, hs.tag, hs.fname⟩
  · exact orderly_leave (.inr rfl) _

theorem setFlag_sound (hs : s.Sound) {flag : UInt8} (hflag : flag ||| knownFlags = knownFlags) :
    (setFlag flag s).Sound := by
  refine ⟨hs.version, hs.cat, ?_, hs.tag, hs.fname⟩
  change s.flg ||| flag ||| knownFlags = knownFlags
  rw [UInt8.or_assoc, hflag, hs.flg]

/-! ## One answer -/

def argumentNames : List Bytes :=
  [ascii "rand-seed", ascii "memory-seed", ascii "rev", ascii "tag", ascii "category"]

theorem longCase_orderly {name : Bytes} (hs : s.Sound)
    (hgiven : name ∈ argumentNames → report.optarg ≠ none)
    (hclean : ∀ argument, report.optarg = some argument → 0 ∉ argument) :
    Orderly Settings.Sound (longCase name report s) := by
  have given : ∀ {α : Type} {Q : α → Prop} {next : Bytes → Except Exit α}, name ∈ argumentNames →
      (∀ argument, 0 ∉ argument → Orderly Q (next argument)) →
      Orderly Q (optargOf report >>= next) := by
    intro α Q next hname hnext
    apply (orderly_optargOf (hgiven hname)).bind
    exact fun argument hargument => hnext argument (hclean argument hargument)
  unfold longCase
  apply Orderly.ite
  · intro hname
    apply given (hname ▸ .head _)
    intro argument _
    apply (orderly_atoi argument).bind
    exact fun _ _ => ⟨hs.version, hs.cat, hs.flg, hs.tag, hs.fname⟩
  intro _
  apply Orderly.ite
  · intro hname
    apply given (hname ▸ .tail _ (.head _))
    intro argument _
    apply (orderly_atoi argument).bind
    exact fun _ _ => ⟨hs.version, hs.cat, hs.flg, hs.tag, hs.fname⟩
  intro _
  apply Orderly.ite
  · intro hname
    apply given (hname ▸ .tail _ (.tail _ (.head _)))
    exact fun argument _ => setRev_orderly hs argument
  intro _
  apply Orderly.ite
  · intro hname
    apply given (hname ▸ .tail _ (.tail _ (.tail _ (.head _))))
    exact fun argument hargument => setTag_orderly hs hargument
  have flagged : ∀ {flag : UInt8}, flag ||| knownFlags = knownFlags →
      Orderly Settings.Sound (.ok (setFlag flag s)) := fun hflag => setFlag_sound hs hflag
  intro _
  apply Orderly.ite fun _ => orderly_leave (.inl rfl) _
  intro _
  apply Orderly.ite fun _ => flagged (by decide)
  intro _
  apply Orderly.ite fun _ => flagged (by decide)
  intro _
  apply Orderly.ite fun _ => flagged (by decide)
  intro _
  apply Orderly.ite fun _ => flagged (by decide)
  intro _
  apply Orderly.ite fun _ => flagged (by decide)
  intro _
  apply Orderly.ite fun _ => flagged (by decide)
  intro _
  apply Orderly.ite
  · intro hname
    apply given (hname ▸ .tail _ (.tail _ (.tail _ (.tail _ (.head _)))))
    exact fun argument _ => setCategory_orderly hs argument
  · exact fun _ => hs

theorem charInt_injective {c d : UInt8} (h : charInt c = charInt d) : c = d := by
  rw [← UInt8.toUInt8_toInt8 c, Int8.toInt_inj.mp h, UInt8.toUInt8_toInt8]

def argumentLetters : List UInt8 := [chr 'c', chr 'd', chr 'o']

theorem contract_letter {environment : Bool} {progname : Bytes} {c : UInt8}
    (hc : c ∈ argumentLetters)
    (h : Contract (mainCall environment progname) mainShortOptions (charInt c) report) :
    report.optarg ≠ none := by
  cases h with
  | rejected hvalue =>
      have hall : argumentLetters.all (fun c =>
          ¬(charInt c = badch ∨ charInt c = badarg mainShortOptions)) = true := by decide
      exact absurd hvalue (of_decide_eq_true (List.all_eq_true.mp hall c hc))
  | operand hvalue hgiven => exact hgiven
  | long htable hat hvalue hidx hgiven =>
      cases htable
      have hall : mainLongOptions.all (fun o =>
          argumentLetters.all fun c => charInt c ≠ answerMatch o) = true := by decide
      have hletters := List.all_eq_true.mp hall _ (List.mem_of_getElem? hat)
      exact absurd hvalue (of_decide_eq_true (List.all_eq_true.mp hletters c hc))
  | @letter d oli hat hvalue hgiven =>
      cases charInt_injective hvalue
      have hall : argumentLetters.all (fun c => (strchr mainShortOptions c).all fun oli =>
          (oli.drop 1).head? = some (chr ':') ∧ (oli.drop 2).head? ≠ some (chr ':')) = true := by
        decide
      have hcolon := List.all_eq_true.mp hall c hc
      rw [hat] at hcolon
      obtain ⟨hone, htwo⟩ := of_decide_eq_true hcolon
      exact hgiven hone htwo

theorem contract_zero {environment : Bool} {progname : Bytes}
    (h : Contract (mainCall environment progname) mainShortOptions 0 report) :
    ∃ name, optionName report = .ok name ∧ (name ∈ argumentNames → report.optarg ≠ none) := by
  cases h with
  | rejected hvalue => exact absurd hvalue (by decide)
  | operand hvalue => exact absurd hvalue (by decide)
  | @long table m o htable hat hvalue hidx hgiven =>
      cases htable
      refine ⟨o.name, ?_, fun hname => hgiven ?_⟩
      · simp only [optionName, hidx, Option.bind_some, hat]
      · have hall : mainLongOptions.all (fun o =>
            o.name ∈ argumentNames → o.hasArg = .requiredArgument) = true := by decide +kernel
        exact of_decide_eq_true (List.all_eq_true.mp hall o (List.mem_of_getElem? hat)) hname
  | @letter c oli hat hvalue hgiven =>
      cases charInt_injective (show charInt 0 = charInt c from hvalue)
      cases hat

theorem mainSwitch_orderly {environment : Bool} {progname : Bytes} (hs : s.Sound)
    (hcontract : Contract (mainCall environment progname) mainShortOptions value report)
    (hclean : ∀ argument, report.optarg = some argument → 0 ∉ argument) :
    Orderly Settings.Sound (mainSwitch config value report s) := by
  unfold mainSwitch
  apply Orderly.ite
  · rintro rfl
    obtain ⟨name, hname, hgiven⟩ := contract_zero hcontract
    rw [hname]
    exact longCase_orderly hs hgiven hclean
  intro _
  apply Orderly.ite
  · rintro rfl
    apply (orderly_optargOf (contract_letter (.head _) hcontract)).bind
    intro argument _
    apply (orderly_atoll argument).bind
    exact fun _ _ => ⟨hs.version, hs.cat, hs.flg, hs.tag, hs.fname⟩
  intro _
  apply Orderly.ite
  · rintro rfl
    apply (orderly_optargOf (contract_letter (.tail _ (.head _)) hcontract)).bind
    intro argument _
    apply (orderly_atoi argument).bind
    exact fun _ _ => ⟨hs.version, hs.cat, hs.flg, hs.tag, hs.fname⟩
  intro _
  apply Orderly.ite
  · rintro rfl
    have hgiven := contract_letter (.tail _ (.tail _ (.head _))) hcontract
    exact ⟨hs.version, hs.cat, hs.flg, hs.tag, fun _ => hgiven⟩
  refine fun _ => .ite (fun _ => ⟨hs.version, hs.cat, hs.flg, hs.tag, hs.fname⟩) ?_
  refine fun _ => .ite (fun _ => ⟨hs.version, hs.cat, hs.flg, hs.tag, hs.fname⟩) ?_
  refine fun _ => .ite (fun _ => ⟨hs.version, hs.cat, hs.flg, hs.tag, hs.fname⟩) ?_
  refine fun _ => .ite (fun _ => ⟨hs.version, hs.cat, hs.flg, hs.tag, hs.fname⟩) ?_
  intro _
  apply Orderly.ite fun _ => orderly_leave (.inl rfl) _
  exact fun _ => orderly_leave (.inl rfl) _

/-! ## A whole command line -/

variable {progname prog : Bytes} {args : List Bytes}

theorem mainOptions_reads (config : Config) (environment : Bool) (progname : Bytes)
    (hargs : ∀ w ∈ prog :: args, 0 ∉ w) (hs : s.Sound) {items : List Item}
    (hreads : Reads (mainCall environment progname) mainShortOptions false emsg args .initial
      items) :
    Orderly Settings.Sound
        (((itemsTaken environment items).flatMap Item.answers).foldlM (optionStep config) s) ∧
      ∃ parser, mainOptions config (mainCall environment progname) (mainFuel (prog :: args))
            (.initial (prog :: args)) s =
          ((itemsTaken environment items).flatMap Item.answers).foldlM (optionStep config) s >>=
            (fun s => .ok (s, parser)) ∧
        parser.nargv.drop parser.optind = wordsLeft environment items := by
  have hanswer := mainCall_answering environment progname
  have hfuel : (items.flatMap Item.answers).length < mainFuel (prog :: args) := by
    have hle := hreads.answers_le hanswer
    simp only [unscanned, emsg, if_true] at hle
    simp only [mainFuel, List.map_cons, List.sum_cons]
    omega
  obtain ⟨parser, hloop, hleft⟩ := optionLoop_taken (mainCall_permuting environment progname)
    hanswer prog hreads hfuel
  refine ⟨?_, parser, mainOptions_eq hloop, hleft⟩
  apply Orderly.foldlM hs
  intro s answer hmem hs
  have hoptions : (mainCall environment progname).options = some mainShortOptions := rfl
  obtain ⟨hcontract, hclean⟩ :=
    optionLoop_contract hoptions (initial_kept hargs) hloop answer hmem
  exact mainSwitch_orderly hs hcontract hclean

def afterOptions (world : World) (operands : List Bytes) (s : Settings) : Except Exit Output :=
  if operands = [] then generate world.fs world.intflag world.cpu world.elapsed s
  else do
    let stdout ← (checkOperands world.around s.process.ndebug s.vbose world.uuid
      operands).mapError .stopped
    return { Output.empty with stdout }

theorem mainAfter_eq (world : World) (s : Settings) (parser : Getopt) :
    mainAfter world s parser = afterOptions world (parser.nargv.drop parser.optind) s := by
  have hleft : parser.optind < parser.nargv.length ↔ ¬parser.nargv.drop parser.optind = [] := by
    rw [List.drop_eq_nil_iff]
    exact Nat.not_le.symm
  unfold mainAfter afterOptions
  by_cases hempty : parser.nargv.drop parser.optind = []
  · rw [if_neg (fun h => hleft.mp h hempty), if_pos hempty]
  · rw [if_pos (hleft.mpr hempty), if_neg hempty]

theorem openOutput_orderly (fs : FileSystem) (hs : s.Sound) :
    Orderly (fun _ => True) (openOutput fs s) := by
  unfold openOutput
  split
  · trivial
  · next hfout =>
      have hgiven := hs.fname (by simpa using hfout)
      cases hname : s.fname with
      | none => exact absurd hname hgiven
      | some fname =>
          apply Orderly.ite
          · exact fun _ => .ite (fun _ => trivial) fun _ => orderly_leave (.inr rfl) _
          · exact fun _ => .ite (fun _ => orderly_leave (.inr rfl) _) fun _ =>
              orderly_leave (.inr rfl) _

/-- Nothing is read at a null address, and no loop goes on for ever. -/
def Exit.Faultless (exit : Exit) : Prop := ∀ fault, exit ≠ .faulted fault

theorem finish_faultless {result : Except Exit Output}
    (h : ∀ exit, result = .error exit → exit.Faultless) : (finish result).Faultless := by
  cases result with
  | ok out => exact fun fault => by simp [finish]
  | error exit => exact h exit rfl

theorem Orderly.faultless {α : Type} {P : α → Prop} {result : Except Exit α}
    (h : Orderly P result) {exit : Exit} (hexit : result = .error exit) : exit.Faultless := by
  subst hexit
  rintro fault rfl
  exact h

theorem mapError_eq_error {α ε ε' : Type} {f : ε → ε'} {result : Except ε α} {e : ε'}
    (h : result.mapError f = .error e) : ∃ reason, e = f reason := by
  cases result with
  | ok a => cases h
  | error reason =>
      cases h
      exact ⟨reason, rfl⟩

theorem afterOptions_faultless (world : World) (operands : List Bytes) (hs : s.Sound)
    {exit : Exit} (h : afterOptions world operands s = .error exit) : exit.Faultless := by
  have stopped : ∀ {α : Type} {result : Except Stop α} {exit : Exit},
      result.mapError Exit.stopped = .error exit → exit.Faultless := by
    intro α result exit h
    obtain ⟨reason, rfl⟩ := mapError_eq_error h
    exact fun fault => by simp
  unfold afterOptions at h
  split at h
  · rcases bind_eq_error.mp h with hopen | ⟨file, -, h⟩
    · exact (openOutput_orderly world.fs hs).faultless hopen
    · rcases bind_eq_error.mp h with hloop | ⟨g, -, h⟩
      · exact stopped hloop
      · dsimp only at h
        split at h <;> cases h
  · rcases bind_eq_error.mp h with hcheck | ⟨stdout, -, h⟩
    · exact stopped hcheck
    · cases h

theorem mainProgram_eq (world : World) (environment : Bool) (progname : Bytes)
    (hargs : ∀ w ∈ prog :: args, 0 ∉ w) {items : List Item}
    (hreads : Reads (mainCall environment progname) mainShortOptions false emsg args .initial
      items) :
    mainProgram world (mainCall environment progname) (prog :: args) =
      finish (((itemsTaken environment items).flatMap Item.answers).foldlM
          (optionStep world.config) (.initial world.cuuid world.process) >>=
        afterOptions world (wordsLeft environment items)) := by
  obtain ⟨-, parser, hoptions, hleft⟩ := mainOptions_reads world.config environment progname hargs
    (Settings.initial_sound world.cuuid world.process) hreads
  simp only [mainProgram, hoptions, mainAfter_eq, ← hleft]
  cases ((itemsTaken environment items).flatMap Item.answers).foldlM (optionStep world.config)
    (.initial world.cuuid world.process) <;> rfl

/--
Whatever the command line, `main` does what the options found by the reader ask
for, one after another, and then turns to the words that the reader leaves; its
settings are sound, and it never reads through a null pointer or beyond its table.
-/
theorem mainProgram_reads (world : World) (environment : Bool) (progname : Bytes)
    (hargs : ∀ w ∈ prog :: args, 0 ∉ w) :
    ∃ items, Reads (mainCall environment progname) mainShortOptions false emsg args .initial
        items ∧
      Orderly Settings.Sound (((itemsTaken environment items).flatMap Item.answers).foldlM
        (optionStep world.config) (.initial world.cuuid world.process)) ∧
      mainProgram world (mainCall environment progname) (prog :: args) =
        finish (((itemsTaken environment items).flatMap Item.answers).foldlM
            (optionStep world.config) (.initial world.cuuid world.process) >>=
          afterOptions world (wordsLeft environment items)) ∧
      (mainProgram world (mainCall environment progname) (prog :: args)).Faultless := by
  obtain ⟨items, hreads⟩ :=
    reads_exists false (mainCall_answering environment progname) args .initial
  obtain ⟨horderly, -⟩ := mainOptions_reads world.config environment progname hargs
    (Settings.initial_sound world.cuuid world.process) hreads
  have hmain := mainProgram_eq world environment progname hargs hreads
  refine ⟨items, hreads, horderly, hmain, ?_⟩
  rw [hmain]
  apply finish_faultless
  intro exit hexit
  rcases bind_eq_error.mp hexit with hfold | ⟨s, hfold, hafter⟩
  · exact horderly.faultless hfold
  · rw [hfold] at horderly
    exact afterOptions_faultless world _ horderly hafter

def stillWorld (readings : List UInt64) : World where
  config := ⟨ascii "quid", ascii "1", ascii "still", ascii "still", ascii "2020"⟩
  around := ⟨fun _ => ascii "then\n", fun _ => ascii "0.000000", [0], [], []⟩
  fs := ⟨fun _ => .nothing, fun _ => true⟩
  intflag := fun _ => false
  cpu := ascii "0.00"
  elapsed := ascii "0.00"
  cuuid := Cuuid.zero
  uuid := Cuuid.zero
  process := .still readings

theorem mainProgram_reads_still :
    ∃ items, Reads (mainCall true (ascii "quid")) mainShortOptions false emsg
          [ascii "--set-p", ascii "x", ascii "-v"] .initial items ∧
      Orderly Settings.Sound (((itemsTaken true items).flatMap Item.answers).foldlM
        (optionStep (stillWorld []).config)
        (.initial (stillWorld []).cuuid (stillWorld []).process)) ∧
      mainProgram (stillWorld []) (mainCall true (ascii "quid"))
          (ascii "quid" :: [ascii "--set-p", ascii "x", ascii "-v"]) =
        finish (((itemsTaken true items).flatMap Item.answers).foldlM
            (optionStep (stillWorld []).config)
            (.initial (stillWorld []).cuuid (stillWorld []).process) >>=
          afterOptions (stillWorld []) (wordsLeft true items)) ∧
      (mainProgram (stillWorld []) (mainCall true (ascii "quid"))
        (ascii "quid" :: [ascii "--set-p", ascii "x", ascii "-v"])).Faultless :=
  mainProgram_reads (stillWorld []) true (ascii "quid") (by decide)

end Quid
