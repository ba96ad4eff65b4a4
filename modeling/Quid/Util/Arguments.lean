import Quid.Util.Generation

/-!
# The arguments of the options

A count is a number as `%ld` writes it; a negative one is taken modulo `2 ^ 64`.
A long option may be abbreviated, but the parser tells two options apart by what
they do, and most options of the table do the same to it.
-/

namespace Quid

open Quid.Foundation
open Quid.Foundation.CString
open Quid.Foundation.Numeral

/-! ## Numbers -/

theorem cString_of_notMem {text : Bytes} (h : 0 ∉ text) : cString text = text := by
  rw [cString, List.takeWhile_eq_self_iff]
  intro c hc
  simp only [decide_eq_true_eq]
  rintro rfl
  exact h hc

theorem isdigit_hexDigit {d : Nat} (hd : d < 10) : isdigit (hexDigit d) = true := by
  have hall : ∀ d : Fin 10, isdigit (hexDigit d.val) = true := by decide
  exact hall ⟨d, hd⟩

def digitText (n : Nat) : Bytes := (digits 10 1 n).map hexDigit

theorem digitText_facts (n : Nat) :
    ∀ c ∈ digitText n, isdigit c = true ∧ isxdigit c = true := by
  intro c hc
  obtain ⟨d, hd, rfl⟩ := List.mem_map.mp hc
  have hlt := digits_lt (by decide : 1 < 10) 1 n d hd
  exact ⟨isdigit_hexDigit hlt, isxdigit_hexDigit (by omega)⟩

theorem digitText_ne_nil (n : Nat) : digitText n ≠ [] := by
  simp [digitText, digits]

theorem value_digitText (n : Nat) : value 10 ((digitText n).map hexValue) = n := by
  have hback : (digitText n).map hexValue = digits 10 1 n := by
    rw [digitText, List.map_map]
    refine (List.map_congr_left fun d hd => ?_).trans (List.map_id _)
    have hlt := digits_lt (by decide : 1 < 10) 1 n d hd
    exact hexValue_hexDigit (by omega)
  rw [hback, value_digits]

theorem skipSign_digitText (n : Nat) : skipSign (digitText n) = (false, digitText n) := by
  obtain ⟨c, rest, htext⟩ := List.exists_cons_of_ne_nil (digitText_ne_nil n)
  have hc := (digitText_facts n c (by rw [htext]; exact List.mem_cons_self)).2
  obtain ⟨-, -, hminus, hplus, -⟩ := isxdigit_facts c hc
  rw [htext]
  simp only [skipSign, hminus, hplus, if_false]

/-- What `%d` and `%ld` write, `atoi` and `atoll` read back. -/
theorem decimalNumber_decText (z : Int) : decimalNumber (decText z) = z := by
  have hdigits := digitText_facts z.natAbs
  have hwhole : (digitText z.natAbs).takeWhile isdigit = digitText z.natAbs :=
    List.takeWhile_eq_self_iff.mpr fun c hc => (hdigits c hc).1
  have hzero : 0 ∉ digitText z.natAbs := fun h => isxdigit_ne_zero (hdigits 0 h).2 rfl
  have hspace : ∀ text : Bytes, (∀ c ∈ text.head?, isspace c = false) →
      text.dropWhile isspace = text := by
    intro text h
    cases text with
    | nil => rfl
    | cons c rest => rw [List.dropWhile_cons_of_neg (by simpa using h c rfl)]
  by_cases hnegative : z < 0
  · have htext : decText z = chr '-' :: digitText z.natAbs := by
      rw [decText, if_pos hnegative]
      rfl
    have hminus : 0 ∉ chr '-' :: digitText z.natAbs := by
      simp only [List.mem_cons, hzero, or_false]
      decide
    have hsign : skipSign (chr '-' :: digitText z.natAbs) = (true, digitText z.natAbs) := rfl
    rw [htext, decimalNumber, cString_of_notMem hminus, hspace _ (by simp; decide), hsign]
    simp only [hwhole, value_digitText, if_true]
    omega
  · have htext : decText z = digitText z.natAbs := by
      rw [decText, if_neg hnegative]
      rfl
    have hhead : ∀ c ∈ (digitText z.natAbs).head?, isspace c = false := fun c hc =>
      (isxdigit_facts c (hdigits c (List.mem_of_mem_head? hc)).2).2.1
    rw [htext, decimalNumber, cString_of_notMem hzero, hspace _ hhead, skipSign_digitText]
    simp only [hwhole, value_digitText, Bool.false_eq_true, if_false]
    omega

/-! ## The count -/

def countFound (text : Bytes) (report : Report) : Occurrence :=
  ⟨charInt (chr 'c'), emsg, 2, { report with optarg := some text }⟩

theorem count_decodes (environment : Bool) (progname text : Bytes) (words : List Bytes)
    (report : Report) :
    Decodes (optionAt (mainCall environment progname) mainShortOptions ⟨true, false, false⟩)
      (startPlace (ascii "-c")) (ascii "-c" :: text :: words) report (countFound text report) := by
  rintro front s hargv hind hplace rfl
  have hread := readArg_append (s := { s with
    place := ⟨[], false⟩, optind := s.optind + 1, report.optarg := none }) hargv (i := 1) (by simp)
  rw [← hind] at hread
  have hinside : ¬s.nargv.length ≤ s.optind + 1 := by simp [hargv, hind]
  have hletter : optionAt (mainCall environment progname) mainShortOptions ⟨true, false, false⟩
      s.nargv.length s = takeShortArgument (mainCall environment progname) mainShortOptions
        s.nargv.length (chr 'c') (ascii "d:o:qxivVh") { s with place := ⟨[], false⟩ } := by
    obtain ⟨nargv, optind, optreset, place, posix, start, last, report⟩ := s
    cases hplace
    rfl
  have hsingle : (ascii "d:o:qxivVh").head? ≠ some (chr ':') := by decide
  rw [hletter]
  simp [takeShortArgument, hsingle, hread, hinside]
  exact ⟨rfl, rfl⟩

theorem reads_count (environment : Bool) (progname text : Bytes) :
    Reads (mainCall environment progname) mainShortOptions false emsg [ascii "-c", text] .initial
      [.option (charInt (chr 'c')) { entered .initial with optarg := some text }
        [ascii "-c", text]] := by
  have hfirst : ∀ w ∈ ([] : List Bytes), isOperand mainShortOptions w = true := by simp
  exact .first hfirst (by decide) (by decide)
    (count_decodes environment progname text [] (entered .initial)) (.done hfirst)

theorem mainSwitch_count (config : Config) (report : Report) (s : Settings) {z : Int}
    (hz : longMin ≤ z ∧ z ≤ longMax) :
    mainSwitch config (charInt (chr 'c')) { report with optarg := some (decText z) } s =
      .ok { s with n := UInt64.ofInt z } := by
  have hnumber : atoll (decText z) = .ok z := by
    simp only [atoll, decimalNumber_decText, hz, and_self, if_true]
  have hswitch : mainSwitch config (charInt (chr 'c'))
      { report with optarg := some (decText z) } s =
        atoll (decText z) >>= fun count => .ok { s with n := UInt64.ofInt count } := rfl
  rw [hswitch, hnumber]
  rfl

theorem zero_notMem_decText (z : Int) : 0 ∉ decText z := by
  have hdigits : 0 ∉ digitText z.natAbs := fun h =>
    isxdigit_ne_zero (digitText_facts z.natAbs 0 h).2 rfl
  have hsign : 0 ∉ if z < 0 then [chr '-'] else [] := by
    split <;> decide
  exact List.not_mem_append hsign hdigits

theorem mainProgram_count (world : World) (environment : Bool) (progname : Bytes) {prog : Bytes}
    (hprog : 0 ∉ prog) {z : Int} (hz : longMin ≤ z ∧ z ≤ longMax) :
    mainProgram world (mainCall environment progname) [prog, ascii "-c", decText z] =
      finish (generate world.fs world.intflag world.cpu world.elapsed
        { Settings.initial world.cuuid world.process with n := UInt64.ofInt z }) := by
  have hargs : ∀ w ∈ [prog, ascii "-c", decText z], 0 ∉ w := by
    have hoption : 0 ∉ ascii "-c" := by decide
    simpa [hprog, hoption] using zero_notMem_decText z
  have hleft : ∀ environment, itemsTaken environment [] = [] ∧ wordsLeft environment [] = [] := by
    decide
  rw [mainProgram_eq world environment progname hargs (reads_count environment progname _)]
  simp only [itemsTaken_option, wordsLeft_option, hleft, List.flatMap_cons, List.flatMap_nil,
    Item.answers, List.append_nil, List.foldlM_cons, List.foldlM_nil, optionStep,
    mainSwitch_count _ _ _ hz, ok_bind]
  rfl

theorem generate_stopped {fs : FileSystem} {intflag : Nat → Bool} {cpu elapsed : Bytes}
    {s : Settings} (hfout : s.fout = false) {exit : Exit}
    (h : generate fs intflag cpu elapsed s = .error exit) : ∃ reason, exit = .stopped reason := by
  have hopen : openOutput fs s = .ok none := by
    rw [openOutput, hfout]
    rfl
  simp only [generate, hopen, ok_bind] at h
  rcases bind_eq_error.mp h with hloop | ⟨g, -, h⟩
  · exact mapError_eq_error hloop
  · split at h <;> cases h

theorem uint64_ofInt_emod (z : Int) : ((UInt64.ofInt z).toNat : Int) = z % 2 ^ 64 := by
  rw [UInt64.ofInt, UInt64.toNat_ofNat']
  omega

/--
`-c` with a number as `%ld` writes it: a run that is not interrupted writes as
many REV7 identifiers of the first category, a negative number counting from `2 ^ 64`.
-/
theorem count_written (world : World) (environment : Bool) (progname : Bytes) {prog : Bytes}
    (hprog : 0 ∉ prog) {z : Int} (hz : longMin ≤ z ∧ z ≤ longMax)
    (hquiet : ∀ i, world.intflag i = false) {out : Output}
    (h : mainProgram world (mainCall environment progname) [prog, ascii "-c", decText z] =
      .returned 0 out) :
    ∃ shown : List Cuuid, (shown.length : Int) = z % 2 ^ 64 ∧ out.file = none ∧
      out.stdout = shown.flatMap (fun u => quidText u ++ [chr '\n']) ∧
      ∀ u ∈ shown, u.version = quidRev7 ∧
        CreatedFor ⟨{ world.cuuid with version := quidRev7 }, idfNull, clsCmon,
          some (Vector.replicate 3 0)⟩ u := by
  rw [mainProgram_count world environment progname hprog hz] at h
  have hinitial := Settings.initial_sound world.cuuid world.process
  have hs : Settings.Sound
      { Settings.initial world.cuuid world.process with n := UInt64.ofInt z } :=
    ⟨hinitial.version, hinitial.cat, hinitial.flg, hinitial.tag, hinitial.fname⟩
  cases hgenerate : generate world.fs world.intflag world.cpu world.elapsed
      { Settings.initial world.cuuid world.process with n := UInt64.ofInt z } with
  | error exit =>
      obtain ⟨reason, rfl⟩ := generate_stopped rfl hgenerate
      rw [hgenerate] at h
      cases h
  | ok written =>
      rw [hgenerate] at h
      cases h
      obtain ⟨start, g, shown, unseen, hgenerated, hwritten⟩ := generate_generated hs hgenerate
      have hcreated := fun u hu =>
        createRun_createdFor hgenerated.run u (List.mem_append_left unseen hu)
      refine ⟨shown, ?_, hwritten.file, ?_, fun u hu => ⟨(hcreated u hu).version, hcreated u hu⟩⟩
      · rcases hgenerated.ending with ⟨-, hall⟩ | ⟨-, -, hinterrupt⟩
        · rw [hall]
          exact uint64_ofInt_emod z
        · rw [hquiet] at hinterrupt
          cases hinterrupt
      · have hstdout : out.stdout = shownLines printFormatHexBacket shown ++ [] := hwritten.stdout
        rw [hstdout, List.append_nil]
        exact shownLines_created fun u hu => (hcreated u hu).created

theorem count_written_still :
    ∃ out, mainProgram (stillWorld (List.replicate 3 17000000000000000))
        (mainCall false (ascii "quid")) [ascii "quid", ascii "-c", decText 1] =
          .returned 0 out ∧
      ∃ shown : List Cuuid, (shown.length : Int) = 1 % 2 ^ 64 ∧ out.file = none ∧
        out.stdout = shown.flatMap (fun u => quidText u ++ [chr '\n']) ∧
        ∀ u ∈ shown, u.version = quidRev7 ∧
          CreatedFor ⟨{ Cuuid.zero with version := quidRev7 }, idfNull, clsCmon,
            some (Vector.replicate 3 0)⟩ u := by
  have hprog : 0 ∉ ascii "quid" := by decide
  have hreturns : (generate (stillWorld []).fs (fun _ => false) (ascii "0.00") (ascii "0.00")
      { stillSettings with n := UInt64.ofInt 1 }).isOk = true := by
    decide +kernel
  obtain ⟨out, hgenerate⟩ := eq_ok_of_isOk hreturns
  have hmain : mainProgram (stillWorld (List.replicate 3 17000000000000000))
      (mainCall false (ascii "quid")) [ascii "quid", ascii "-c", decText 1] =
        .returned 0 out := by
    rw [mainProgram_count _ false (ascii "quid") hprog (by decide)]
    exact congrArg finish hgenerate
  exact ⟨out, hmain, count_written _ false (ascii "quid") hprog (by decide) (fun _ => rfl) hmain⟩

/-! ## Abbreviations -/

/-- Names that begin two options which do different things. -/
def ambiguousNames : List Bytes :=
  ["", "o", "ou", "out", "outp", "outpu", "output", "output-", "v", "ve", "ver"].map ascii

/-- Names that begin two options which the parser takes for the same. -/
def sharedNames : List Bytes := ["r", "s", "se", "set", "set-", "set-s"].map ascii

def candidates (name : Bytes) : List LongOption :=
  mainLongOptions.filter fun o => name.isPrefixOf o.name

def searchMain (name : Bytes) : Matched := matchLoop name false 0 mainLongOptions (none, false)

structure Classified (name : Bytes) : Prop where
  several : 1 < (candidates name).length ↔ name ∈ ambiguousNames ∨ name ∈ sharedNames
  ambiguous : (searchMain name).2 = true ↔ name ∈ ambiguousNames
  selected : (searchMain name).2 = false →
    (searchMain name).1.map Prod.snd = (candidates name).head?

/-- What the parser answers to the name, with or without an argument behind `=`. -/
theorem Classified.answer {name : Bytes} (h : Classified name) {call : Call} {options : Bytes}
    {hasEqual : Option Bytes} {parser : Getopt}
    (hsplit : splitEqual parser.place.text = (name, hasEqual)) :
    (name ∈ ambiguousNames →
      ∃ next, parseLongOptions call options mainLongOptions false parser = .ok (badch, next)) ∧
    (name ∉ ambiguousNames → ∀ o, (candidates name).head? = some o → Argued o hasEqual parser →
      ∃ next, parseLongOptions call options mainLongOptions false parser =
        .ok (answerMatch o, next)) := by
  constructor
  · intro hname
    exact ⟨_, parseLongOptions_ambiguous hsplit (h.ambiguous.mpr hname)⟩
  · intro hname o ho hargued
    have hclear : (searchMain name).2 = false := by
      rw [← Bool.not_eq_true, h.ambiguous]
      exact hname
    have hselected := h.selected hclear
    rw [ho] at hselected
    obtain ⟨⟨m, found⟩, hfound, rfl⟩ := Option.map_eq_some_iff.mp hselected
    obtain ⟨next, hanswer, -⟩ :=
      parseLongOptions_matched hsplit (Prod.ext hfound hclear) hargued
    exact ⟨next, hanswer⟩

theorem matchLoop_unmatched {name : Bytes} {shortToo : Bool} {i : Nat} {rest : List LongOption}
    (h : ∀ o ∈ rest, name.isPrefixOf o.name = false) (matched : Matched) :
    matchLoop name shortToo i rest matched = matched := by
  induction rest generalizing i with
  | nil => rfl
  | cons o rest ih =>
      obtain ⟨ho, hrest⟩ := List.forall_mem_cons.mp h
      simp only [matchLoop, ho, Bool.not_false, if_true]
      exact ih hrest

theorem classified_of_beginning : ∀ name ∈ mainLongOptions.flatMap fun o => o.name.inits,
    (∀ o ∈ mainLongOptions, o.name ≠ name) →
      (1 < (candidates name).length ↔ name ∈ ambiguousNames ∨ name ∈ sharedNames) ∧
      ((searchMain name).2 = true ↔ name ∈ ambiguousNames) ∧
      ((searchMain name).2 = false →
        (searchMain name).1.map Prod.snd = (candidates name).head?) := by
  decide +kernel

/--
Of the texts that begin the names of several options, the parser calls eleven
ambiguous and takes six, such as `r` and `set`, for the first of them.
-/
theorem mainLongOptions_abbreviations (name : Bytes)
    (hname : ∀ o ∈ mainLongOptions, o.name ≠ name) : Classified name := by
  by_cases hbegins : name ∈ mainLongOptions.flatMap fun o => o.name.inits
  · obtain ⟨hseveral, hambiguous, hselected⟩ := classified_of_beginning name hbegins hname
    exact ⟨hseveral, hambiguous, hselected⟩
  · have hnone : ∀ o ∈ mainLongOptions, name.isPrefixOf o.name = false := by
      intro o ho
      rw [← Bool.not_eq_true, List.isPrefixOf_iff_prefix]
      exact fun h => hbegins (List.mem_flatMap.mpr ⟨o, ho, (List.mem_inits _ _).mpr h⟩)
    have hlisted : ∀ name ∈ ambiguousNames ++ sharedNames,
        name ∈ mainLongOptions.flatMap fun o => o.name.inits := by decide +kernel
    have hunlisted : name ∉ ambiguousNames ∧ name ∉ sharedNames :=
      ⟨fun h => hbegins (hlisted name (List.mem_append_left _ h)),
        fun h => hbegins (hlisted name (List.mem_append_right _ h))⟩
    have hcandidates : candidates name = [] :=
      List.filter_eq_nil_iff.mpr fun o ho => by simp [hnone o ho]
    have hsearch : searchMain name = (none, false) := matchLoop_unmatched hnone _
    constructor
    · simp [hcandidates, hunlisted]
    · simp [hsearch, hunlisted]
    · simp [hsearch, hcandidates]

theorem mainLongOptions_abbreviations_rev : Classified (ascii "r") :=
  mainLongOptions_abbreviations (ascii "r") (by decide +kernel)

end Quid
