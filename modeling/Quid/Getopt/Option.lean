import Quid.Getopt

/-!
# One option

What a call finds at an option depends on the characters at `place` and on the
arguments from the option's on, not on where they stand in the vector.
-/

namespace Quid

open Quid.Foundation
open Quid.Foundation.CString

/-- What a call finds at an option: `count` arguments are used up. -/
structure Occurrence where
  value : Int
  place : Cursor
  count : Nat
  report : Report
  deriving DecidableEq, Repr

def Getopt.after (s : Getopt) (o : Occurrence) : Getopt :=
  { s with place := o.place, optind := s.optind + o.count, report := o.report }

/-- `f` finds `o` before the arguments `words`, whatever stands in front of them. -/
def Decodes (f : Nat → Getopt → Except Fault (Int × Getopt)) (place : Cursor)
    (words : List Bytes) (report : Report) (o : Occurrence) : Prop :=
  ∀ front s, s.nargv = front ++ words → s.optind = front.length → s.place = place →
    s.report = report → f s.nargv.length s = .ok (o.value, s.after o)

variable {call : Call} {options : Bytes} {flags : Flags} {place : Cursor} {words : List Bytes}
  {report : Report}

theorem readArg_append {s : Getopt} {front words : List Bytes} (hargv : s.nargv = front ++ words)
    {i : Nat} (hi : i ≤ words.length) : s.readArg (front.length + i) = .ok words[i]? := by
  rw [Getopt.readArg, hargv, if_pos (by rw [List.length_append]; omega)]
  rw [List.getElem?_append_right (Nat.le_add_right _ _), Nat.add_sub_cancel_left]

/-! ## Long options -/

/-- No option is answered by `-1`, the answer that ends the parse. -/
structure Answering (call : Call) (options : Bytes) : Prop where
  long : ∀ longOptions, call.longOptions = some longOptions →
    ∀ o ∈ longOptions, o.flag = none → o.val ≠ -1
  short : ∀ c ∈ options, charInt c ≠ -1
  dash : call.longOptions = none → chr '-' ∈ options

theorem badch_ne : badch ≠ -1 := by decide

theorem badarg_ne (options : Bytes) : badarg options ≠ -1 := by
  unfold badarg
  split <;> decide

theorem matchLoop_mem {name : Bytes} {shortToo : Bool} {i : Nat} {rest : List LongOption}
    {matched : Matched} {m : Nat} {o : LongOption}
    (h : (matchLoop name shortToo i rest matched).1 = some (m, o)) :
    o ∈ rest ∨ matched.1 = some (m, o) := by
  induction rest generalizing i matched with
  | nil => exact .inr h
  | cons first rest ih =>
      rw [matchLoop] at h
      split at h
      · exact (ih h).imp_left (List.mem_cons_of_mem _)
      split at h
      · cases h
        exact .inl List.mem_cons_self
      split at h
      · exact (ih h).imp_left (List.mem_cons_of_mem _)
      rcases ih h with h | h
      · exact .inl (List.mem_cons_of_mem _ h)
      · obtain ⟨_ | ⟨_, _⟩, _⟩ := matched
        · cases h
          exact .inl List.mem_cons_self
        · exact .inr h

theorem parseLongOptions_decodes (call : Call) (options : Bytes) (place : Cursor)
    (report : Report) (shortToo : Bool) {longOptions : List LongOption}
    (hvals : ∀ o ∈ longOptions, o.flag = none → o.val ≠ -1) (hwords : words ≠ []) :
    ∃ o, Decodes (fun _ => parseLongOptions call options longOptions shortToo) place words
        report o ∧ o.place = place ∧ o.count ≤ words.length ∧
      (o.value = -1 ∧ shortToo = true ∧ o.count = 0 ∧ o.report = report ∨
        o.value ≠ -1 ∧ o.count ≠ 0) := by
  obtain ⟨word, words, rfl⟩ := List.exists_cons_of_ne_nil hwords
  -- an answer that uses up the word itself and possibly the one after it
  have answers : ∀ {value count} (report' : Report), value ≠ -1 → count ≠ 0 →
      count ≤ (word :: words).length →
      Decodes (fun _ => parseLongOptions call options longOptions shortToo) place (word :: words)
        report ⟨value, place, count, report'⟩ →
      ∃ o, Decodes (fun _ => parseLongOptions call options longOptions shortToo) place
          (word :: words) report o ∧ o.place = place ∧ o.count ≤ (word :: words).length ∧
        (o.value = -1 ∧ shortToo = true ∧ o.count = 0 ∧ o.report = report ∨
          o.value ≠ -1 ∧ o.count ≠ 0) :=
    fun _ hvalue hcount hle hdecodes => ⟨_, hdecodes, rfl, hle, .inr ⟨hvalue, hcount⟩⟩
  rcases hmatched : matchLoop (splitEqual place.text).1 shortToo 0 longOptions (none, false) with
    ⟨found, _ | _⟩
  case true =>
    refine answers { warnx call options (ambig (splitEqual place.text).1) report with optopt := 0 }
      badch_ne Nat.one_ne_zero (by simp) ?_
    rintro front s - - rfl rfl
    simp only [parseLongOptions, hmatched]
    rfl
  cases found with
  | none =>
      cases shortToo with
      | true =>
          refine ⟨⟨-1, place, 0, report⟩, ?_, rfl, by simp, .inl ⟨rfl, rfl, rfl, rfl⟩⟩
          rintro front s - - rfl rfl
          simp [parseLongOptions, hmatched]
          rfl
      | false =>
          refine answers { warnx call options (illoptstring place.text) report with optopt := 0 }
            badch_ne Nat.one_ne_zero (by simp) ?_
          rintro front s - - rfl rfl
          simp only [parseLongOptions, hmatched]
          rfl
  | some seen =>
      obtain ⟨m, o⟩ := seen
      have hanswer : answerMatch o ≠ -1 := by
        unfold answerMatch
        split
        · refine hvals o ?_ ‹_›
          simpa using matchLoop_mem (congrArg Prod.fst hmatched)
        · decide
      rcases hequal : (splitEqual place.text).2 with _ | argument
      · cases harg : o.hasArg with
        | noArgument =>
            refine answers (reportMatch m o report) hanswer Nat.one_ne_zero (by simp) ?_
            rintro front s - - rfl rfl
            simp [parseLongOptions, hmatched, hequal, harg, takeLongArgument]
            rfl
        | requiredArgument =>
            cases words with
            | nil =>
                refine answers { warnx call options (recargstring place.text)
                  { report with optarg := none } with optopt := answerMatch o }
                  (badarg_ne options) Nat.one_ne_zero (by simp) ?_
                rintro front s hargv hind rfl rfl
                have hread := readArg_append (s := { s with optind := s.optind + 1 }) hargv
                  (i := 1) (by simp)
                rw [← hind] at hread
                simp [parseLongOptions, hmatched, hequal, harg, takeLongArgument, hread]
                rfl
            | cons next words =>
                refine answers (reportMatch m o { report with optarg := some next })
                  hanswer two_ne_zero (by simp) ?_
                rintro front s hargv hind rfl rfl
                have hread := readArg_append (s := { s with optind := s.optind + 1 }) hargv
                  (i := 1) (by simp)
                rw [← hind] at hread
                simp [parseLongOptions, hmatched, hequal, harg, takeLongArgument, hread]
                rfl
        | optionalArgument =>
            refine answers (reportMatch m o report) hanswer Nat.one_ne_zero (by simp) ?_
            rintro front s - - rfl rfl
            simp [parseLongOptions, hmatched, hequal, harg, takeLongArgument]
            rfl
      · by_cases harg : o.hasArg = .noArgument
        · refine answers { warnx call options (noarg (splitEqual place.text).1) report with
            optopt := answerMatch o } (badarg_ne options) Nat.one_ne_zero (by simp) ?_
          rintro front s - - rfl rfl
          simp [parseLongOptions, hmatched, hequal, harg]
          rfl
        · refine answers (reportMatch m o { report with optarg := some argument })
            hanswer Nat.one_ne_zero (by simp) ?_
          rintro front s - - rfl rfl
          have htake : ∀ s : Getopt, takeLongArgument o (some argument) s =
              .ok { s with report.optarg := some argument } := fun s => by
            cases hkind : o.hasArg <;> simp_all [takeLongArgument]
          simp [parseLongOptions, hmatched, hequal, harg, htake]
          rfl

/-! ## Short options -/

structure Occurrence.Advances (o : Occurrence) (place : Cursor) (words : List Bytes) : Prop where
  value_ne : o.value ≠ -1
  count_le : o.count ≤ words.length
  inside : o.count = 0 → o.place.text ≠ [] ∧ o.place.first = false ∧
    o.place.text.length < place.text.length
  done : o.count ≠ 0 → o.place = emsg

theorem Occurrence.Advances.of_done {o : Occurrence} (hvalue : o.value ≠ -1)
    (hcount : o.count ≠ 0) (hle : o.count ≤ words.length) (hplace : o.place = emsg) :
    o.Advances place words :=
  ⟨hvalue, hle, fun h => absurd h hcount, fun _ => hplace⟩

theorem takeShortArgument_decodes {c : UInt8} (hc : charInt c ≠ -1) (oli : Bytes)
    (hwords : words ≠ []) :
    ∃ o, Decodes (fun nargc => takeShortArgument call options nargc c oli) place words report o ∧
      o.Advances place words := by
  obtain ⟨word, words, rfl⟩ := List.exists_cons_of_ne_nil hwords
  by_cases hrest : place.text = []
  · by_cases holi : oli.head? = some (chr ':')
    · refine ⟨⟨charInt c, emsg, 1, { report with optarg := none }⟩, ?_,
        .of_done hc Nat.one_ne_zero (by simp) rfl⟩
      rintro front s - - rfl rfl
      simp [takeShortArgument, hrest, holi]
      rfl
    · cases words with
      | nil =>
          refine ⟨⟨badarg options, emsg, 1, { warnx call options (recargchar c)
            { report with optarg := none } with optopt := charInt c }⟩, ?_,
            .of_done (badarg_ne options) Nat.one_ne_zero (by simp) rfl⟩
          rintro front s hargv hind rfl rfl
          have hlast : s.nargv.length ≤ s.optind + 1 := by simp [hargv, hind]
          simp [takeShortArgument, hrest, holi, hlast]
          rfl
      | cons next words =>
          refine ⟨⟨charInt c, emsg, 2, { report with optarg := some next }⟩, ?_,
            .of_done hc two_ne_zero (by simp) rfl⟩
          rintro front s hargv hind rfl rfl
          have hread := readArg_append (s := { s with
            optind := s.optind + 1, report.optarg := none }) hargv (i := 1) (by simp)
          rw [← hind] at hread
          have hinside : ¬s.nargv.length ≤ s.optind + 1 := by simp [hargv, hind]
          simp [takeShortArgument, hrest, holi, hread, hinside]
          rfl
  · refine ⟨⟨charInt c, emsg, 1, { report with optarg := some place.text }⟩, ?_,
      .of_done hc Nat.one_ne_zero (by simp) rfl⟩
    rintro front s - - rfl rfl
    simp [takeShortArgument, hrest]
    rfl

theorem longAfterW_decodes {longOptions : List LongOption} (c : UInt8)
    (hvals : ∀ o ∈ longOptions, o.flag = none → o.val ≠ -1) (hwords : words ≠ []) :
    ∃ o, Decodes (fun nargc => longAfterW call options longOptions nargc c) place words report o ∧
      o.Advances place words := by
  by_cases hrest : place.text = []
  · obtain ⟨word, words, rfl⟩ := List.exists_cons_of_ne_nil hwords
    cases words with
    | nil =>
        refine ⟨⟨badarg options, emsg, 1, { warnx call options (recargchar c) report with
          optopt := charInt c }⟩, ?_, .of_done (badarg_ne options) Nat.one_ne_zero (by simp) rfl⟩
        rintro front s hargv hind rfl rfl
        have hlast : s.nargv.length ≤ s.optind + 1 := by simp [hargv, hind]
        simp [longAfterW, hrest, hlast]
        rfl
    | cons next words =>
        obtain ⟨o, hdecodes, -, hle, ⟨-, hshort, -⟩ | ⟨hvalue, -⟩⟩ :=
          parseLongOptions_decodes call options ⟨next, true⟩ report false hvals
            (List.cons_ne_nil next words)
        · cases hshort
        refine ⟨⟨o.value, emsg, o.count + 1, o.report⟩, ?_,
          .of_done hvalue (Nat.succ_ne_zero _) (by simpa using hle) rfl⟩
        rintro front s hargv hind rfl rfl
        have hread := readArg_append (s := { s with optind := s.optind + 1 }) hargv
          (i := 1) (by simp)
        rw [← hind] at hread
        have hinside : ¬s.nargv.length ≤ s.optind + 1 := by simp [hargv, hind]
        have hparse := hdecodes (front ++ [word])
          { s with optind := s.optind + 1, place := ⟨next, true⟩ } (by simpa using hargv)
          (by simp [hind]) rfl rfl
        simp [longAfterW, hrest, hread, hinside, hparse, Getopt.after]
        omega
  · obtain ⟨o, hdecodes, -, hle, ⟨-, hshort, -⟩ | ⟨hvalue, hcount⟩⟩ :=
      parseLongOptions_decodes call options place report false hvals hwords
    · cases hshort
    refine ⟨⟨o.value, emsg, o.count, o.report⟩, ?_, .of_done hvalue hcount hle rfl⟩
    rintro front s hargv hind rfl rfl
    simp [longAfterW, hrest, hdecodes front s hargv hind rfl rfl, Getopt.after]

theorem strchr_eq_none_iff {c : UInt8} : strchr options c = none ↔ c ∉ options := by
  unfold strchr
  split
  · next h =>
      simp only [true_iff]
      intro hc
      simpa using List.dropWhile_eq_nil_iff.mp h c hc
  · next h =>
      simp only [reduceCtorEq, false_iff, not_not]
      by_contra hc
      exact h (List.dropWhile_eq_nil_iff.mpr fun d hd => by
        simp only [decide_eq_true_eq]
        rintro rfl
        exact hc hd)

def Occurrence.letter (value : Int) (rest : Bytes) (report : Report) : Occurrence :=
  ⟨value, ⟨rest, false⟩, if rest = [] then 1 else 0, report⟩

theorem letter_advances {value : Int} {c : UInt8} {rest : Bytes} (hvalue : value ≠ -1)
    (hplace : place.text = c :: rest) (hwords : words ≠ []) (report : Report) :
    (Occurrence.letter value rest report).Advances place words := by
  have hcount : 1 ≤ words.length := List.length_pos_of_ne_nil hwords
  by_cases hrest : rest = []
  · subst hrest
    exact .of_done hvalue Nat.one_ne_zero hcount rfl
  · refine ⟨hvalue, ?_, fun _ => ⟨hrest, rfl, by simp [Occurrence.letter, hplace]⟩, fun h => ?_⟩
    · simp [Occurrence.letter, hrest]
    · simp [Occurrence.letter, hrest] at h

theorem passWord_eq (s : Getopt) (rest : Bytes) (value : Int) :
    Getopt.passWord { s with place := ⟨rest, false⟩ } =
      s.after (.letter value rest s.report) := by
  unfold Getopt.passWord Occurrence.letter
  split <;> rfl

theorem knownOption_eq (call : Call) (options : Bytes) (c : UInt8) (oli : Bytes) :
    (∃ longOptions, call.longOptions = some longOptions ∧
      ∀ nargc s, knownOption call options nargc c oli s =
        longAfterW call options longOptions nargc c s) ∨
    (∀ nargc s, knownOption call options nargc c oli s = .ok (charInt c, s.passWord)) ∨
    ∀ nargc s, knownOption call options nargc c oli s =
      takeShortArgument call options nargc c (oli.drop 1) s := by
  by_cases hword : c = chr 'W' ∧ oli.head? = some (chr ';')
  · rcases hlong : call.longOptions with _ | longOptions
    · by_cases holi : oli.head? = some (chr ':')
      · simp [hword.2] at holi
        cases holi
      · exact .inr (.inl fun nargc s => by simp [knownOption, hlong, holi])
    · exact .inl ⟨longOptions, rfl, fun nargc s => by simp [knownOption, hlong, hword]⟩
  · have hplain : ∀ nargc s, knownOption call options nargc c oli s =
        if oli.head? ≠ some (chr ':') then .ok (charInt c, s.passWord)
        else takeShortArgument call options nargc c (oli.drop 1) s := fun nargc s => by
      rw [knownOption, decide_eq_false hword]
      cases call.longOptions <;> rfl
    by_cases holi : oli.head? = some (chr ':')
    · exact .inr (.inr fun nargc s => by rw [hplain, if_neg (not_not_intro holi)])
    · exact .inr (.inl fun nargc s => by rw [hplain, if_pos holi])

theorem knownOption_decodes (report : Report) {c : UInt8} {rest : Bytes}
    (hcall : Answering call options) (hc : charInt c ≠ -1) (hplace : place.text = c :: rest)
    (oli : Bytes) (hwords : words ≠ []) :
    ∃ o, Decodes (fun nargc s => knownOption call options nargc c oli
        { s with place := ⟨rest, false⟩ }) place words report o ∧ o.Advances place words := by
  -- a function that starts behind the letter
  have behind : ∀ {f : Nat → Getopt → Except Fault (Int × Getopt)},
      (∀ nargc s, knownOption call options nargc c oli s = f nargc s) →
      (∃ o, Decodes f ⟨rest, false⟩ words report o ∧ o.Advances ⟨rest, false⟩ words) →
      ∃ o, Decodes (fun nargc s => knownOption call options nargc c oli
          { s with place := ⟨rest, false⟩ }) place words report o ∧ o.Advances place words := by
    rintro f hf ⟨o, hdecodes, ho⟩
    refine ⟨o, fun front s hargv hind _ hreport => ?_, ho.value_ne, ho.count_le, fun h =>
      ⟨(ho.inside h).1, (ho.inside h).2.1, (ho.inside h).2.2.trans (by simp [hplace])⟩, ho.done⟩
    exact (hf _ _).trans
      (hdecodes front { s with place := ⟨rest, false⟩ } hargv hind rfl hreport)
  rcases knownOption_eq call options c oli with ⟨longOptions, hlong, hform⟩ | hform | hform
  · exact behind hform (longAfterW_decodes c (hcall.long longOptions hlong) hwords)
  · refine ⟨_, ?_, letter_advances hc hplace hwords report⟩
    rintro front s - - rfl rfl
    exact (hform _ _).trans (by rw [passWord_eq]; rfl)
  · exact behind hform (takeShortArgument_decodes hc _ hwords)

theorem findShort_mem {c : UInt8} {rest oli : Bytes} (h : findShort options c rest = some oli) :
    c ∈ options := by
  by_contra hc
  rw [findShort, strchr_eq_none_iff.mpr hc, ite_self] at h
  cases h

theorem shortOption_decodes (report : Report) {c : UInt8} {rest : Bytes}
    (hcall : Answering call options) (hdash : c = chr '-' → rest = [] → chr '-' ∈ options)
    (hplace : place.text = c :: rest) (hwords : words ≠ []) :
    ∃ o, Decodes (shortOption call options) place words report o ∧ o.Advances place words := by
  rcases hfound : findShort options c rest with _ | oli
  · have hanswers : ¬(c = chr '-' ∧ rest = []) := by
      rintro ⟨rfl, rfl⟩
      rw [findShort, if_neg (by decide), strchr_eq_none_iff] at hfound
      exact hfound (hdash rfl rfl)
    refine ⟨_, ?_, letter_advances badch_ne hplace hwords
      { warnx call options (illoptchar c) report with optopt := charInt c }⟩
    rintro front s - - rfl rfl
    simp only [shortOption, hplace, hfound, unknownOption, hanswers, if_false,
      passWord_eq s rest badch]
    rfl
  · obtain ⟨o, hdecodes, ho⟩ := knownOption_decodes report hcall
      (hcall.short c (findShort_mem hfound)) hplace (oli.drop 1) hwords
    refine ⟨o, fun front s hargv hind hs hreport => ?_, ho⟩
    simp only [shortOption, hs, hplace, hfound]
    exact hdecodes front s hargv hind hs hreport

/-! ## Either kind -/

/-- `place` after "update scanning pointer": at an option, and on `-` only where it is one. -/
structure Scanned (options : Bytes) (place : Cursor) : Prop where
  text_ne : place.text ≠ []
  first : place.first = true → chr '-' ∈ options

theorem longThenShort_decodes (call : Call) (options : Bytes) (place : Cursor)
    (report : Report) (shortToo : Bool) {longOptions : List LongOption}
    (hvals : ∀ o ∈ longOptions, o.flag = none → o.val ≠ -1) (hwords : words ≠ [])
    (hshort : shortToo = true →
      ∃ o, Decodes (shortOption call options) place words report o ∧ o.Advances place words) :
    ∃ o, Decodes (fun nargc => longThenShort call options longOptions nargc shortToo) place words
        report o ∧ o.Advances place words := by
  obtain ⟨o, hdecodes, hback, hle, ⟨hvalue, htoo, hcount, hsame⟩ | ⟨hvalue, hcount⟩⟩ :=
    parseLongOptions_decodes call options place report shortToo hvals hwords
  · obtain ⟨o', hdecodes', ho'⟩ := hshort htoo
    refine ⟨o', fun front s hargv hind hs hreport => ?_, ho'⟩
    have hstay : s.after o = s := by
      rw [Getopt.after, hback, hcount, hsame, ← hs, ← hreport]
      rfl
    simp only [longThenShort, hdecodes front s hargv hind hs hreport, hstay, hvalue, ok_bind,
      ne_eq, not_true_eq_false, if_false]
    exact hdecodes' front s hargv hind hs hreport
  · refine ⟨{ o with place := emsg }, fun front s hargv hind hs hreport => ?_,
      .of_done hvalue hcount hle rfl⟩
    simp only [longThenShort, hdecodes front s hargv hind hs hreport, ok_bind, ne_eq, hvalue,
      not_false_eq_true, if_true]
    rfl

theorem optionAt_decodes (flags : Flags) (report : Report) (hcall : Answering call options)
    (hplace : Scanned options place) (hwords : words ≠ []) :
    ∃ o, Decodes (optionAt call options flags) place words report o ∧ o.Advances place words := by
  obtain ⟨c, rest, htext⟩ := List.exists_cons_of_ne_nil hplace.text_ne
  have short := fun hdash => shortOption_decodes report hcall hdash htext hwords
  rcases hlong : call.longOptions with _ | longOptions
  · obtain ⟨o, hdecodes, ho⟩ := short fun _ _ => hcall.dash hlong
    refine ⟨o, fun front s hargv hind hs hreport => ?_, ho⟩
    simp only [optionAt, hlong]
    exact hdecodes front s hargv hind hs hreport
  have hvals := hcall.long longOptions hlong
  by_cases hfirst : place.first = true
  · obtain ⟨o, hdecodes, ho⟩ := short fun _ _ => hplace.first hfirst
    refine ⟨o, fun front s hargv hind hs hreport => ?_, ho⟩
    simp only [optionAt, hlong, hs, hfirst, if_true]
    exact hdecodes front s hargv hind hs hreport
  by_cases hdash : place.text.head? = some (chr '-')
  · obtain ⟨o, hdecodes, ho⟩ := longThenShort_decodes call options
      ⟨place.text.drop 1, false⟩ report false hvals hwords (by simp)
    refine ⟨o, fun front s hargv hind hs hreport => ?_, ho.value_ne, ho.count_le, fun h => ?_,
      ho.done⟩
    · simp only [optionAt, hlong, hs, hfirst, hdash, if_true]
      exact hdecodes front { s with place := ⟨place.text.drop 1, false⟩ } hargv hind rfl hreport
    · obtain ⟨htext', hfirst', hshorter⟩ := ho.inside h
      exact ⟨htext', hfirst', hshorter.trans (by simp [htext])⟩
  have hshort := short fun hc _ => absurd (by rw [htext, hc]; rfl) hdash
  by_cases honly : flags.longonly = true
  · obtain ⟨o, hdecodes, ho⟩ := longThenShort_decodes call options place report _
      hvals hwords fun _ => hshort
    refine ⟨o, fun front s hargv hind hs hreport => ?_, ho⟩
    simp only [optionAt, hlong, hs, hfirst, hdash, honly, if_true, if_false]
    exact hdecodes front s hargv hind hs hreport
  · obtain ⟨o, hdecodes, ho⟩ := hshort
    refine ⟨o, fun front s hargv hind hs hreport => ?_, ho⟩
    simp only [optionAt, hlong, hs, hfirst, hdash, honly, if_false]
    exact hdecodes front s hargv hind hs hreport

end Quid
