import Quid.Getopt.Abbreviation
import Quid.Getopt.Reading

/-!
# What an answer promises

A caller reads `optarg` and its index without a test where it has asked for an
argument.  Every answer of the parser, in every mode, keeps the promise of the
table and of the option letters, and hands out nothing but characters of the
arguments.
-/

namespace Quid

open Quid.Foundation
open Quid.Foundation.CString
open Quid.Foundation.Exchange

/--
What an answer is: a complaint, an operand in its place, an option of the table or
a letter of the options.  The two last come with their argument where they need one.
-/
inductive Contract (call : Call) (options : Bytes) (value : Int) (report : Report) : Prop
  | rejected (hvalue : value = badch ∨ value = badarg options)
  | operand (hvalue : value = inorder) (hgiven : report.optarg ≠ none)
  | long {table : List LongOption} {m : Nat} {o : LongOption}
      (htable : call.longOptions = some table) (hat : table[m]? = some o)
      (hvalue : value = answerMatch o) (hidx : report.idx = some m)
      (hgiven : o.hasArg = .requiredArgument → report.optarg ≠ none)
  | letter {c : UInt8} {oli : Bytes} (hat : strchr options c = some oli)
      (hvalue : value = charInt c)
      (hgiven : (oli.drop 1).head? = some (chr ':') → (oli.drop 2).head? ≠ some (chr ':') →
        report.optarg ≠ none)

/-- The caller has given an index, and no string holds a NUL but at its end. -/
structure Kept (nargc : Nat) (s : Getopt) : Prop where
  nargc : s.nargv.length = nargc
  idx : s.report.idx ≠ none
  words : ∀ w ∈ s.nargv, 0 ∉ w
  place : 0 ∉ s.place.text
  optarg : ∀ argument, s.report.optarg = some argument → 0 ∉ argument

variable {call : Call} {options : Bytes} {flags : Flags} {nargc : Nat} {s s' : Getopt}
  {value : Int} {longOptions : List LongOption}

@[simp] theorem warnx_optarg (message : Bytes) (r : Report) :
    (warnx call options message r).optarg = r.optarg := by
  unfold warnx
  split <;> rfl

@[simp] theorem warnx_idx (message : Bytes) (r : Report) :
    (warnx call options message r).idx = r.idx := by
  unfold warnx
  split <;> rfl

theorem Kept.readArg {i : Nat} {argument : Option Bytes} (hs : Kept nargc s)
    (h : s.readArg i = .ok argument) : ∀ w, argument = some w → 0 ∉ w := by
  rintro w rfl
  unfold Getopt.readArg at h
  split at h
  · exact hs.words w (List.mem_of_getElem? (Except.ok.inj h))
  · cases h

theorem Kept.warned (hs : Kept nargc s) (place : Cursor) (hplace : 0 ∉ place.text) (optind : Nat)
    (message : Bytes) (optopt : Int) :
    Kept nargc { s with
      place, optind, report := { warnx call options message s.report with optopt } } :=
  ⟨hs.nargc, by simpa using hs.idx, hs.words, hplace, by simpa using hs.optarg⟩

/-! ## Long options -/

theorem matchLoop_at {name : Bytes} {shortToo : Bool} {m : Nat} {o : LongOption}
    {ambiguous : Bool}
    (h : matchLoop name shortToo 0 longOptions (none, false) = (some (m, o), ambiguous)) :
    longOptions[m]? = some o := by
  have hstart : Partial (Abbreviates name shortToo) [] (none, false) := ⟨rfl, by simp⟩
  rcases matchLoop_from longOptions (by simp) hstart with
    ⟨m', o', hloop, hfirst⟩ | ⟨-, hpartial⟩
  · simp only [List.length_nil, List.nil_append] at hloop hfirst
    rw [h] at hloop
    cases hloop
    exact hfirst.1
  · simp only [List.length_nil, List.nil_append, h] at hpartial
    exact hpartial.1.1

theorem strchr_subset {c : UInt8} {oli : Bytes} (h : strchr options c = some oli) :
    oli <:+ options := by
  unfold strchr at h
  split at h
  · cases h
  · next hdrop =>
      cases h
      exact List.dropWhile_suffix _

theorem splitEqual_kept {text : Bytes} (htext : 0 ∉ text) :
    ∀ argument, (splitEqual text).2 = some argument → 0 ∉ argument := by
  intro argument h hzero
  obtain ⟨rest, hrest, rfl⟩ := Option.map_eq_some_iff.mp h
  exact htext ((strchr_subset hrest).subset (List.mem_of_mem_drop hzero))

theorem takeLongArgument_kept {o : LongOption} {hasEqual : Option Bytes} (hs : Kept nargc s)
    (hequal : ∀ argument, hasEqual = some argument → 0 ∉ argument)
    (h : takeLongArgument o hasEqual s = .ok s') : Kept nargc s' := by
  unfold takeLongArgument at h
  split at h
  · cases h
    exact hs
  · cases h
    exact ⟨hs.nargc, hs.idx, hs.words, hs.place, fun _ hgiven => by
      cases hgiven
      exact hequal _ rfl⟩
  · obtain ⟨argument, hread, hdone⟩ := bind_eq_ok.mp h
    cases hdone
    exact ⟨hs.nargc, hs.idx, hs.words, hs.place, hs.readArg hread⟩
  · cases h
    exact hs

theorem reportMatch_idx {m : Nat} {o : LongOption} {r : Report} (h : r.idx ≠ none) :
    (reportMatch m o r).idx = some m := by
  obtain ⟨i, hi⟩ := Option.ne_none_iff_exists'.mp h
  unfold reportMatch
  cases o.flag <;> simp [hi]

theorem reportMatch_optarg (m : Nat) (o : LongOption) (r : Report) :
    (reportMatch m o r).optarg = r.optarg := by
  unfold reportMatch
  cases o.flag <;> rfl

theorem parseLongOptions_contract {shortToo : Bool} (hlong : call.longOptions = some longOptions)
    (hs : Kept nargc s)
    (h : parseLongOptions call options longOptions shortToo s = .ok (value, s')) :
    Kept nargc s' ∧ (value = -1 ∨ Contract call options value s'.report) := by
  have hpassed : Kept nargc { s with optind := s.optind + 1 } :=
    ⟨hs.nargc, hs.idx, hs.words, hs.place, hs.optarg⟩
  simp only [parseLongOptions] at h
  rcases hmatched : matchLoop (splitEqual s.place.text).1 shortToo 0 longOptions (none, false) with
    ⟨found, _ | _⟩
  case true =>
    simp only [hmatched, if_true] at h
    cases h
    exact ⟨hs.warned _ hs.place _ _ _, .inr (.rejected (.inl rfl))⟩
  simp only [hmatched, Bool.false_eq_true, if_false] at h
  cases found with
  | none =>
      cases shortToo with
      | true =>
          cases h
          exact ⟨⟨hs.nargc, hs.idx, hs.words, hs.place, hs.optarg⟩, .inl rfl⟩
      | false =>
          cases h
          exact ⟨hs.warned _ hs.place _ _ _, .inr (.rejected (.inl rfl))⟩
  | some seen =>
      obtain ⟨m, o⟩ := seen
      dsimp only at h
      split at h
      · cases h
        exact ⟨hs.warned _ hs.place _ _ _, .inr (.rejected (.inr rfl))⟩
      obtain ⟨t, htake, h⟩ := bind_eq_ok.mp h
      have ht := takeLongArgument_kept hpassed (splitEqual_kept hs.place) htake
      split at h
      · cases h
        exact ⟨ht.warned _ ht.place _ _ _, .inr (.rejected (.inr rfl))⟩
      · next hmissing =>
          cases h
          refine ⟨⟨ht.nargc, ?_, ht.words, ht.place, ?_⟩, .inr ?_⟩
          · rw [reportMatch_idx ht.idx]
            exact Option.some_ne_none m
          · simpa only [reportMatch_optarg] using ht.optarg
          · refine .long hlong (matchLoop_at hmatched) rfl (reportMatch_idx ht.idx) ?_
            intro hrequired hnone
            exact hmissing ⟨hrequired, (reportMatch_optarg m o t.report).symm.trans hnone⟩

/-! ## Short options -/

theorem takeShortArgument_contract {c : UInt8} {oli : Bytes} (hat : strchr options c = some oli)
    (hs : Kept nargc s)
    (h : takeShortArgument call options nargc c (oli.drop 2) s = .ok (value, s')) :
    Kept nargc s' ∧ Contract call options value s'.report := by
  simp only [takeShortArgument] at h
  split at h
  · cases h
    refine ⟨⟨hs.nargc, hs.idx, hs.words, by simp [emsg], ?_⟩, .letter hat rfl fun _ _ => ?_⟩
    · rintro argument ⟨⟩
      exact hs.place
    · exact Option.some_ne_none _
  split at h
  · split at h
    · cases h
      refine ⟨?_, .rejected (.inr rfl)⟩
      exact ⟨hs.nargc, by simpa using hs.idx, hs.words, by simp [emsg], by simp⟩
    · next hinside =>
        obtain ⟨argument, hread, h⟩ := bind_eq_ok.mp h
        cases h
        refine ⟨⟨hs.nargc, hs.idx, hs.words, by simp [emsg], hs.readArg hread⟩,
          .letter hat rfl fun _ _ hnone => ?_⟩
        -- the argument lies inside the vector
        unfold Getopt.readArg at hread
        split at hread
        · simp only [Except.ok.injEq] at hread
          rw [show argument = none from hnone, List.getElem?_eq_none_iff, hs.nargc] at hread
          exact hinside hread
        · cases hread
  · next hdouble =>
      cases h
      exact ⟨⟨hs.nargc, hs.idx, hs.words, by simp [emsg], by simp⟩,
        .letter hat rfl fun _ hsingle => absurd (not_not.mp hdouble) hsingle⟩

theorem longAfterW_contract {c : UInt8} (hlong : call.longOptions = some longOptions)
    (hs : Kept nargc s)
    (h : longAfterW call options longOptions nargc c s = .ok (value, s')) :
    Kept nargc s' ∧ (value = -1 ∨ Contract call options value s'.report) := by
  have parsed : ∀ {t : Getopt} {answer : Int × Getopt}, Kept nargc t →
      parseLongOptions call options longOptions false t = .ok answer →
      Kept nargc { answer.2 with place := emsg } ∧
        (answer.1 = -1 ∨ Contract call options answer.1 answer.2.report) := by
    intro t answer ht hparse
    obtain ⟨hkept, hcontract⟩ := parseLongOptions_contract hlong ht hparse
    exact ⟨⟨hkept.nargc, hkept.idx, hkept.words, by simp [emsg], hkept.optarg⟩, hcontract⟩
  simp only [longAfterW] at h
  split at h
  · obtain ⟨answer, hparse, h⟩ := bind_eq_ok.mp h
    cases h
    exact parsed hs hparse
  split at h
  · cases h
    exact ⟨hs.warned _ (by simp [emsg]) _ _ _, .inr (.rejected (.inr rfl))⟩
  · obtain ⟨argument, hread, h⟩ := bind_eq_ok.mp h
    cases argument with
    | none => cases h
    | some argument =>
        obtain ⟨answer, hparse, h⟩ := bind_eq_ok.mp h
        cases h
        have hnext : Kept nargc { s with optind := s.optind + 1, place := ⟨argument, true⟩ } :=
          ⟨hs.nargc, hs.idx, hs.words, hs.readArg hread _ rfl, hs.optarg⟩
        exact parsed hnext hparse

theorem Kept.passWord (hs : Kept nargc s) : Kept nargc s.passWord := by
  unfold Getopt.passWord
  split
  · exact ⟨hs.nargc, hs.idx, hs.words, hs.place, hs.optarg⟩
  · exact hs

theorem knownOption_contract {c : UInt8} {oli : Bytes} (hat : strchr options c = some oli)
    (hs : Kept nargc s)
    (h : knownOption call options nargc c (oli.drop 1) s = .ok (value, s')) :
    Kept nargc s' ∧ (value = -1 ∨ Contract call options value s'.report) := by
  unfold knownOption at h
  split at h
  · next longOptions hlong _ => exact longAfterW_contract hlong hs h
  · split at h
    · next hnone =>
        cases h
        refine ⟨hs.passWord, .inr (.letter hat rfl fun hcolon => absurd hcolon hnone)⟩
    · rw [List.drop_drop] at h
      obtain ⟨hkept, hcontract⟩ := takeShortArgument_contract hat hs h
      exact ⟨hkept, .inr hcontract⟩

theorem shortOption_contract (hs : Kept nargc s)
    (h : shortOption call options nargc s = .ok (value, s')) :
    Kept nargc s' ∧ (value = -1 ∨ Contract call options value s'.report) := by
  unfold shortOption at h
  split at h
  · cases h
  · next c rest htext =>
      have hrest : 0 ∉ rest := fun hzero =>
        hs.place (by rw [htext]; exact List.mem_cons_of_mem _ hzero)
      have hbehind : Kept nargc { s with place := ⟨rest, false⟩ } :=
        ⟨hs.nargc, hs.idx, hs.words, hrest, hs.optarg⟩
      dsimp only at h
      split at h
      · simp only [unknownOption, Except.ok.injEq] at h
        split at h
        · cases h
          exact ⟨hbehind, .inl rfl⟩
        · cases h
          have hpassed := hbehind.passWord
          exact ⟨hpassed.warned _ hpassed.place _ _ _, .inr (.rejected (.inl rfl))⟩
      · next oli hfound =>
          have hat : strchr options c = some oli := by
            unfold findShort at hfound
            split at hfound
            · cases hfound
            · exact hfound
          exact knownOption_contract hat hbehind h

theorem longThenShort_contract {shortToo : Bool} (hlong : call.longOptions = some longOptions)
    (hs : Kept nargc s)
    (h : longThenShort call options longOptions nargc shortToo s = .ok (value, s')) :
    Kept nargc s' ∧ (value = -1 ∨ Contract call options value s'.report) := by
  obtain ⟨answer, hparse, h⟩ := bind_eq_ok.mp h
  obtain ⟨hkept, hcontract⟩ := parseLongOptions_contract hlong hs hparse
  dsimp only at h
  split at h
  · cases h
    exact ⟨⟨hkept.nargc, hkept.idx, hkept.words, by simp [emsg], hkept.optarg⟩, hcontract⟩
  · exact shortOption_contract hkept h

theorem optionAt_contract (hs : Kept nargc s)
    (h : optionAt call options flags nargc s = .ok (value, s')) :
    Kept nargc s' ∧ (value = -1 ∨ Contract call options value s'.report) := by
  have hdrop : Kept nargc { s with place := ⟨s.place.text.drop 1, false⟩ } :=
    ⟨hs.nargc, hs.idx, hs.words, fun hzero => hs.place (List.mem_of_mem_drop hzero), hs.optarg⟩
  unfold optionAt at h
  split at h
  · exact shortOption_contract hs h
  · next longOptions hlong =>
      split at h
      · exact shortOption_contract hs h
      split at h
      · exact longThenShort_contract hlong hdrop h
      split at h
      · exact longThenShort_contract hlong hs h
      · exact shortOption_contract hs h

/-! ## The scan -/

theorem permuteArgs_perm {nonoptStart nonoptEnd optEnd : Nat} {nargv nargv' : List Bytes}
    (h : permuteArgs nonoptStart nonoptEnd optEnd nargv = .ok nargv') : nargv'.Perm nargv := by
  obtain ⟨ncycle, -, h⟩ := bind_eq_ok.mp h
  dsimp only at h
  split at h
  · cases h
  · next hcycles =>
      cases h
      exact cyclesLoop_perm hcycles

theorem Kept.permuted (hs : Kept nargc s) {nonoptEnd : Nat} {moved : Nat × Getopt}
    (h : s.permuteSkipped nonoptEnd = .ok moved) : Kept nargc moved.2 := by
  unfold Getopt.permuteSkipped at h
  split at h
  · cases h
  · obtain ⟨nargv, hpermute, h⟩ := bind_eq_ok.mp h
    cases h
    have hperm := permuteArgs_perm hpermute
    exact ⟨hperm.length_eq.trans hs.nargc, hs.idx, fun w hw => hs.words w (hperm.subset hw),
      hs.place, hs.optarg⟩

def Scan.Kept (nargc : Nat) : Scan → Prop
  | .again s => Quid.Kept nargc s
  | .answer value s => Quid.Kept nargc s ∧
      (value = -1 ∨ value = inorder ∧ s.report.optarg ≠ none)
  | .option s => Quid.Kept nargc s

theorem finishScan_kept {reached : Scan} (hs : Kept nargc s) (h : finishScan s = .ok reached) :
    reached.Kept nargc := by
  unfold finishScan at h
  split at h
  · obtain ⟨moved, hpermute, h⟩ := bind_eq_ok.mp h
    cases h
    have hmoved := hs.permuted hpermute
    exact ⟨⟨hmoved.nargc, hmoved.idx, hmoved.words, hmoved.place, hmoved.optarg⟩, .inl rfl⟩
  · cases h
    exact ⟨⟨hs.nargc, hs.idx, hs.words, hs.place, hs.optarg⟩, .inl rfl⟩

theorem scanOperand_kept {argument : Bytes} {reached : Scan} (hs : Kept nargc s)
    (hargument : 0 ∉ argument) (h : scanOperand flags argument s = .ok reached) :
    reached.Kept nargc := by
  have hplain : Kept nargc { s with place := emsg } :=
    ⟨hs.nargc, hs.idx, hs.words, by simp [emsg], hs.optarg⟩
  simp only [scanOperand] at h
  split at h
  · cases h
    refine ⟨⟨hs.nargc, hs.idx, hs.words, hplain.place, ?_⟩, .inr ⟨rfl, Option.some_ne_none _⟩⟩
    rintro _ ⟨⟩
    exact hargument
  split at h
  · cases h
    exact ⟨hplain, .inl rfl⟩
  split at h
  · cases h
    exact ⟨hs.nargc, hs.idx, hs.words, hplain.place, hs.optarg⟩
  · cases h
    exact ⟨hs.nargc, hs.idx, hs.words, hplain.place, hs.optarg⟩
  · obtain ⟨moved, hpermute, h⟩ := bind_eq_ok.mp h
    cases h
    have hmoved := hplain.permuted hpermute
    exact ⟨hmoved.nargc, hmoved.idx, hmoved.words, hmoved.place, hmoved.optarg⟩

theorem Kept.opened (hs : Kept nargc s) : Kept nargc s.opened := by
  unfold Getopt.opened
  split
  · exact ⟨hs.nargc, hs.idx, hs.words, hs.place, hs.optarg⟩
  · exact hs

theorem scanOption_kept {argument : Bytes} {reached : Scan} (hs : Kept nargc s)
    (hargument : 0 ∉ argument) (h : scanOption argument s = .ok reached) :
    reached.Kept nargc := by
  have hopened := hs.opened
  simp only [scanOption] at h
  split at h
  · apply finishScan_kept _ h
    exact ⟨hopened.nargc, hopened.idx, hopened.words, by simp [emsg], hopened.optarg⟩
  split at h
  · cases h
    exact ⟨hopened.nargc, hopened.idx, hopened.words, hargument, hopened.optarg⟩
  · cases h
    exact ⟨hopened.nargc, hopened.idx, hopened.words,
      fun hzero => hargument (List.mem_of_mem_drop hzero), hopened.optarg⟩

theorem scanPass_kept {reached : Scan} (hs : Kept nargc s)
    (h : scanPass options flags nargc s = .ok reached) : reached.Kept nargc := by
  have hreset : Kept nargc { s with optreset := false } :=
    ⟨hs.nargc, hs.idx, hs.words, hs.place, hs.optarg⟩
  simp only [scanPass] at h
  split at h
  · split at h
    · split at h
      · apply finishScan_kept _ h
        exact ⟨hs.nargc, hs.idx, hs.words, by simp [emsg], hs.optarg⟩
      · apply finishScan_kept _ h
        exact ⟨hs.nargc, hs.idx, hs.words, by simp [emsg], hs.optarg⟩
    · obtain ⟨argument, hread, h⟩ := bind_eq_ok.mp h
      cases argument with
      | none => cases h
      | some argument =>
          have hargument := hs.readArg hread argument rfl
          dsimp only at h
          split at h
          · exact scanOperand_kept hreset hargument h
          · exact scanOption_kept hreset hargument h
  · cases h
    exact hs

theorem scan_kept {fuel : Nat} {reached : Scan} (hs : Kept nargc s)
    (h : scan options flags nargc fuel s = .ok reached) : reached.Kept nargc := by
  induction fuel generalizing s with
  | zero => cases h
  | succ fuel ih =>
      obtain ⟨next, hpass, h⟩ := bind_eq_ok.mp h
      have hnext := scanPass_kept hs hpass
      cases next with
      | again t => exact ih hnext h
      | answer value t =>
          cases h
          exact hnext
      | option t =>
          cases h
          exact hnext

theorem Kept.enterCall (hs : Kept nargc s) (call : Call) : Kept nargc (enterCall call s) := by
  have hkeep : ∀ t : Getopt, t.nargv = s.nargv → t.report.idx = s.report.idx →
      t.place = s.place → t.report.optarg = none → Kept nargc t := by
    intro t hargv hidx hplace hoptarg
    exact ⟨hargv ▸ hs.nargc, hidx ▸ hs.idx, hargv ▸ hs.words, hplace ▸ hs.place, by simp [hoptarg]⟩
  unfold Quid.enterCall
  apply hkeep <;> (dsimp only; split_ifs <;> rfl)

theorem getoptInternal_contract (hoptions : call.options = some options) (hs : Kept nargc s)
    (h : getoptInternal call flags s = .ok (value, s')) :
    Kept nargc s' ∧ (value = -1 ∨ Contract call (callOptions options) value s'.report) := by
  simp only [getoptInternal, hoptions] at h
  obtain ⟨reached, hscan, h⟩ := bind_eq_ok.mp h
  have hentered := hs.enterCall call
  rw [hentered.nargc] at hscan h
  have hreached := scan_kept hentered hscan
  cases reached with
  | again t => cases h
  | answer answer t =>
      cases h
      exact ⟨hreached.1, hreached.2.imp_right fun hgiven => .operand hgiven.1 hgiven.2⟩
  | option t => exact optionAt_contract hreached h

theorem optionLoop_contract (hoptions : call.options = some options) (hs : Kept nargc s)
    {fuel : Nat} {answers : List (Int × Report)}
    (h : optionLoop call flags fuel s = .ok (answers, s')) :
    ∀ answer ∈ answers, Contract call (callOptions options) answer.1 answer.2 ∧
      ∀ argument, answer.2.optarg = some argument → 0 ∉ argument := by
  induction fuel generalizing s answers with
  | zero => cases h
  | succ fuel ih =>
      have hset : Kept nargc { s with report.idx := s.report.idx.map fun _ => 0 } :=
        ⟨hs.nargc, by simpa using hs.idx, hs.words, hs.place, hs.optarg⟩
      obtain ⟨⟨c, t⟩, hcall, h⟩ := bind_eq_ok.mp h
      obtain ⟨hkept, hcontract⟩ := getoptInternal_contract hoptions hset hcall
      dsimp only at h
      split at h
      · cases h
        simp
      · next hvalue =>
          obtain ⟨⟨rest, u⟩, hloop, h⟩ := bind_eq_ok.mp h
          cases h
          rintro answer (_ | ⟨_, hmem⟩)
          · exact ⟨hcontract.resolve_left hvalue, hkept.optarg⟩
          · exact ih hkept hloop answer hmem

theorem initial_kept {argv : List Bytes} (hargs : ∀ w ∈ argv, 0 ∉ w) :
    Kept argv.length (.initial argv) :=
  ⟨rfl, Option.some_ne_none 0, hargs, List.not_mem_nil, by rintro argument ⟨⟩⟩

/--
Every answer that a caller gets, in whatever mode, keeps the contract of the
table and the letters, and no NUL is inside what it is given.
-/
theorem answers_contract (hoptions : call.options = some options) {argv : List Bytes}
    (hargs : ∀ w ∈ argv, 0 ∉ w) {fuel : Nat} {answers : List (Int × Report)}
    (h : optionLoop call flags fuel (.initial argv) = .ok (answers, s')) :
    ∀ answer ∈ answers, Contract call (callOptions options) answer.1 answer.2 ∧
      ∀ argument, answer.2.optarg = some argument → 0 ∉ argument :=
  optionLoop_contract hoptions (initial_kept hargs) h

theorem answers_contract_still :
    ∃ answers s', optionLoop stillCall ⟨true, false, false⟩ 3
        (.initial [ascii "still", ascii "-b", ascii "x", ascii "--a"]) = .ok (answers, s') ∧
      ∀ answer ∈ answers, Contract stillCall (callOptions (ascii "ab:")) answer.1 answer.2 ∧
        ∀ argument, answer.2.optarg = some argument → 0 ∉ argument := by
  have hargs : ∀ w ∈ [ascii "still", ascii "-b", ascii "x", ascii "--a"], 0 ∉ w := by decide
  have hreturns : (optionLoop stillCall ⟨true, false, false⟩ 3
      (.initial [ascii "still", ascii "-b", ascii "x", ascii "--a"])).isOk = true := by
    decide +kernel
  obtain ⟨⟨answers, s'⟩, hloop⟩ := eq_ok_of_isOk hreturns
  exact ⟨answers, s', hloop, answers_contract rfl hargs hloop⟩

end Quid
