import Quid.Getopt.Permute

/-!
# A parse from the first call to the last

Whatever the parser moves, its calls answer what a reader from left to right would
answer who lays operands aside.  At the end the operands stand behind the options,
both in their order.
-/

namespace Quid

open Quid.Foundation
open Quid.Foundation.CString

inductive Item where
  | operand (w : Bytes)
  | option (value : Int) (report : Report) (words : List Bytes)
  | rest (words : List Bytes)
  deriving DecidableEq, Repr

def Item.answers : Item → List (Int × Report)
  | .option value report _ => [(value, report)]
  | _ => []

def Item.optionWords : Item → List Bytes
  | .operand _ => []
  | .option _ _ words => words
  | .rest _ => [dashes]

def Item.operands : Item → List Bytes
  | .operand w => [w]
  | .option _ _ _ => []
  | .rest words => words

def Item.words : Item → List Bytes
  | .operand w => [w]
  | .option _ _ words => words
  | .rest words => dashes :: words

@[simp] theorem answers_operands (ops : List Bytes) :
    (ops.map Item.operand).flatMap Item.answers = [] := by
  simp [List.flatMap_map, Item.answers]

@[simp] theorem optionWords_operands (ops : List Bytes) :
    (ops.map Item.operand).flatMap Item.optionWords = [] := by
  simp [List.flatMap_map, Item.optionWords]

@[simp] theorem operands_operands (ops : List Bytes) :
    (ops.map Item.operand).flatMap Item.operands = ops := by
  simp [List.flatMap_map, Item.operands]

@[simp] theorem words_operands (ops : List Bytes) :
    (ops.map Item.operand).flatMap Item.words = ops := by
  simp [List.flatMap_map, Item.words]

/-- The caller sets its index to zero before a call, and the call clears `optarg`. -/
def entered (r : Report) : Report := { r with optarg := none, idx := r.idx.map fun _ => 0 }

/--
The reader, one constructor for a call: it lays operands aside and stops at the
end or at `--`, or takes the option at which it arrives or in which it stands.
-/
inductive Reads (call : Call) (options : Bytes) (longonly : Bool) :
    Cursor → List Bytes → Report → List Item → Prop
  | done {ops : List Bytes} {r : Report} (hops : ∀ w ∈ ops, isOperand options w = true) :
      Reads call options longonly emsg ops r (ops.map .operand)
  | dashes {ops words : List Bytes} {r : Report} (hops : ∀ w ∈ ops, isOperand options w = true) :
      Reads call options longonly emsg (ops ++ dashes :: words) r
        (ops.map .operand ++ [.rest words])
  | first {ops words : List Bytes} {w : Bytes} {r : Report} {o : Occurrence} {items : List Item}
      (hops : ∀ w ∈ ops, isOperand options w = true) (hw : isOperand options w = false)
      (hdashes : w ≠ dashes)
      (hfound : Decodes (optionAt call options ⟨true, false, longonly⟩) (startPlace w)
        (w :: words) (entered r) o)
      (hrest : Reads call options longonly o.place ((w :: words).drop o.count) o.report items) :
      Reads call options longonly emsg (ops ++ w :: words) r
        (ops.map .operand ++ .option o.value o.report ((w :: words).take o.count) :: items)
  | next {place : Cursor} {words : List Bytes} {r : Report} {o : Occurrence} {items : List Item}
      (hplace : Scanned options place) (hwords : words ≠ [])
      (hfound : Decodes (optionAt call options ⟨true, false, longonly⟩) place words (entered r) o)
      (hrest : Reads call options longonly o.place (words.drop o.count) o.report items) :
      Reads call options longonly place words r
        (.option o.value o.report (words.take o.count) :: items)

variable {call : Call} {options : Bytes} {longonly : Bool}

/-- The options ask for no other mode than that of `getopt_long`, which permutes. -/
structure Permuting (call : Call) (options : Bytes) : Prop where
  options_eq : call.options = some options
  plus : options.head? ≠ some (chr '+')
  minus : options.head? ≠ some (chr '-')

structure Ready (call : Call) (place : Cursor) (report : Report) (s : Getopt) : Prop where
  optind_pos : 0 < s.optind
  optreset : s.optreset = false
  posix : s.posixlyCorrect.getD call.environment = call.environment
  place_eq : s.place = place
  report_eq : entered s.report = entered report

/-- The caller's loop up to the answer `-1`: `option_index = 0`, then a call. -/
def optionLoop (call : Call) (flags : Flags) :
    Nat → Getopt → Except Fault (List (Int × Report) × Getopt)
  | 0, _ => .error .unending
  | fuel + 1, s => do
      let (c, s₁) ← getoptInternal call flags
        { s with report.idx := s.report.idx.map fun _ => 0 }
      if c = -1 then
        return ([], s₁)
      let (answers, s₂) ← optionLoop call flags fuel s₁
      return ((c, s₁.report) :: answers, s₂)

def Getopt.entering (s : Getopt) (call : Call) : Getopt :=
  { s with posixlyCorrect := some call.environment, report := entered s.report }

theorem enterCall_eq {place : Cursor} {report : Report} {s : Getopt}
    (hs : Ready call place report s) :
    enterCall call { s with report.idx := s.report.idx.map fun _ => 0 } = s.entering call := by
  have hpos : s.optind ≠ 0 := hs.optind_pos.ne'
  have hposix := hs.posix
  cases hcorrect : s.posixlyCorrect with
  | none =>
      simp only [enterCall, hpos, if_false, true_or, if_true, hs.optreset]
      simp only [Getopt.entering, entered, hs.optreset, Bool.false_eq_true, if_false]
  | some posix =>
      rw [hcorrect, Option.getD_some] at hposix
      subst hposix
      simp only [enterCall, hpos, if_false, hs.optreset, reduceCtorEq, Bool.false_eq_true, or_self]
      simp only [Getopt.entering, entered, hs.optreset]

/-- A call enters, scans in the mode that `flags` stand for, and goes on as the scan ends. -/
def Scans (call : Call) (options : Bytes) (longonly : Bool) (flags : Flags) : Prop :=
  ∀ place report s, Ready call place report s →
    getoptInternal call ⟨true, false, longonly⟩
        { s with report.idx := s.report.idx.map fun _ => 0 } =
      scan options flags s.nargv.length (s.nargv.length + 1) (s.entering call) >>=
        afterScan call options ⟨true, false, longonly⟩ s.nargv.length

theorem afterScan_flags (flags : Flags) (nargc : Nat) :
    afterScan call options flags nargc =
      afterScan call options ⟨true, false, flags.longonly⟩ nargc := by
  funext reached
  cases reached <;> rfl

theorem scans_of {text : Bytes} {flags : Flags} (hoptions : call.options = some text)
    (hrest : callOptions text = options)
    (hflags : callFlags text call.environment ⟨true, false, longonly⟩ = flags)
    (hlong : flags.longonly = longonly) : Scans call options longonly flags := by
  intro place report s hs
  have hposix : decide ((s.entering call).posixlyCorrect = some true) = call.environment := by
    cases henvironment : call.environment <;> simp [Getopt.entering, henvironment]
  simp only [getoptInternal, hoptions, enterCall_eq hs, hposix, hflags, hrest]
  rw [afterScan_flags flags, hlong]
  rfl

theorem Permuting.options_whole (hcall : Permuting call options) :
    callOptions options = options := by
  simp [callOptions, hcall.plus, hcall.minus]

theorem permuting_scans (hcall : Permuting call options) (henvironment : call.environment = false) :
    Scans call options longonly ⟨true, false, longonly⟩ :=
  scans_of hcall.options_eq hcall.options_whole
    (by simp [callFlags, hcall.plus, hcall.minus, henvironment]) rfl

/-- Between two calls: at a word that has not been looked at, or inside one. -/
def Standing (s : Getopt) : Prop :=
  s.place = emsg ∧ Settled s ∨ s.place.text ≠ [] ∧ Opened s ∧
    ∀ nonoptEnd, s.nonoptEnd = some nonoptEnd → nonoptEnd ≤ s.optind

section

variable {s : Getopt} {read skipped words : List Bytes} {report : Report} {place : Cursor}

theorem Ready.between (hs : Ready call emsg report s) (hstanding : Standing s) :
    Between s.nargv.length (s.entering call) := by
  rcases hstanding with ⟨hplace, hsettled⟩ | ⟨hplace, -⟩
  · exact ⟨hsettled, hplace, hs.optreset, rfl⟩
  · rw [hs.place_eq] at hplace
    exact absurd rfl hplace

theorem Ready.inside (hs : Ready call place report s) (hstanding : Standing s)
    (hplace : place.text ≠ []) : Inside s.nargv.length (s.entering call) := by
  rcases hstanding with ⟨hemsg, -⟩ | ⟨-, hopened, hle⟩
  · rw [hs.place_eq] at hemsg
    exact absurd (congrArg Cursor.text hemsg) hplace
  · exact ⟨hopened, hle, hs.optreset, rfl⟩

theorem Occurrence.Advances.next (call : Call) {o : Occurrence} (ho : o.Advances place words)
    (hlayout : Layout words s read skipped) (hs : Inside s.nargv.length s)
    (hpos : 0 < s.optind) (hposix : s.posixlyCorrect = some call.environment) :
    Layout (words.drop o.count) (s.after o) (read ++ words.take o.count) skipped ∧
      Ready call o.place o.report (s.after o) ∧ Standing (s.after o) := by
  refine ⟨hlayout.take _ hs.opened ho.count_le rfl rfl rfl rfl,
    ⟨by simp [Getopt.after, hpos], hs.optreset, by simp [Getopt.after, hposix], rfl, rfl⟩, ?_⟩
  by_cases hcount : o.count = 0
  · refine .inr ⟨(ho.inside hcount).1, hs.opened, fun nonoptEnd hend => ?_⟩
    have := hs.nonoptEnd_le nonoptEnd hend
    simp only [Getopt.after]
    omega
  · refine .inl ⟨ho.done hcount, fun nonoptEnd hend => ?_⟩
    have := hs.nonoptEnd_le nonoptEnd hend
    simp only [Getopt.after]
    omega

theorem Decodes.unique {f : Nat → Getopt → Except Fault (Int × Getopt)} {o o' : Occurrence}
    (h : Decodes f place words report o) (h' : Decodes f place words report o') : o = o' := by
  have heq := (h [] ⟨words, 0, false, place, none, none, none, report⟩ rfl rfl rfl rfl).symm.trans
    (h' [] ⟨words, 0, false, place, none, none, none, report⟩ rfl rfl rfl rfl)
  simp only [Getopt.after, Except.ok.injEq, Prod.mk.injEq, Getopt.mk.injEq, Nat.zero_add] at heq
  cases o
  cases o'
  simp_all

theorem startPlace_scanned {w : Bytes} (hw : isOperand options w = false) :
    Scanned options (startPlace w) := by
  simp only [isOperand, Bool.or_eq_false_iff, Bool.and_eq_false_iff, decide_eq_false_iff_not,
    not_not, Bool.not_eq_false', List.contains_iff_mem] at hw
  obtain ⟨hhead, hlong⟩ := hw
  obtain ⟨rest, rfl⟩ := List.head?_eq_some_iff.mp hhead
  unfold startPlace
  split
  · next hlength => exact ⟨by simp, fun _ => hlong.resolve_left (not_not_intro hlength)⟩
  · next hlength =>
      refine ⟨fun hnil => hlength ?_, by simp⟩
      simpa using hnil

theorem Decodes.advances {o : Occurrence} (hanswer : Answering call options)
    (hplace : Scanned options place) (hwords : words ≠ [])
    (hfound : Decodes (optionAt call options ⟨true, false, longonly⟩) place words
      (entered report) o) : o.Advances place words := by
  obtain ⟨o', hfound', ho'⟩ := optionAt_decodes ⟨true, false, longonly⟩
    (entered report) hanswer hplace hwords
  exact hfound.unique hfound' ▸ ho'

structure Continues (call : Call) (words read skipped : List Bytes) (o : Occurrence)
    (s' : Getopt) : Prop where
  report : s'.report = o.report
  layout : Layout words s' read skipped
  ready : Ready call o.place o.report s'
  standing : Standing s'

theorem optionAt_continues {nargc : Nat} {o : Occurrence} {s s₁ : Getopt}
    (hfound : Decodes (optionAt call options ⟨true, false, longonly⟩) place words
      (entered report) o) (ho : o.Advances place words) (hlayout : Layout words s₁ read skipped)
    (hinside : Inside nargc s₁) (hplace : s₁.place = place) (hread : read ≠ [])
    (hcall : SameCall (s.entering call) s₁) (hreport : entered s.report = entered report) :
    ∃ s', optionAt call options ⟨true, false, longonly⟩ nargc s₁ = .ok (o.value, s') ∧
      Continues call (words.drop o.count) (read ++ words.take o.count) skipped o s' := by
  obtain ⟨front, hargv, hind⟩ := hlayout.split
  have hpos : 0 < s₁.optind := by
    have := List.length_pos_of_ne_nil hread
    have := hlayout.optind_eq
    omega
  obtain ⟨hnext, hready, hstanding⟩ := ho.next call hlayout
    (hinside.nargc ▸ hinside) hpos hcall.posixlyCorrect
  refine ⟨s₁.after o, ?_, rfl, hnext, hready, hstanding⟩
  rw [← hinside.nargc]
  exact hfound front s₁ hargv hind hplace (hcall.report.trans hreport)

end

theorem optionLoop_succ {flags : Flags} {fuel : Nat} {s s₁ s₂ : Getopt} {value : Int}
    {answers : List (Int × Report)} (hvalue : value ≠ -1)
    (hfirst : getoptInternal call flags { s with report.idx := s.report.idx.map fun _ => 0 } =
      .ok (value, s₁))
    (hrest : optionLoop call flags fuel s₁ = .ok (answers, s₂)) :
    optionLoop call flags (fuel + 1) s = .ok ((value, s₁.report) :: answers, s₂) := by
  simp only [optionLoop, hfirst, ok_bind, hvalue, if_false, hrest]
  rfl

theorem optionLoop_last {flags : Flags} {fuel : Nat} {s s₁ : Getopt}
    (hfirst : getoptInternal call flags { s with report.idx := s.report.idx.map fun _ => 0 } =
      .ok (-1, s₁)) :
    optionLoop call flags (fuel + 1) s = .ok ([], s₁) := by
  simp only [optionLoop, hfirst, ok_bind, if_true]
  rfl

theorem optionLoop_reads (hcall : Permuting call options) (hanswer : Answering call options)
    (henvironment : call.environment = false) {place : Cursor} {words : List Bytes}
    {report : Report} {items : List Item}
    (h : Reads call options longonly place words report items) {s : Getopt}
    {read skipped : List Bytes} (hlayout : Layout words s read skipped) (hread : read ≠ [])
    (hs : Ready call place report s) (hstanding : Standing s) {fuel : Nat}
    (hfuel : (items.flatMap Item.answers).length < fuel) :
    ∃ s', optionLoop call ⟨true, false, longonly⟩ fuel s =
        .ok (items.flatMap Item.answers, s') ∧
      Finished (read ++ items.flatMap Item.optionWords)
        (skipped ++ items.flatMap Item.operands) s' := by
  have hscans : Scans call options longonly ⟨true, false, longonly⟩ :=
    permuting_scans hcall henvironment
  obtain ⟨fuel, rfl⟩ := Nat.exists_eq_add_one_of_ne_zero (Nat.ne_of_gt (Nat.zero_lt_of_lt hfuel))
  induction h generalizing s read skipped fuel with
  | @done ops r hops =>
      obtain ⟨s', hscan, hdone, -⟩ := scan_done ⟨true, false, longonly⟩ rfl rfl hops
        (hlayout.congr (s.entering call) rfl rfl rfl rfl) (hs.between hstanding)
      refine ⟨s', ?_, by simpa using hdone⟩
      rw [answers_operands]
      refine optionLoop_last ?_
      rw [hscans _ _ s hs, hscan]
      rfl
  | @dashes ops words r hops =>
      obtain ⟨s', hscan, hdone, -⟩ := scan_dashes ⟨true, false, longonly⟩ rfl rfl hops
        (hlayout.congr (s.entering call) rfl rfl rfl rfl) (hs.between hstanding)
      refine ⟨s', ?_, by simpa [Item.optionWords, Item.operands] using hdone⟩
      have hanswers : (ops.map Item.operand ++ [Item.rest words]).flatMap Item.answers = [] := by
        simp [Item.answers]
      rw [hanswers]
      refine optionLoop_last ?_
      rw [hscans _ _ s hs, hscan]
      rfl
  | @first ops words w r o items hops hw hdashes hfound hrest ih =>
      have ho := hfound.advances hanswer (startPlace_scanned hw) (List.cons_ne_nil w words)
      obtain ⟨s₁, hscan, hlayout₁, hinside, hplace, hsame⟩ :=
        scan_word ⟨true, false, longonly⟩ rfl rfl hops hw hdashes
          (hlayout.congr (s.entering call) rfl rfl rfl rfl) (hs.between hstanding)
      obtain ⟨s₂, hoption, hnext⟩ :=
        optionAt_continues hfound ho hlayout₁ hinside hplace hread hsame hs.report_eq
      have hfirst : getoptInternal call ⟨true, false, longonly⟩
          { s with report.idx := s.report.idx.map fun _ => 0 } = .ok (o.value, s₂) := by
        rw [hscans _ _ s hs, hscan]
        exact hoption
      simp only [List.flatMap_append, answers_operands, List.flatMap_cons, Item.answers,
        List.nil_append, List.length_append, List.length_singleton] at hfuel
      obtain ⟨fuel, rfl⟩ := Nat.exists_eq_add_one_of_ne_zero (show fuel ≠ 0 by omega)
      obtain ⟨s', hloop, hdone⟩ := ih hnext.layout (by simp [hread]) hnext.ready hnext.standing
        fuel (by omega)
      refine ⟨s', ?_, ?_⟩
      · simp only [List.flatMap_append, answers_operands, List.flatMap_cons, Item.answers,
          List.nil_append, ← hnext.report]
        exact optionLoop_succ ho.value_ne hfirst hloop
      · simpa [Item.optionWords, Item.operands] using hdone
  | @next place words r o items hplace hwords hfound hrest ih =>
      have ho := hfound.advances hanswer hplace hwords
      have hinside := hs.inside hstanding hplace.text_ne
      obtain ⟨s₂, hoption, hnext⟩ := optionAt_continues hfound ho
        (hlayout.congr (s.entering call) rfl rfl rfl rfl) hinside hs.place_eq hread ⟨rfl, rfl, rfl⟩
        hs.report_eq
      have hfirst : getoptInternal call ⟨true, false, longonly⟩
          { s with report.idx := s.report.idx.map fun _ => 0 } = .ok (o.value, s₂) := by
        have htext : (s.entering call).place.text ≠ [] := by
          rw [← hs.place_eq] at hplace
          exact hplace.text_ne
        rw [hscans _ _ s hs, scan_inside htext hs.optreset]
        exact hoption
      simp only [List.flatMap_cons, Item.answers, List.length_append, List.length_singleton]
        at hfuel
      obtain ⟨fuel, rfl⟩ := Nat.exists_eq_add_one_of_ne_zero (show fuel ≠ 0 by omega)
      obtain ⟨s', hloop, hdone⟩ := ih hnext.layout (by simp [hread]) hnext.ready hnext.standing
        fuel (by omega)
      refine ⟨s', ?_, ?_⟩
      · simp only [List.flatMap_cons, Item.answers, ← hnext.report]
        exact optionLoop_succ ho.value_ne hfirst hloop
      · simpa [Item.optionWords, Item.operands] using hdone

/-! ## Every vector has a reading -/

theorem reads_inside (longonly : Bool) (hanswer : Answering call options) {count : Nat}
    (hbefore : ∀ words : List Bytes, words.length < count → ∀ report,
      ∃ items, Reads call options longonly emsg words report items)
    {size : Nat} {place : Cursor} {words : List Bytes} (report : Report)
    (hplace : Scanned options place) (hsize : place.text.length ≤ size) (hwords : words ≠ [])
    (hcount : words.length ≤ count) :
    ∃ o items, Decodes (optionAt call options ⟨true, false, longonly⟩) place words
        (entered report) o ∧
      Reads call options longonly o.place (words.drop o.count) o.report items := by
  induction size generalizing place report with
  | zero => exact absurd (List.length_eq_zero_iff.mp (Nat.le_zero.mp hsize)) hplace.text_ne
  | succ size ih =>
      obtain ⟨o, hfound, ho⟩ := optionAt_decodes ⟨true, false, longonly⟩
        (entered report) hanswer hplace hwords
      by_cases hzero : o.count = 0
      · obtain ⟨htext, hfirst, hshorter⟩ := ho.inside hzero
        have hnext : Scanned options o.place := ⟨htext, by simp [hfirst]⟩
        obtain ⟨o', items, hfound', hrest⟩ := ih o.report hnext (by omega)
        refine ⟨o, .option o'.value o'.report (words.take o'.count) :: items, hfound, ?_⟩
        rw [hzero, List.drop_zero]
        exact .next hnext hwords hfound' hrest
      · have hlength := List.length_pos_of_ne_nil hwords
        obtain ⟨items, hrest⟩ := hbefore (words.drop o.count)
          (by rw [List.length_drop]; omega) o.report
        exact ⟨o, items, hfound, by rwa [ho.done hzero]⟩

theorem reads_exists (longonly : Bool) (hanswer : Answering call options) (words : List Bytes)
    (report : Report) :
    ∃ items, Reads call options longonly emsg words report items := by
  induction hlength : words.length using Nat.strong_induction_on generalizing words report with
  | _ count ih =>
      subst hlength
      -- the operands that come first, and what follows them
      have hops : ∀ w ∈ words.takeWhile (isOperand options), isOperand options w = true :=
        fun w hw => List.mem_takeWhile_imp hw
      rcases hrest : words.dropWhile (isOperand options) with _ | ⟨w, rest⟩
      · have hall : words = words.takeWhile (isOperand options) := by
          conv_lhs => rw [← List.takeWhile_append_dropWhile (p := isOperand options) (l := words),
            hrest, List.append_nil]
        rw [hall]
        exact ⟨_, .done hops⟩
      · have hsplit : words = words.takeWhile (isOperand options) ++ w :: rest := by
          rw [← hrest, List.takeWhile_append_dropWhile]
        have hw : isOperand options w = false := by
          have := List.head?_dropWhile_not (isOperand options) words
          rw [hrest] at this
          simpa using this
        rw [hsplit]
        by_cases hdashes : w = dashes
        · subst hdashes
          exact ⟨_, .dashes hops⟩
        · obtain ⟨o, items, hfound, hreads⟩ := reads_inside longonly hanswer
            (fun words' hshort report => ih _ hshort words' report rfl) report
            (startPlace_scanned hw) le_rfl (List.cons_ne_nil w rest)
            (by
              have := congrArg List.length hsplit
              rw [List.length_append] at this
              omega)
          exact ⟨_, .first hops hw hdashes hfound hreads⟩

/-! ## The whole parse -/

theorem Reads.words_eq {place : Cursor} {words : List Bytes} {report : Report} {items : List Item}
    (h : Reads call options longonly place words report items) :
    items.flatMap Item.words = words := by
  induction h with
  | done hops => simp
  | dashes hops => simp [Item.words]
  | first hops hw hdashes hfound hrest ih => simp [Item.words, ih]
  | next hplace hwords hfound hrest ih => simp [Item.words, ih]

theorem optionWords_sublist (items : List Item) :
    (items.flatMap Item.optionWords).Sublist (items.flatMap Item.words) := by
  induction items with
  | nil => exact .slnil
  | cons item items ih =>
      refine List.Sublist.append ?_ ih
      cases item <;> simp [Item.optionWords, Item.words]

theorem operands_sublist (items : List Item) :
    (items.flatMap Item.operands).Sublist (items.flatMap Item.words) := by
  induction items with
  | nil => exact .slnil
  | cons item items ih =>
      refine List.Sublist.append ?_ ih
      cases item <;> simp [Item.operands, Item.words]

theorem arranged_perm (items : List Item) :
    (items.flatMap Item.optionWords ++ items.flatMap Item.operands).Perm
      (items.flatMap Item.words) := by
  induction items with
  | nil => exact .nil
  | cons item items ih =>
      have hitem : (item.optionWords ++ item.operands).Perm item.words := by
        cases item <;> simp [Item.optionWords, Item.operands, Item.words]
      simp only [List.flatMap_cons]
      refine .trans ?_ (hitem.append ih)
      rw [List.append_assoc, List.append_assoc]
      refine .append_left _ ?_
      rw [← List.append_assoc, ← List.append_assoc]
      exact .append_right _ List.perm_append_comm

/-- The arguments as the parse leaves them: a stable split into option words and operands. -/
structure Arranged (args optionWords operands : List Bytes) : Prop where
  first : optionWords.Sublist args
  last : operands.Sublist args
  perm : (optionWords ++ operands).Perm args

theorem Reads.arranged {place : Cursor} {words : List Bytes} {report : Report} {items : List Item}
    (h : Reads call options longonly place words report items) :
    Arranged words (items.flatMap Item.optionWords) (items.flatMap Item.operands) := by
  rw [← h.words_eq]
  exact ⟨optionWords_sublist items, operands_sublist items, arranged_perm items⟩

theorem initial_ready (call : Call) (argv : List Bytes) :
    Ready call emsg .initial (.initial argv) :=
  ⟨Nat.one_pos, rfl, rfl, rfl, rfl⟩

theorem optionLoop_initial (hcall : Permuting call options) (hanswer : Answering call options)
    (henvironment : call.environment = false) (prog : Bytes) {args : List Bytes}
    {items : List Item} (hreads : Reads call options longonly emsg args .initial items)
    {fuel : Nat} (hfuel : (items.flatMap Item.answers).length < fuel) :
    ∃ s', optionLoop call ⟨true, false, longonly⟩ fuel (.initial (prog :: args)) =
        .ok (items.flatMap Item.answers, s') ∧
      Finished (prog :: items.flatMap Item.optionWords) (items.flatMap Item.operands) s' := by
  have hlayout : Layout args (.initial (prog :: args)) [prog] [] := .plain rfl rfl rfl rfl
  exact optionLoop_reads hcall hanswer henvironment hreads hlayout (by simp)
    (initial_ready call (prog :: args)) (.inl ⟨rfl, .of_none rfl⟩) hfuel

/--
`getopt_long`, called to the end, answers like the reader, whose items are the
arguments one after another, and leaves the option words in front of the operands.
-/
theorem optionLoop_permutes (hcall : Permuting call options) (hanswer : Answering call options)
    (henvironment : call.environment = false) (prog : Bytes) (args : List Bytes) :
    ∃ items, Reads call options longonly emsg args .initial items ∧
      items.flatMap Item.words = args ∧
      Arranged args (items.flatMap Item.optionWords) (items.flatMap Item.operands) ∧
      ∀ fuel, (items.flatMap Item.answers).length < fuel →
        ∃ s', optionLoop call ⟨true, false, longonly⟩ fuel (.initial (prog :: args)) =
            .ok (items.flatMap Item.answers, s') ∧
          s'.nargv = prog :: (items.flatMap Item.optionWords ++ items.flatMap Item.operands) ∧
          s'.optind = (items.flatMap Item.optionWords).length + 1 := by
  obtain ⟨items, hreads⟩ := reads_exists longonly hanswer args .initial
  refine ⟨items, hreads, hreads.words_eq, hreads.arranged, fun fuel hfuel => ?_⟩
  obtain ⟨s', hloop, hdone⟩ :=
    optionLoop_initial hcall hanswer henvironment prog hreads hfuel
  exact ⟨s', hloop, by simpa using hdone.nargv, by simpa using hdone.optind⟩

def stillCall : Call where
  options := some (ascii "ab:")
  longOptions := some [⟨ascii "all", .noArgument, none, 0⟩]
  opterr := true
  environment := false
  progname := ascii "still"

theorem stillCall_permuting : Permuting stillCall (ascii "ab:") := ⟨rfl, by decide, by decide⟩

theorem stillCall_answering : Answering stillCall (ascii "ab:") where
  long := by
    rintro _ ⟨⟩ o ho -
    cases List.mem_singleton.mp ho
    decide
  short := by
    intro c hc
    have hall : (ascii "ab:").all (fun c => charInt c ≠ -1) = true := by decide
    exact of_decide_eq_true (List.all_eq_true.mp hall c hc)
  dash h := absurd h (by decide)

theorem optionLoop_permutes_still :
    ∃ items, Reads stillCall (ascii "ab:") false emsg [ascii "x", ascii "-a"] .initial items ∧
      items.flatMap Item.words = [ascii "x", ascii "-a"] ∧
      Arranged [ascii "x", ascii "-a"] (items.flatMap Item.optionWords)
        (items.flatMap Item.operands) ∧
      ∀ fuel, (items.flatMap Item.answers).length < fuel →
        ∃ s', optionLoop stillCall ⟨true, false, false⟩ fuel
            (.initial (ascii "still" :: [ascii "x", ascii "-a"])) =
            .ok (items.flatMap Item.answers, s') ∧
          s'.nargv = ascii "still" ::
            (items.flatMap Item.optionWords ++ items.flatMap Item.operands) ∧
          s'.optind = (items.flatMap Item.optionWords).length + 1 :=
  optionLoop_permutes stillCall_permuting stillCall_answering rfl (ascii "still")
    [ascii "x", ascii "-a"]

end Quid
