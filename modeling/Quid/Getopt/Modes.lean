import Quid.Getopt.Reading

/-!
# The modes without permutation

An option string that begins with `-` makes the parser answer operands where they
stand; one that begins with `+`, or `POSIXLY_CORRECT`, makes it stop at the first
of them.  These modes leave the vector alone and agree with the reader of the
permuting mode, so a parse is described by the reading in either environment.
-/

namespace Quid

open Quid.Foundation
open Quid.Foundation.CString

variable {call : Call} {options : Bytes} {longonly : Bool} {flags : Flags}

theorem inOrder_scans (hoptions : call.options = some (chr '-' :: options)) :
    Scans call options longonly ⟨true, true, longonly⟩ :=
  scans_of hoptions (by simp [callOptions]) (by simp [callFlags]) rfl

theorem plus_scans (hoptions : call.options = some (chr '+' :: options)) :
    Scans call options longonly ⟨false, false, longonly⟩ := by
  have hother : chr '+' ≠ chr '-' := by decide
  exact scans_of hoptions (by simp [callOptions]) (by simp [callFlags, hother]) rfl

theorem posix_scans (hcall : Permuting call options) (henvironment : call.environment = true) :
    Scans call options longonly ⟨false, false, longonly⟩ :=
  scans_of hcall.options_eq hcall.options_whole
    (by simp [callFlags, hcall.minus, henvironment]) rfl

/-! ## One call -/

theorem Layout.nargv_eq {words read : List Bytes} {s : Getopt} (h : Layout words s read []) :
    s.nargv = read ++ words := by
  cases h with
  | plain hargv => exact hargv
  | last hargv => simpa using hargv
  | between hargv => simpa using hargv

/-- No operand is skipped: the vector stands as it was given, and `words` are to come. -/
structure Untouched (call : Call) (argv words : List Bytes) (place : Cursor) (report : Report)
    (s : Getopt) : Prop where
  argv_eq : s.nargv = argv
  layout : ∃ read, read ≠ [] ∧ Layout words s read []
  nonoptStart : s.nonoptStart = none
  ready : Ready call place report s
  standing : Standing s

section

variable {argv words : List Bytes} {report : Report} {place : Cursor} {s : Getopt} {w : Bytes}

theorem Untouched.entering (hs : Untouched call argv words emsg report s) :
    Between s.nargv.length (s.entering call) ∧
      ∃ read, read ≠ [] ∧ Layout words (s.entering call) read [] := by
  obtain ⟨read, hread, hlayout⟩ := hs.layout
  exact ⟨hs.ready.between hs.standing, read, hread, hlayout.congr _ rfl rfl rfl rfl⟩

theorem Untouched.last (hscans : Scans call options longonly flags)
    (hs : Untouched call argv [] emsg report s) :
    ∃ s', getoptInternal call ⟨true, false, longonly⟩
          { s with report.idx := s.report.idx.map fun _ => 0 } = .ok (-1, s') ∧
      s'.nargv = argv ∧ s'.optind = s.optind := by
  obtain ⟨hbetween, read, hread, hlayout⟩ := hs.entering
  obtain ⟨s', hpass, hdone, -⟩ := scanPass_end options flags hlayout hbetween
  refine ⟨s', ?_, ?_, ?_⟩
  · rw [hscans _ _ s hs.ready, scan, hpass]
    rfl
  · rw [hdone.nargv, ← hs.argv_eq]
    exact hlayout.nargv_eq.symm
  · rw [hdone.optind]
    exact hlayout.optind_eq.symm

theorem Untouched.dashes (hscans : Scans call options longonly flags)
    (hs : Untouched call argv (dashes :: words) emsg report s) :
    ∃ s', getoptInternal call ⟨true, false, longonly⟩
          { s with report.idx := s.report.idx.map fun _ => 0 } = .ok (-1, s') ∧
      s'.nargv = argv ∧ s'.optind = s.optind + 1 := by
  obtain ⟨hbetween, read, hread, hlayout⟩ := hs.entering
  obtain ⟨s', hpass, hdone, -⟩ := scanOption_dashes hlayout
  refine ⟨s', ?_, ?_, ?_⟩
  · rw [hscans _ _ s hs.ready, scan, scanPass_word hlayout hbetween, dashes_not_operand]
    simp only [Bool.false_eq_true, if_false, hpass]
    rfl
  · rw [hdone.nargv, ← hs.argv_eq, List.append_assoc]
    exact hlayout.nargv_eq.symm
  · rw [hdone.optind, List.length_append]
    exact congrArg (· + 1) hlayout.optind_eq.symm

theorem Untouched.operand (hscans : Scans call options longonly ⟨true, true, longonly⟩)
    (hw : isOperand options w = true) (hs : Untouched call argv (w :: words) emsg report s) :
    ∃ s', getoptInternal call ⟨true, false, longonly⟩
          { s with report.idx := s.report.idx.map fun _ => 0 } = .ok (inorder, s') ∧
      s'.report = { entered report with optarg := some w } ∧ s'.optind = s.optind + 1 ∧
      Untouched call argv words emsg report s' := by
  obtain ⟨hbetween, read, hread, hlayout⟩ := hs.entering
  have hpos : s.nonoptEnd = none := by
    cases hlayout with
    | plain _ _ _ hend => exact hend
    | last _ _ hstart => exact absurd (hs.nonoptStart.symm.trans hstart) (by simp)
    | between _ _ hstart => exact absurd (hs.nonoptStart.symm.trans hstart) (by simp)
  have hentered : (s.entering call).report = entered report := hs.ready.report_eq
  refine ⟨{ s.entering call with
    place := emsg, optind := s.optind + 1, report.optarg := some w }, ?_, ?_, rfl,
    ⟨hs.argv_eq, ⟨read ++ [w], by simp, .plain ?_ ?_ hs.nonoptStart hpos⟩, hs.nonoptStart,
      ⟨Nat.succ_pos _, hs.ready.optreset, rfl, rfl, ?_⟩, .inl ⟨rfl, .of_none hpos⟩⟩⟩
  · rw [hscans _ _ s hs.ready, scan, scanPass_word hlayout hbetween, hw]
    rfl
  · rw [← hentered]
  · simpa using hlayout.nargv_eq
  · have hind := hlayout.optind_eq
    simpa [Getopt.entering] using hind
  · rw [← hs.ready.report_eq]
    simp only [Getopt.entering, entered, Option.map_map]
    rfl

theorem Untouched.stop (hscans : Scans call options longonly ⟨false, false, longonly⟩)
    (hw : isOperand options w = true) (hs : Untouched call argv (w :: words) emsg report s) :
    ∃ s', getoptInternal call ⟨true, false, longonly⟩
          { s with report.idx := s.report.idx.map fun _ => 0 } = .ok (-1, s') ∧
      s'.nargv = argv ∧ s'.optind = s.optind := by
  obtain ⟨hbetween, read, hread, hlayout⟩ := hs.entering
  refine ⟨{ s.entering call with place := emsg }, ?_, hs.argv_eq, rfl⟩
  rw [hscans _ _ s hs.ready, scan, scanPass_word hlayout hbetween, hw]
  rfl

/-- What an option leaves behind, at the place `s₁` where the scan has come to it. -/
theorem Untouched.found {o : Occurrence} {s₁ : Getopt} {place₁ : Cursor} {read : List Bytes}
    (hscans : Scans call options longonly flags)
    (hscan : scan options flags s.nargv.length (s.nargv.length + 1) (s.entering call) =
      .ok (.option s₁))
    (hs : Untouched call argv words place report s)
    (hfound : Decodes (optionAt call options ⟨true, false, longonly⟩) place₁ words
      (entered report) o) (ho : o.Advances place₁ words) (hlayout : Layout words s₁ read [])
    (hread : read ≠ []) (hinside : Inside s.nargv.length s₁) (hplace : s₁.place = place₁)
    (hcall : SameCall (s.entering call) s₁) (hargv : s₁.nargv = argv) (hind : s₁.optind = s.optind)
    (hstart : s₁.nonoptStart = none) :
    ∃ s', getoptInternal call ⟨true, false, longonly⟩
          { s with report.idx := s.report.idx.map fun _ => 0 } = .ok (o.value, s') ∧
      s'.report = o.report ∧ s'.optind = s.optind + o.count ∧
      Untouched call argv (words.drop o.count) o.place o.report s' := by
  have hpos : 0 < s₁.optind := hind ▸ hs.ready.optind_pos
  obtain ⟨hnext, hready, hstanding⟩ := ho.next call hlayout
    (hinside.nargc ▸ hinside) hpos hcall.posixlyCorrect
  refine ⟨s₁.after o, ?_, rfl, by rw [← hind]; rfl, hargv, ⟨_, by simp [hread], hnext⟩, hstart,
    hready, hstanding⟩
  obtain ⟨front, hsplit, hfront⟩ := hlayout.split
  rw [hscans _ _ s hs.ready, hscan, ← hinside.nargc]
  exact hfound front s₁ hsplit hfront hplace (hcall.report.trans hs.ready.report_eq)

theorem Untouched.first {o : Occurrence} (hscans : Scans call options longonly flags)
    (hs : Untouched call argv (w :: words) emsg report s) (hw : isOperand options w = false)
    (hdashes : w ≠ Quid.dashes)
    (hfound : Decodes (optionAt call options ⟨true, false, longonly⟩) (startPlace w) (w :: words)
      (entered report) o) (ho : o.Advances (startPlace w) (w :: words)) :
    ∃ s', getoptInternal call ⟨true, false, longonly⟩
          { s with report.idx := s.report.idx.map fun _ => 0 } = .ok (o.value, s') ∧
      s'.report = o.report ∧ s'.optind = s.optind + o.count ∧
      Untouched call argv ((w :: words).drop o.count) o.place o.report s' := by
  obtain ⟨hbetween, read, hread, hlayout⟩ := hs.entering
  have hopened : (s.entering call).opened = (s.entering call) := by
    simp [Getopt.opened, Getopt.entering, hs.nonoptStart]
  obtain ⟨s₁, hpass, hlayout₁, hinside, hplace, hcall⟩ :=
    scanOption_word hdashes hlayout hbetween
  have hs₁ : s₁ = { s.entering call with place := startPlace w } := by
    rw [scanOption, hopened, if_neg hdashes] at hpass
    unfold startPlace
    split at hpass
    · next hlength =>
        cases hpass
        rw [if_pos hlength]
    · next hlength =>
        cases hpass
        rw [if_neg hlength]
  have hscan : scan options flags s.nargv.length (s.nargv.length + 1) (s.entering call) =
      .ok (.option s₁) := by
    rw [scan, scanPass_word hlayout hbetween, hw]
    simp only [Bool.false_eq_true, if_false, hpass, ok_bind]
  exact hs.found hscans hscan hfound ho hlayout₁ hread hinside hplace hcall
    (by rw [hs₁]; exact hs.argv_eq) (by rw [hs₁]; rfl) (by rw [hs₁]; exact hs.nonoptStart)

theorem Untouched.next {o : Occurrence} (hscans : Scans call options longonly flags)
    (hs : Untouched call argv words place report s) (hplace : place.text ≠ [])
    (hfound : Decodes (optionAt call options ⟨true, false, longonly⟩) place words
      (entered report) o) (ho : o.Advances place words) :
    ∃ s', getoptInternal call ⟨true, false, longonly⟩
          { s with report.idx := s.report.idx.map fun _ => 0 } = .ok (o.value, s') ∧
      s'.report = o.report ∧ s'.optind = s.optind + o.count ∧
      Untouched call argv (words.drop o.count) o.place o.report s' := by
  obtain ⟨read, hread, hlayout⟩ := hs.layout
  have htext : (s.entering call).place.text ≠ [] := by
    rw [← hs.ready.place_eq] at hplace
    exact hplace
  have hinside := hs.ready.inside hs.standing hplace
  exact hs.found hscans (scan_inside htext hs.ready.optreset _) hfound ho
    (hlayout.congr _ rfl rfl rfl rfl) hread hinside hs.ready.place_eq ⟨rfl, rfl, rfl⟩ hs.argv_eq rfl
    hs.nonoptStart

end

/-! ## Whole parses -/

/-- The answers to the items in order: an operand is the argument of the option `1`. -/
def inOrder : Report → List Item → List (Int × Report)
  | _, [] => []
  | report, .operand w :: items =>
      (inorder, { entered report with optarg := some w }) :: inOrder report items
  | _, .option value report _ :: items => (value, report) :: inOrder report items
  | report, .rest _ :: items => inOrder report items

def Item.passed : Item → List Bytes
  | .operand w => [w]
  | .option _ _ words => words
  | .rest _ => [dashes]

def Item.isOperand : Item → Bool
  | .operand _ => true
  | _ => false

def leadingItems (items : List Item) : List Item := items.takeWhile fun item => !item.isOperand

theorem inOrder_leading (report : Report) (items : List Item) :
    inOrder report (leadingItems items) = (leadingItems items).flatMap Item.answers := by
  induction items generalizing report with
  | nil => rfl
  | cons item items ih =>
      cases item with
      | operand w => rfl
      | option value report words => exact congrArg _ (ih report)
      | rest words => exact ih report

def Gives (call : Call) (longonly : Bool) (argv words : List Bytes) (place : Cursor)
    (report : Report) (expected : List (Int × Report)) (passed : Nat) : Prop :=
  ∀ s, Untouched call argv words place report s → ∀ fuel, expected.length < fuel →
    ∃ s', optionLoop call ⟨true, false, longonly⟩ fuel s = .ok (expected, s') ∧
      s'.nargv = argv ∧ s'.optind = s.optind + passed

section

variable {argv words : List Bytes} {report : Report} {place : Cursor} {w : Bytes}
  {expected : List (Int × Report)} {passed : Nat}

theorem Gives.last (h : ∀ {s}, Untouched call argv words place report s →
      ∃ s', getoptInternal call ⟨true, false, longonly⟩
            { s with report.idx := s.report.idx.map fun _ => 0 } = .ok (-1, s') ∧
        s'.nargv = argv ∧ s'.optind = s.optind + passed) :
    Gives call longonly argv words place report [] passed := by
  intro s hs fuel hfuel
  obtain ⟨fuel, rfl⟩ := Nat.exists_eq_add_one_of_ne_zero hfuel.ne'
  obtain ⟨s', hcall, hargv, hind⟩ := h hs
  exact ⟨s', optionLoop_last hcall, hargv, hind⟩

theorem Gives.cons {value : Int} {shown : Report} {words' : List Bytes} {place' : Cursor}
    {report' : Report} {count : Nat}
    (hrest : Gives call longonly argv words' place' report' expected passed) (hvalue : value ≠ -1)
    (h : ∀ {s}, Untouched call argv words place report s →
      ∃ s', getoptInternal call ⟨true, false, longonly⟩
            { s with report.idx := s.report.idx.map fun _ => 0 } = .ok (value, s') ∧
        s'.report = shown ∧ s'.optind = s.optind + count ∧
        Untouched call argv words' place' report' s') :
    Gives call longonly argv words place report ((value, shown) :: expected)
      (count + passed) := by
  intro s hs fuel hfuel
  obtain ⟨fuel, rfl⟩ := Nat.exists_eq_add_one_of_ne_zero (Nat.ne_of_gt (Nat.zero_lt_of_lt hfuel))
  obtain ⟨s₁, hcall, hshown, hind, hs₁⟩ := h hs
  obtain ⟨s', hloop, hargv, hind'⟩ := hrest s₁ hs₁ fuel (by simpa using hfuel)
  refine ⟨s', ?_, hargv, by rw [hind', hind, Nat.add_assoc]⟩
  rw [← hshown]
  exact optionLoop_succ hvalue hcall hloop

end

section

variable {argv words : List Bytes} {report : Report} {place : Cursor} {items : List Item}

theorem Gives.option {o : Occurrence} {place₁ : Cursor}
    (hrest : Gives call longonly argv (words.drop o.count) o.place o.report
      (inOrder o.report items) (items.flatMap Item.passed).length)
    (ho : o.Advances place₁ words)
    (h : ∀ {s}, Untouched call argv words place report s →
      ∃ s', getoptInternal call ⟨true, false, longonly⟩
            { s with report.idx := s.report.idx.map fun _ => 0 } = .ok (o.value, s') ∧
        s'.report = o.report ∧ s'.optind = s.optind + o.count ∧
        Untouched call argv (words.drop o.count) o.place o.report s') :
    Gives call longonly argv words place report
      (inOrder report (.option o.value o.report (words.take o.count) :: items))
      ((Item.option o.value o.report (words.take o.count) :: items).flatMap
        Item.passed).length := by
  have hone := hrest.cons ho.value_ne h
  simpa [inOrder, Item.passed, ho.count_le] using hone

theorem gives_operands (words : List Bytes) (items : List Item)
    (hscans : Scans call options longonly ⟨true, true, longonly⟩)
    {ops : List Bytes} (hops : ∀ w ∈ ops, isOperand options w = true)
    (h : Gives call longonly argv words emsg report (inOrder report items)
      (items.flatMap Item.passed).length) :
    Gives call longonly argv (ops ++ words) emsg report
      (inOrder report (ops.map Item.operand ++ items))
      ((ops.map Item.operand ++ items).flatMap Item.passed).length := by
  induction ops with
  | nil => exact h
  | cons w ops ih =>
      obtain ⟨hw, hops⟩ := List.forall_mem_cons.mp hops
      have hone := (ih hops).cons (by decide : inorder ≠ -1) fun hs => hs.operand hscans hw
      simpa [inOrder, Item.passed, Nat.add_comm] using hone

theorem reads_inOrder (hscans : Scans call options longonly ⟨true, true, longonly⟩)
    (hanswer : Answering call options)
    (h : Reads call options longonly place words report items) :
    Gives call longonly argv words place report (inOrder report items)
      (items.flatMap Item.passed).length := by
  induction h with
  | @done ops r hops =>
      have hend : Gives call longonly argv [] emsg r [] 0 :=
        Gives.last fun hs => hs.last hscans
      simpa using gives_operands [] [] hscans hops hend
  | @dashes ops words r hops =>
      refine gives_operands _ _ hscans hops (Gives.last fun hs => ?_)
      simpa [Item.passed] using hs.dashes hscans
  | @first ops words w r o items hops hw hdashes hfound hrest ih =>
      have ho := hfound.advances hanswer (startPlace_scanned hw) (List.cons_ne_nil w words)
      exact gives_operands _ _ hscans hops
        (ih.option ho fun hs => hs.first hscans hw hdashes hfound ho)
  | @next place words r o items hplace hwords hfound hrest ih =>
      have ho := hfound.advances hanswer hplace hwords
      exact ih.option ho fun hs => hs.next hscans hplace.text_ne hfound ho

theorem gives_stop (words : List Bytes)
    (hscans : Scans call options longonly ⟨false, false, longonly⟩) {w : Bytes}
    {ops : List Bytes} (hops : ∀ x ∈ w :: ops, isOperand options x = true) (rest : List Item) :
    Gives call longonly argv (w :: ops ++ words) emsg report
      (inOrder report (leadingItems ((w :: ops).map Item.operand ++ rest)))
      ((leadingItems ((w :: ops).map Item.operand ++ rest)).flatMap Item.passed).length :=
  Gives.last fun hs => hs.stop hscans (hops w List.mem_cons_self)

theorem reads_posix (hscans : Scans call options longonly ⟨false, false, longonly⟩)
    (hanswer : Answering call options)
    (h : Reads call options longonly place words report items) :
    Gives call longonly argv words place report (inOrder report (leadingItems items))
      ((leadingItems items).flatMap Item.passed).length := by
  induction h with
  | @done ops r hops =>
      cases ops with
      | nil => exact Gives.last fun hs => hs.last hscans
      | cons w ops => simpa using gives_stop [] hscans hops []
  | @dashes ops words r hops =>
      cases ops with
      | nil => exact Gives.last fun hs => hs.dashes hscans
      | cons w ops => exact gives_stop _ hscans hops _
  | @first ops words w r o items hops hw hdashes hfound hrest ih =>
      cases ops with
      | nil =>
          have ho := hfound.advances hanswer (startPlace_scanned hw) (List.cons_ne_nil w words)
          exact ih.option ho fun hs => hs.first hscans hw hdashes hfound ho
      | cons x ops => exact gives_stop _ hscans hops _
  | @next place words r o items hplace hwords hfound hrest ih =>
      have ho := hfound.advances hanswer hplace hwords
      exact ih.option ho fun hs => hs.next hscans hplace.text_ne hfound ho

end

theorem initial_untouched (call : Call) (prog : Bytes) (args : List Bytes) :
    Untouched call (prog :: args) args emsg .initial (.initial (prog :: args)) :=
  ⟨rfl, ⟨[prog], by simp, .plain rfl rfl rfl rfl⟩, rfl, initial_ready call (prog :: args),
    .inl ⟨rfl, .of_none rfl⟩⟩

theorem Reads.setMode {place : Cursor} {words : List Bytes} {report : Report}
    {items : List Item} (h : Reads call options longonly place words report items)
    (text : Option Bytes) (environment : Bool) :
    Reads { call with options := text, environment } options longonly place words report
      items := by
  have hsame : ∀ flags : Flags,
      optionAt { call with options := text, environment } options flags =
        optionAt call options flags :=
    fun flags => rfl
  induction h with
  | done hops => exact .done hops
  | dashes hops => exact .dashes hops
  | first hops hw hdashes hfound hrest ih =>
      exact .first hops hw hdashes (by rw [hsame]; exact hfound) ih
  | next hplace hwords hfound hrest ih =>
      exact .next hplace hwords (by rw [hsame]; exact hfound) ih

theorem Answering.setMode (h : Answering call options) (text : Option Bytes)
    (environment : Bool) : Answering { call with options := text, environment } options :=
  ⟨h.long, h.short, h.dash⟩

/-- The calls answer the items in order and end behind them, with nothing moved. -/
def AnswersInOrder (call : Call) (longonly : Bool) (argv : List Bytes) (items : List Item) :
    Prop :=
  ∀ fuel, (inOrder .initial items).length < fuel →
    ∃ s, optionLoop call ⟨true, false, longonly⟩ fuel (.initial argv) =
        .ok (inOrder .initial items, s) ∧
      s.nargv = argv ∧ s.optind = 1 + (items.flatMap Item.passed).length

/-- The calls answer the options of the items and end at the operands. -/
def AnswersAside (call : Call) (longonly : Bool) (argv : List Bytes) (items : List Item) : Prop :=
  ∀ fuel, (items.flatMap Item.answers).length < fuel →
    ∃ s, optionLoop call ⟨true, false, longonly⟩ fuel (.initial argv) =
        .ok (items.flatMap Item.answers, s) ∧
      s.nargv.drop s.optind = items.flatMap Item.operands

theorem answersAside_permuting {prog : Bytes} {args : List Bytes} {items : List Item}
    (hcall : Permuting call options) (hanswer : Answering call options)
    (henvironment : call.environment = false)
    (hreads : Reads call options longonly emsg args .initial items) :
    AnswersAside call longonly (prog :: args) items := by
  intro fuel hfuel
  obtain ⟨s, hloop, hdone⟩ := optionLoop_initial hcall hanswer henvironment prog hreads hfuel
  refine ⟨s, hloop, ?_⟩
  rw [hdone.nargv, hdone.optind, List.drop_left]

theorem answersInOrder_leading (hscans : Scans call options longonly ⟨false, false, longonly⟩)
    (hanswer : Answering call options) (prog : Bytes) {args : List Bytes} {items : List Item}
    (hreads : Reads call options longonly emsg args .initial items) :
    AnswersInOrder call longonly (prog :: args) (leadingItems items) := by
  intro fuel hfuel
  exact reads_posix hscans hanswer hreads _ (initial_untouched call prog args) fuel hfuel

/--
The modes agree on one reading: with `-` in front of the options the calls answer
all its items in order, with `+`, or where POSIX is asked for, those before the
first operand, and neither touches the vector; else they answer its options.
-/
theorem modes_agree (hanswer : Answering call options) (prog : Bytes) {args : List Bytes}
    {items : List Item} (hreads : Reads call options longonly emsg args .initial items)
    (environment : Bool) :
    AnswersInOrder { call with options := some (chr '-' :: options), environment } longonly
        (prog :: args) items ∧
      AnswersInOrder { call with options := some (chr '+' :: options), environment } longonly
        (prog :: args) (leadingItems items) ∧
      (options.head? ≠ some (chr '+') → options.head? ≠ some (chr '-') →
        AnswersInOrder { call with options := some options, environment := true } longonly
            (prog :: args) (leadingItems items) ∧
          AnswersAside { call with options := some options, environment := false } longonly
            (prog :: args) items) := by
  refine ⟨fun fuel hfuel => ?_, ?_, fun hplus hminus => ⟨?_, ?_⟩⟩
  · exact reads_inOrder (inOrder_scans rfl) (hanswer.setMode _ _) (hreads.setMode _ _) _
      (initial_untouched _ prog args) fuel hfuel
  · exact answersInOrder_leading (plus_scans rfl) (hanswer.setMode _ _) prog (hreads.setMode _ _)
  · exact answersInOrder_leading (posix_scans ⟨rfl, hplus, hminus⟩ rfl) (hanswer.setMode _ _)
      prog (hreads.setMode _ _)
  · exact answersAside_permuting ⟨rfl, hplus, hminus⟩ (hanswer.setMode _ _) rfl
      (hreads.setMode _ _)

/-! ## Either environment -/

/-- The arguments behind `optind` under POSIX: from the first operand on, or behind `--`. -/
def remaining : List Item → List Bytes
  | [] => []
  | .operand w :: items => w :: items.flatMap Item.words
  | .option _ _ _ :: items => remaining items
  | .rest words :: _ => words

theorem drop_passed_cons (o : Occurrence) {words : List Bytes} {items : List Item}
    (h : (words.drop o.count).drop ((leadingItems items).flatMap Item.passed).length =
      remaining items) :
    words.drop ((leadingItems (.option o.value o.report (words.take o.count) :: items)).flatMap
      Item.passed).length = remaining items := by
  have htaken : words.drop (words.take o.count).length = words.drop o.count := by
    rw [List.length_take]
    exact List.drop_eq_drop_min.symm
  have hleading : leadingItems (.option o.value o.report (words.take o.count) :: items) =
      .option o.value o.report (words.take o.count) :: leadingItems items := rfl
  rw [hleading, List.flatMap_cons, List.length_append, ← List.drop_drop, ← h]
  exact congrArg (List.drop _) htaken

theorem Reads.drop_passed {place : Cursor} {words : List Bytes} {report : Report}
    {items : List Item} (h : Reads call options longonly place words report items) :
    words.drop ((leadingItems items).flatMap Item.passed).length = remaining items := by
  induction h with
  | @done ops r hops =>
      cases ops with
      | nil => rfl
      | cons w ops => exact congrArg (w :: ·) (words_operands ops).symm
  | @dashes ops words r hops =>
      cases ops with
      | nil => rfl
      | cons w ops => simp [leadingItems, Item.isOperand, remaining, Item.words]
  | @first ops words w r o items hops hw hdashes hfound hrest ih =>
      cases ops with
      | nil => exact drop_passed_cons o ih
      | cons x ops => simp [leadingItems, Item.isOperand, remaining, Item.words, hrest.words_eq]
  | @next place words r o items hplace hwords hfound hrest ih => exact drop_passed_cons o ih

def itemsTaken (environment : Bool) (items : List Item) : List Item :=
  if environment then leadingItems items else items

def wordsLeft (environment : Bool) (items : List Item) : List Bytes :=
  if environment then remaining items else items.flatMap Item.operands

theorem itemsTaken_answers_le (environment : Bool) (items : List Item) :
    ((itemsTaken environment items).flatMap Item.answers).length ≤
      (items.flatMap Item.answers).length := by
  cases environment with
  | false => exact le_rfl
  | true => exact ((List.takeWhile_sublist _).flatMap _).length_le

@[simp] theorem itemsTaken_option (environment : Bool) (value : Int) (report : Report)
    (words : List Bytes) (items : List Item) :
    itemsTaken environment (.option value report words :: items) =
      .option value report words :: itemsTaken environment items := by
  cases environment <;> rfl

@[simp] theorem wordsLeft_option (environment : Bool) (value : Int) (report : Report)
    (words : List Bytes) (items : List Item) :
    wordsLeft environment (.option value report words :: items) = wordsLeft environment items := by
  cases environment <;> rfl

@[simp] theorem itemsTaken_operands (environment : Bool) (ops : List Bytes) :
    (itemsTaken environment (ops.map Item.operand)).flatMap Item.answers = [] := by
  cases environment with
  | false => exact answers_operands ops
  | true => cases ops <;> rfl

@[simp] theorem wordsLeft_operands (environment : Bool) (ops : List Bytes) :
    wordsLeft environment (ops.map Item.operand) = ops := by
  cases environment with
  | false => exact operands_operands ops
  | true =>
      cases ops with
      | nil => rfl
      | cons w ops => exact congrArg (w :: ·) (words_operands ops)

theorem optionLoop_taken (hcall : Permuting call options) (hanswer : Answering call options)
    (prog : Bytes) {args : List Bytes} {items : List Item}
    (hreads : Reads call options longonly emsg args .initial items) {fuel : Nat}
    (hfuel : (items.flatMap Item.answers).length < fuel) :
    ∃ s, optionLoop call ⟨true, false, longonly⟩ fuel (.initial (prog :: args)) =
        .ok ((itemsTaken call.environment items).flatMap Item.answers, s) ∧
      s.nargv.drop s.optind = wordsLeft call.environment items := by
  cases henvironment : call.environment with
  | false => exact answersAside_permuting hcall hanswer henvironment hreads fuel hfuel
  | true =>
      have hless := (itemsTaken_answers_le true items).trans_lt hfuel
      have hsame := inOrder_leading .initial items
      obtain ⟨s, hloop, hargv, hind⟩ :=
        answersInOrder_leading (posix_scans hcall henvironment) hanswer prog hreads fuel
          (by rw [hsame]; exact hless)
      refine ⟨s, by rw [hloop, hsame]; rfl, ?_⟩
      rw [hargv, hind, Nat.add_comm]
      exact hreads.drop_passed

theorem stillOperand : ∀ w ∈ [ascii "x"], isOperand (ascii "ab:") w = true := by decide

theorem modes_agree_still :
    AnswersInOrder { stillCall with options := some (chr '-' :: ascii "ab:") } false
        (ascii "still" :: [ascii "x"]) [.operand (ascii "x")] ∧
      AnswersInOrder { stillCall with options := some (chr '+' :: ascii "ab:") } false
        (ascii "still" :: [ascii "x"]) [] ∧
      AnswersInOrder { stillCall with options := some (ascii "ab:"), environment := true } false
        (ascii "still" :: [ascii "x"]) [] ∧
      AnswersAside { stillCall with options := some (ascii "ab:"), environment := false } false
        (ascii "still" :: [ascii "x"]) [.operand (ascii "x")] := by
  obtain ⟨hminus, hplus, hposix⟩ :=
    modes_agree stillCall_answering (ascii "still") (Reads.done stillOperand) false
  exact ⟨hminus, hplus, hposix (by decide) (by decide)⟩

end Quid
