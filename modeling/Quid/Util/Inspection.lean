import Quid.Format.Metadata
import Quid.Format.Time
import Quid.Format.Validate
import Quid.Util.Generation

/-!
# Identifiers given back to the utility

A line that the utility has printed is an operand it accepts, whatever has been
printed before, and its report shows the request the identifier was made for and
the time at which it was made.  The exception is an identifier whose lower time
word is zero.
-/

namespace Quid

open Quid.Foundation
open Quid.Foundation.CString

variable {request : CreateRequest} {p p' : Process} {u v : Cuuid} {around : Surroundings}

/-! ## Calls and their times -/

/-- What `gettimeofday` answers while its timestamps fit the time fields. -/
structure Recordable (answer : TimeOfDay) : Prop where
  epoch : SinceEpoch answer.tv
  below : answer.tv.tvSec * 10000000 + answer.tv.tvUsec * 10 + 1024 < 2 ^ 60

/-- An identifier with the call that made it and the clock's answer at which its loop stopped. -/
structure Made where
  request : CreateRequest
  answer : TimeOfDay
  timestamp : UInt64
  cuuid : Cuuid
  recordable : Recordable answer
  called : ∃ p q p' before, createStep request p = .ok ((.ok, some cuuid), p') ∧
    getCurrentTime p = .ok (timestamp, q) ∧
    p.clock = before ++ getSystemTime p.ndebug answer :: q.clock

def Made.tv (m : Made) : Timeval :=
  ⟨(m.timestamp.toNat / 10000000 : Nat), (m.timestamp.toNat / 10 % 1000000 : Nat)⟩

def Timeval.micros (tv : Timeval) : Int := tv.tvSec * 1000000 + tv.tvUsec

theorem Made.createdFor (m : Made) : CreatedFor m.request m.cuuid := by
  obtain ⟨p, q, p', before, hcreate, -, -⟩ := m.called
  exact ⟨p, p', hcreate⟩

theorem Made.timestamp_eq (m : Made) : ∃ ids : Nat, ids ≤ uidsPerTick.toNat ∧
    (m.timestamp.toNat : Int) = m.answer.tv.tvSec * 10000000 + m.answer.tv.tvUsec * 10 + ids := by
  obtain ⟨p, q, p', before, -, htime, hclock⟩ := m.called
  exact getCurrentTime_answer htime hclock m.recordable.epoch m.recordable.below

theorem Made.near (m : Made) :
    0 ≤ m.tv.micros - m.answer.tv.micros ∧ m.tv.micros - m.answer.tv.micros ≤ 102 := by
  obtain ⟨ids, hids, hstamp⟩ := m.timestamp_eq
  rw [uidsPerTick_toNat] at hids
  unfold Timeval.micros Made.tv
  dsimp only
  omega

theorem Made.cuuidTime (m : Made) : (Quid.cuuidTime m.cuuid).toNat = m.timestamp.toNat := by
  obtain ⟨ids, hids, hstamp⟩ := m.timestamp_eq
  have hbelow := m.recordable.below
  rw [uidsPerTick_toNat] at hids
  obtain ⟨p, q, p', before, hcreate, htime, -⟩ := m.called
  exact cuuidTime_created hcreate htime (by omega)

theorem Made.quidTimeval (m : Made) : Quid.quidTimeval m.cuuid = m.tv := by
  obtain ⟨hsec, husec⟩ := quidTimeval_eq m.cuuid
  rw [m.cuuidTime] at hsec husec
  cases htv : Quid.quidTimeval m.cuuid with
  | mk sec usec =>
      rw [htv] at hsec husec
      cases hsec
      cases husec
      rfl

theorem Made.timeLow_eq_zero_iff (m : Made) :
    m.cuuid.timeLow = 0 ↔ m.timestamp.toNat % 2 ^ 32 = 0 := by
  obtain ⟨p, q, p', before, hcreate, htime, -⟩ := m.called
  rw [(quidCreate_carries_at hcreate htime).2.timeLow, ← timeLow_toNat]
  exact UInt64.toNat_inj.symm

theorem createStep_made {answers : List TimeOfDay}
    (hclock : p.clock = answers.map (getSystemTime p.ndebug))
    (hanswers : ∀ answer ∈ answers, Recordable answer)
    (hcall : createStep request p = .ok ((.ok, some u), p')) :
    ∃ m : Made, m.request = request ∧ m.cuuid = u ∧ ∃ later,
      (m.answer :: later).Sublist answers ∧ p'.clock = later.map (getSystemTime p'.ndebug) := by
  obtain ⟨timestamp, q, -, htime, -⟩ := quidCreate_carries hcall
  obtain ⟨before, reading, hread, -⟩ := getCurrentTime_clock htime
  -- the seed and the draws take readings from the clock
  obtain ⟨_, _, htime', hrest⟩ := quidCreate_rest
    (fun r => r.ndebug = p.ndebug ∧ r.clock <:+ q.clock)
    (fun r node r' hr hseed => by rw [getMemorySeed_frame hseed]; exact hr)
    (fun r value r' hr hdraw => by
      refine ⟨by rw [trueRandom_frame hdraw]; exact hr.1, ?_⟩
      rcases trueRandom_clock hdraw with hsame | ⟨first, hfirst⟩
      · rw [hsame]
        exact hr.2
      · exact (hfirst ▸ List.suffix_cons _ _).trans hr.2) hcall
  rw [htime] at htime'
  cases htime'
  obtain ⟨hndebug, read, hsuffix⟩ :=
    hrest ⟨by rw [getCurrentTime_frame htime], List.suffix_rfl⟩
  rw [hread] at hclock
  obtain ⟨front, rest, rfl, -, htaken⟩ := List.map_eq_append_iff.mp hclock.symm
  obtain ⟨answer, back, rfl, hanswer, hback⟩ := List.map_eq_cons_iff.mp htaken
  rw [← hsuffix] at hback
  obtain ⟨drawn, later, rfl, -, hlater⟩ := List.map_eq_append_iff.mp hback
  refine ⟨⟨request, answer, timestamp, u, hanswers answer (by simp),
    p, q, p', before, hcall, htime, by rw [hread, hanswer]⟩, rfl, rfl, later, ?_, ?_⟩
  · exact (List.Sublist.cons_cons answer (List.sublist_append_right drawn later)).trans
      (List.sublist_append_right front _)
  · rw [hndebug]
    exact hlater.symm

/-- The identifiers of a run were made one after another at answers of its clock. -/
theorem createRun_made {answers : List TimeOfDay} {us : List Cuuid}
    (hclock : p.clock = answers.map (getSystemTime p.ndebug))
    (hanswers : ∀ answer ∈ answers, Recordable answer)
    (hrun : run createStep (List.replicate us.length request) p =
      .ok (us.map fun u => (.ok, some u), p')) :
    ∃ made : List Made, made.map Made.cuuid = us ∧ (∀ m ∈ made, m.request = request) ∧
      (made.map Made.answer).Sublist answers := by
  induction us generalizing p answers with
  | nil => exact ⟨[], rfl, by simp, List.nil_sublist _⟩
  | cons u us ih =>
      obtain ⟨_, q, _, hcall, hrest, heq⟩ := run_cons_eq_ok.mp hrun
      cases heq
      obtain ⟨m, hrequest, hcuuid, later, htaken, hlater⟩ := createStep_made hclock hanswers hcall
      obtain ⟨made, hcuuids, hrequests, hsublist⟩ := ih hlater
        (fun answer hmem => hanswers answer (htaken.subset (List.mem_cons_of_mem _ hmem))) hrest
      refine ⟨m :: made, by rw [List.map_cons, hcuuid, hcuuids], ?_, ?_⟩
      · exact List.forall_mem_cons.mpr ⟨hrequest, hrequests⟩
      · exact (hsublist.cons_cons m.answer).trans htaken

/-! ## The report -/

def reportedTag (request : CreateRequest) : TagResult :=
  if createdVersion request.cuuid = quidRev4 then .literal "Not implemented"
  else if effectiveTag request.tag = padding then .literal "None"
  else .tag (effectiveTag request.tag)

def expectedReport (around : Surroundings) (m : Made) : Bytes :=
  reportText true (around.asctime m.tv.tvSec) (around.milliseconds m.tv.tvUsec)
    (revisionNames around (createdVersion m.request.cuuid))
    (tagString around (reportedTag m.request)) m.request.subc m.request.flag

theorem CreatedFor.valid (h : CreatedFor request u) (hlow : u.timeLow ≠ 0) :
    quidValidate (some u) = (.ok, some u) ∧ u.version = createdVersion request.cuuid := by
  refine ⟨?_, h.version⟩
  obtain ⟨p, p', hcall⟩ := h
  obtain ⟨timestamp, q, _, htime, hanswer, -, hcarries⟩ := quidCreate_carries hcall
  cases hanswer
  exact (quidCreate_validate hcall htime).mpr (by rwa [← hcarries.timeLow])

theorem CreatedFor.quidTag (h : CreatedFor request u) (hlow : u.timeLow ≠ 0) (ndebug : Bool) :
    Quid.quidTag ndebug (some u) = .ok (reportedTag request) := by
  obtain ⟨p, p', hcall⟩ := h
  obtain ⟨timestamp, q, _, htime, hanswer, hshape⟩ := quidCreate_shape hcall
  cases hanswer
  rcases hshape with ⟨hrev, clockseq, node, first, last, rfl⟩ | ⟨hrev, clockseq, rfl⟩
  · have hreported : reportedTag request = .literal "Not implemented" := by
      simp only [reportedTag, createdVersion, hrev, if_true]
    rw [hreported]
    rfl
  · have hreported : reportedTag request =
        if effectiveTag request.tag = padding then .literal "None"
        else .tag (effectiveTag request.tag) := by
      have hother : quidRev7 ≠ quidRev4 := by decide
      simp only [reportedTag, createdVersion, hrev, hother, if_false]
    rw [hreported]
    exact rev7Identifier_tag hlow ndebug

theorem CreatedFor.metadata (h : CreatedFor request u) (hlow : u.timeLow ≠ 0) (ndebug : Bool) :
    quidFlag ndebug (some u) = .ok request.flag ∧
      quidCategory ndebug (some u) = .ok request.subc := by
  obtain ⟨p, p', hcall⟩ := h
  obtain ⟨timestamp, q, _, htime, hanswer, -, hcarries⟩ := quidCreate_carries hcall
  cases hanswer
  exact quidCreate_metadata hcall htime (by rwa [← hcarries.timeLow]) ndebug

theorem inputVerbose_eq {ndebug : Bool} {flag category : UInt8} {tag : TagResult}
    (hvalid : quidValidate (some u) = (.ok, some u)) (htag : quidTag ndebug (some u) = .ok tag)
    (hcategory : quidCategory ndebug (some u) = .ok category)
    (hflag : quidFlag ndebug (some u) = .ok flag) :
    inputVerbose around ndebug u =
      .ok (reportText true (around.asctime (quidTimeval u).tvSec)
        (around.milliseconds (quidTimeval u).tvUsec) (revisionNames around u.version)
        (tagString around tag) category flag) := by
  simp only [inputVerbose, hvalid, Option.getD_some, htag, hcategory, hflag, quidTimestamp,
    quidMicrotime, ok_bind, idfNull, UInt8.xor_zero]
  rfl

theorem inputVerbose_made (m : Made) (hlow : m.cuuid.timeLow ≠ 0) (ndebug : Bool)
    (tag : TagText) :
    inputVerbose around ndebug { m.cuuid with tag } = .ok (expectedReport around m) := by
  obtain ⟨hvalid, hversion⟩ := m.createdFor.valid hlow
  have hagain : quidValidate (some { m.cuuid with tag }) = (.ok, some { m.cuuid with tag }) :=
    quidValidate_congr hvalid tag m.cuuid.version
  have hsame := sameReadings_tag m.cuuid tag
  have htime : Quid.quidTimeval { m.cuuid with tag } = m.tv := m.quidTimeval
  obtain ⟨hflag, hcategory⟩ := m.createdFor.metadata hlow ndebug
  rw [inputVerbose_eq hagain ((hsame.tag ndebug).trans (m.createdFor.quidTag hlow ndebug))
    ((hsame.category ndebug).trans hcategory) ((hsame.flag ndebug).trans hflag)]
  rw [expectedReport, ← hversion, htime]

/-! ## One operand -/

def verdict (around : Surroundings) (vbose : Bool) (m : Made) : Bytes :=
  quidText m.cuuid ++ [chr '\t'] ++
    if m.timestamp.toNat % 2 ^ 32 = 0 then ascii "INVALID\n"
    else ascii "VALID\n" ++ if vbose then expectedReport around m else []

theorem quidParse_zeroLow (hwidth : u.timeLow.toNat < 2 ^ 32) (hlow : u.timeLow = 0)
    (prior : Cuuid) :
    ∃ buffer parsed, quidParse (some (quidText u ++ [0])) (some prior) =
      (.error, buffer, some parsed) := by
  have hhex := wireDigits_hex hwidth
  obtain ⟨hparse, -⟩ := quidParse_eq hhex.zero_notMem_canonicalText [] prior
  have hzero : quidValidate (some { u with tag := prior.tag, version := prior.version }) =
      (.error, some { u with tag := prior.tag, version := prior.version }) := quidValidate_zero hlow
  rw [hhex.stripped_canonicalText, decoded_wireDigits hwidth, hzero] at hparse
  rw [quidText_eq hwidth]
  exact ⟨_, _, hparse hhex⟩

theorem checkOperand_made (around : Surroundings) (m : Made) (ndebug vbose : Bool)
    (state : Cuuid × Bytes) :
    ∃ uuid, checkOperand around ndebug vbose state (quidText m.cuuid) =
      .ok (uuid, state.2 ++ verdict around vbose m) := by
  have hwidth := m.createdFor.created.facts.1
  by_cases hlow : m.cuuid.timeLow = 0
  · obtain ⟨buffer, parsed, hparse⟩ := quidParse_zeroLow hwidth hlow state.1
    refine ⟨parsed, ?_⟩
    simp only [checkOperand, hparse, if_true, verdict, m.timeLow_eq_zero_iff.mp hlow, fprintf,
      List.append_assoc]
    rfl
  · obtain ⟨buffer, hparse⟩ :=
      quidParse_canonicalText hwidth (m.createdFor.valid hlow).1 [] state.1
    rw [← quidText_eq hwidth] at hparse
    have hverdict : verdict around vbose m = quidText m.cuuid ++ [chr '\t'] ++
        (ascii "VALID\n" ++ if vbose then expectedReport around m else []) := by
      rw [verdict, if_neg (mt m.timeLow_eq_zero_iff.mpr hlow)]
    refine ⟨{ m.cuuid with tag := state.1.tag }, ?_⟩
    rw [hverdict]
    cases vbose with
    | false => simp [checkOperand, hparse, fprintf]
    | true => simp [checkOperand, hparse, fprintf, inputVerbose_made m hlow]

/-! ## A command line of lines -/

theorem checkOperands_fold (around : Surroundings) (made : List Made) (ndebug vbose : Bool)
    (state : Cuuid × Bytes) :
    ∃ uuid, (made.map fun m => quidText m.cuuid).foldlM (checkOperand around ndebug vbose) state =
      .ok (uuid, state.2 ++ made.flatMap (verdict around vbose)) := by
  induction made generalizing state with
  | nil => exact ⟨state.1, by simp⟩
  | cons m made ih =>
      obtain ⟨first, hfirst⟩ := checkOperand_made around m ndebug vbose state
      obtain ⟨last, hlast⟩ := ih (first, state.2 ++ verdict around vbose m)
      refine ⟨last, ?_⟩
      simp only [List.map_cons, List.foldlM_cons, hfirst, ok_bind, hlast, List.flatMap_cons,
        List.append_assoc]

theorem checkOperands_made (made : List Made) (ndebug vbose : Bool) (uuid : Cuuid) :
    checkOperands around ndebug vbose uuid (made.map fun m => quidText m.cuuid) =
      .ok (made.flatMap (verdict around vbose)) := by
  obtain ⟨last, hfold⟩ := checkOperands_fold around made ndebug vbose (uuid, [])
  simp only [checkOperands, hfold, ok_bind, List.nil_append]
  rfl

theorem Made.line_facts (m : Made) :
    isOperand mainShortOptions (quidText m.cuuid) = true ∧ 0 ∉ quidText m.cuuid := by
  have hwidth := m.createdFor.created.facts.1
  rw [quidText_eq hwidth]
  constructor
  · have hhead : (canonicalText (wireDigits m.cuuid)).head? = some (chr '{') := by
      simp [canonicalText]
    have hbrace : chr '{' ≠ chr '-' := by decide
    simp [isOperand, hhead, hbrace]
  · exact (wireDigits_hex hwidth).zero_notMem_canonicalText

def verboseFound (report : Report) : Occurrence := ⟨charInt (chr 'V'), emsg, 1, report⟩

theorem verbose_decodes (environment : Bool) (progname : Bytes) (words : List Bytes)
    (report : Report) :
    Decodes (optionAt (mainCall environment progname) mainShortOptions ⟨true, false, false⟩)
      (startPlace (ascii "-V")) (ascii "-V" :: words) report (verboseFound report) := by
  rintro front s hargv hind hplace rfl
  obtain ⟨nargv, optind, optreset, place, posix, start, last, report⟩ := s
  cases hplace
  rfl

theorem reads_verbose (environment : Bool) (progname : Bytes) {words : List Bytes}
    (hwords : ∀ w ∈ words, isOperand mainShortOptions w = true) :
    Reads (mainCall environment progname) mainShortOptions false emsg (ascii "-V" :: words) .initial
      (.option (charInt (chr 'V')) (entered .initial) [ascii "-V"] :: words.map .operand) := by
  have hfirst : ∀ w ∈ ([] : List Bytes), isOperand mainShortOptions w = true := by simp
  exact .first hfirst (by decide) (by decide)
    (verbose_decodes environment progname words (entered .initial)) (.done hwords)

theorem mainSwitch_verbose (config : Config) (report : Report) (s : Settings) :
    mainSwitch config (charInt (chr 'V')) report s = .ok { s with vbose := true } := rfl

def verboseWords (vbose : Bool) : List Bytes := if vbose then [ascii "-V"] else []

theorem mainProgram_made (world : World) (environment : Bool) (progname : Bytes) {prog : Bytes}
    (hprog : 0 ∉ prog) {made : List Made} (hmade : made ≠ []) (vbose : Bool) :
    mainProgram world (mainCall environment progname)
        (prog :: (verboseWords vbose ++ made.map fun m => quidText m.cuuid)) =
      .returned 0 { Output.empty with stdout := made.flatMap (verdict world.around vbose) } := by
  have hoperands : ∀ w ∈ made.map fun m => quidText m.cuuid,
      isOperand mainShortOptions w = true ∧ 0 ∉ w :=
    List.forall_mem_map.mpr fun m _ => m.line_facts
  have hlines : (made.map fun m => quidText m.cuuid) ≠ [] := by simpa using hmade
  have hclean : ∀ w ∈ prog :: (verboseWords vbose ++ made.map fun m => quidText m.cuuid),
      0 ∉ w := by
    have hwords : ∀ w ∈ verboseWords vbose, 0 ∉ w := by
      cases vbose <;> decide
    intro w hw
    rcases List.mem_cons.mp hw with rfl | hw
    · exact hprog
    · exact (List.mem_append.mp hw).elim (hwords w) fun hw => (hoperands w hw).2
  have hafter : ∀ s : Settings, s.vbose = vbose →
      afterOptions world (made.map fun m => quidText m.cuuid) s =
        .ok { Output.empty with stdout := made.flatMap (verdict world.around vbose) } := by
    rintro s rfl
    simp only [afterOptions, hlines, if_false, checkOperands_made]
    rfl
  cases vbose with
  | false =>
      have hreads : Reads (mainCall environment progname) mainShortOptions false emsg
          (verboseWords false ++ made.map fun m => quidText m.cuuid) .initial
          ((made.map fun m => quidText m.cuuid).map .operand) :=
        .done fun w hw => (hoperands w hw).1
      rw [mainProgram_eq world environment progname hclean hreads, itemsTaken_operands,
        wordsLeft_operands]
      exact congrArg finish (hafter _ rfl)
  | true =>
      have hreads := reads_verbose environment progname fun w hw => (hoperands w hw).1
      rw [mainProgram_eq world environment progname hclean hreads]
      simp only [itemsTaken_option, wordsLeft_option, wordsLeft_operands, List.flatMap_cons,
        Item.answers, itemsTaken_operands, List.append_nil, List.foldlM_cons, List.foldlM_nil,
        optionStep, mainSwitch_verbose, ok_bind]
      exact congrArg finish (hafter _ rfl)

/--
The lines that one run of the program has written, given to another run, are
checked one after another: a line is valid unless the lower time word of its
identifier is zero, and the report shows the request of the run that made it and
the time at which its call stopped at a clock reading.
-/
theorem generate_checked {s : Settings} {fs : FileSystem} {intflag : Nat → Bool}
    {cpu elapsed : Bytes} {out : Output} {answers : List TimeOfDay} (hs : s.Sound)
    (hformat : s.fmat = printFormatHexBacket)
    (hclock : s.process.clock = answers.map (getSystemTime s.process.ndebug))
    (hanswers : ∀ answer ∈ answers, Recordable answer)
    (h : generate fs intflag cpu elapsed s = .ok out) :
    ∃ made : List Made, Written s cpu elapsed (made.map Made.cuuid) out ∧
      shownLines s.fmat (made.map Made.cuuid) =
        made.flatMap (fun m => quidText m.cuuid ++ [chr '\n']) ∧
      (made.map Made.answer).Sublist answers ∧
      (∀ m ∈ made, m.request = mainRequest s ∧ 0 ≤ m.tv.micros - m.answer.tv.micros ∧
        m.tv.micros - m.answer.tv.micros ≤ 102) ∧
      (made ≠ [] → ∀ (world : World) (environment : Bool) (progname prog : Bytes) (vbose : Bool),
        0 ∉ prog → mainProgram world (mainCall environment progname)
            (prog :: (verboseWords vbose ++ made.map fun m => quidText m.cuuid)) =
          .returned 0 { Output.empty with
            stdout := made.flatMap (verdict world.around vbose) }) := by
  obtain ⟨start, g, shown, unseen, hgenerated, hwritten⟩ := generate_generated hs h
  obtain ⟨all, hall, hrequests, hsublist⟩ := createRun_made hclock hanswers hgenerated.run
  obtain ⟨made, rest, rfl, rfl, -⟩ := List.map_eq_append_iff.mp hall
  rw [List.map_append] at hsublist
  refine ⟨made, hwritten, ?_, (List.sublist_append_left _ _).trans hsublist, fun m hm => ?_,
    fun hmade world environment progname prog vbose hprog => ?_⟩
  · rw [hformat, shownLines_created fun u hu => ?_, List.flatMap_map]
    obtain ⟨m, -, rfl⟩ := List.mem_map.mp hu
    exact m.createdFor.created
  · exact ⟨hrequests m (List.mem_append_left _ hm), m.near⟩
  · exact mainProgram_made world environment progname hprog hmade vbose

theorem generate_checked_still :
    ∃ out, generate (stillWorld []).fs (fun _ => false) [] [] stillSettings = .ok out ∧
    ∃ made : List Made, Written stillSettings [] [] (made.map Made.cuuid) out ∧
      shownLines stillSettings.fmat (made.map Made.cuuid) =
        made.flatMap (fun m => quidText m.cuuid ++ [chr '\n']) ∧
      (made.map Made.answer).Sublist (List.replicate 3 stillDraw.timeOfDay) ∧
      (∀ m ∈ made, m.request = mainRequest stillSettings ∧
        0 ≤ m.tv.micros - m.answer.tv.micros ∧ m.tv.micros - m.answer.tv.micros ≤ 102) ∧
      (made ≠ [] → ∀ (world : World) (environment : Bool) (progname prog : Bytes) (vbose : Bool),
        0 ∉ prog → mainProgram world (mainCall environment progname)
            (prog :: (verboseWords vbose ++ made.map fun m => quidText m.cuuid)) =
          .returned 0 { Output.empty with
            stdout := made.flatMap (verdict world.around vbose) }) := by
  obtain ⟨out, hgenerate⟩ := stillSettings_generate
  have hanswers : ∀ answer ∈ List.replicate 3 stillDraw.timeOfDay, Recordable answer := by
    intro answer hmem
    rw [List.eq_of_mem_replicate hmem]
    exact ⟨⟨by decide, by decide, by decide⟩, by decide⟩
  exact ⟨out, hgenerate, generate_checked stillSettings_sound rfl rfl hanswers hgenerate⟩

end Quid
