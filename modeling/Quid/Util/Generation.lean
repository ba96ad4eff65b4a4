import Quid.Generator.Unique
import Quid.Text.Equality
import Quid.Util.Options
import Quid.Util.Output

/-!
# The identifiers a run of the utility makes

The loop of `main` is a run of `quid_create` with one request, cut short by an
interrupt.  The options of the output decide where the identifiers are written,
not which ones are made: an interrupted turn has made one that is never written.
-/

namespace Quid

open Quid.Foundation
open Quid.Foundation.CString

/-- The arguments of every turn; of the structure only the version counts. -/
def mainRequest (s : Settings) : CreateRequest := ⟨s.cuuid, s.flg, s.cat, some s.tag⟩

def identifierLine (format : Int) (u : Cuuid) : Bytes := quidPrintFile [] u format

def shownLines (format : Int) (shown : List Cuuid) : Bytes := shown.flatMap (identifierLine format)

def sleptFor (delay : Int) : List Timespec :=
  match mainDelay delay with
  | .ok slept => slept.toList
  | .error _ => []

def Output.extended (out : Output) (s : Settings) (shown : List Cuuid) : Output where
  stdout := if s.fout || s.nout then out.stdout else out.stdout ++ shownLines s.fmat shown
  file := if s.fout then out.file.map (· ++ shownLines s.fmat shown) else out.file
  sleeps := out.sleeps ++ shown.flatMap fun _ => sleptFor s.delay

variable {s : Settings} {intflag : Nat → Bool} {turns : Nat} {g g' : Generation} {out : Output}

theorem quidPrintFile_append (fp : Bytes) (u : Cuuid) (format : Int) :
    quidPrintFile fp u format = fp ++ quidPrintFile [] u format := by
  unfold quidPrintFile
  split
  · simp [quidPrintFileHex, fprintf]
  split
  · simp [quidPrintFileDec, fprintf]
  · simp [quidPrintFileHexBracket, fprintf]

theorem Output.extended_nil (out : Output) (s : Settings) : out.extended s [] = out := by
  cases out
  simp [Output.extended, shownLines]

theorem Output.extended_extended (out : Output) (s : Settings) (first second : List Cuuid) :
    (out.extended s first).extended s second = out.extended s (first ++ second) := by
  cases hfout : s.fout <;> cases hnout : s.nout <;>
    simp [Output.extended, shownLines, hfout, hnout, Function.comp_def]

theorem showIdentifier_extended (u : Cuuid) {slept : Option Timespec}
    (hslept : mainDelay s.delay = .ok slept) :
    { showIdentifier s u out with sleeps := (showIdentifier s u out).sleeps ++ slept.toList } =
      out.extended s [u] := by
  have hprint : ∀ fp, quidPrintFile fp u s.fmat = fp ++ identifierLine s.fmat u :=
    fun fp => quidPrintFile_append fp u s.fmat
  cases hfout : s.fout <;> cases hnout : s.nout <;>
    simp [Output.extended, shownLines, showIdentifier, quidPrint, hfout, hnout, hprint, sleptFor,
      hslept]

theorem quidCreate_of_version {p : Process} {u v : Cuuid} (h : u.version = v.version)
    (flag subc : UInt8) (tag : Option TagText) :
    quidCreate p (some u) flag subc tag = quidCreate p (some v) flag subc tag := by
  simp only [quidCreate, h]

/-! ## The loop -/

/-- What the loop leaves when it has shown some identifiers and made perhaps one more. -/
structure Generated (s : Settings) (intflag : Nat → Bool) (turns : Nat) (g g' : Generation)
    (shown unseen : List Cuuid) : Prop where
  run : run createStep (List.replicate (shown ++ unseen).length (mainRequest s)) g.process =
    .ok ((shown ++ unseen).map fun u => (.ok, some u), g'.process)
  count : g'.i = g.i + shown.length
  quiet : ∀ j < shown.length, intflag (g.i + j) = false
  ending : unseen = [] ∧ shown.length = turns ∨
    unseen.length = 1 ∧ shown.length < turns ∧ intflag (g.i + shown.length) = true
  out : g'.out = g.out.extended s shown

theorem Generated.nil (s : Settings) (intflag : Nat → Bool) (g : Generation) :
    Generated s intflag 0 g g [] [] where
  run := rfl
  count := rfl
  quiet := by simp
  ending := .inl ⟨rfl, rfl⟩
  out := (Output.extended_nil g.out s).symm

theorem Generated.cons {u : Cuuid} {process : Process} {shown unseen : List Cuuid}
    (hcall : createStep (mainRequest s) g.process = .ok ((.ok, some u), process))
    (hquiet : intflag g.i = false)
    (h : Generated s intflag turns ⟨g.i + 1, u, process, g.out.extended s [u]⟩ g' shown unseen) :
    Generated s intflag (turns + 1) g g' (u :: shown) unseen where
  run := run_cons_eq_ok.mpr ⟨_, process, _, hcall, h.run, rfl⟩
  count := by
    have hcount : g'.i = g.i + 1 + shown.length := h.count
    rw [hcount, List.length_cons]
    omega
  quiet j hj := by
    cases j with
    | zero => exact hquiet
    | succ j =>
        have hlater := h.quiet j (by simpa using hj)
        rwa [Nat.add_assoc, Nat.add_comm 1 j] at hlater
  ending := by
    have hturn : g.i + (u :: shown).length = g.i + 1 + shown.length := by
      rw [List.length_cons]
      omega
    rw [hturn, List.length_cons]
    rcases h.ending with ⟨hunseen, hall⟩ | ⟨hunseen, hless, hinterrupt⟩
    · exact .inl ⟨hunseen, congrArg (· + 1) hall⟩
    · exact .inr ⟨hunseen, Nat.succ_lt_succ hless, hinterrupt⟩
  out := by
    rw [h.out, Output.extended_extended]
    rfl

theorem generateLoop_generated (hs : s.Sound) (hversion : g.cuuid.version = s.cuuid.version)
    (h : generateLoop s intflag turns g = .ok g') :
    ∃ shown unseen, Generated s intflag turns g g' shown unseen := by
  induction turns generalizing g with
  | zero =>
      cases h
      exact ⟨[], [], .nil s intflag _⟩
  | succ turns ih =>
      obtain ⟨_, -, h⟩ := bind_eq_ok.mp h
      obtain ⟨⟨answer, process⟩, hcall, h⟩ := bind_eq_ok.mp h
      rw [quidCreate_of_version hversion] at hcall
      obtain ⟨_, _, u, -, rfl, hcreated, -⟩ := quidCreate_carries hcall
      dsimp only [Option.getD_some] at h
      split at h
      · next hinterrupt =>
          cases h
          refine ⟨[], [u], ?_⟩
          exact
            { run := run_cons_eq_ok.mpr ⟨_, process, _, hcall, rfl, rfl⟩
              count := rfl
              quiet := by simp
              ending := .inr ⟨rfl, Nat.succ_pos _, hinterrupt⟩
              out := (Output.extended_nil g.out s).symm }
      · next hquiet =>
          obtain ⟨slept, hslept, h⟩ := bind_eq_ok.mp h
          rw [showIdentifier_extended u hslept] at h
          have hkept : u.version = s.cuuid.version := by
            rw [hcreated]
            rcases hs.version with hrev | hrev <;> simp [createdVersion, hrev, quidRev4, quidRev7]
          obtain ⟨shown, unseen, hrest⟩ := ih (g := ⟨g.i + 1, u, process, _⟩) hkept h
          exact ⟨u :: shown, unseen, hrest.cons hcall (by simpa using hquiet)⟩

/-! ## The output -/

structure Written (s : Settings) (cpu elapsed : Bytes) (shown : List Cuuid) (out : Output) :
    Prop where
  stdout : out.stdout = (if s.fout || s.nout then [] else shownLines s.fmat shown) ++
    if s.vbose then printVerbose cpu elapsed shown.length s.delay else []
  file : out.file = if s.fout then some (shownLines s.fmat shown) else none
  sleeps : out.sleeps = shown.flatMap fun _ => sleptFor s.delay

theorem openOutput_file {fs : FileSystem} {file : Option Bytes}
    (h : openOutput fs s = .ok file) : file = if s.fout then some [] else none := by
  unfold openOutput at h
  cases hfout : s.fout with
  | false =>
      rw [hfout] at h
      cases h
      rfl
  | true =>
      simp only [hfout, Bool.not_true, Bool.false_eq_true, if_false] at h
      cases hname : s.fname with
      | none =>
          rw [hname] at h
          cases h
      | some fname =>
          simp only [hname] at h
          split at h
          · split at h
            · cases h
              rfl
            · cases h
          · split at h <;> cases h

theorem mapError_eq_ok {α ε ε' : Type} {f : ε → ε'} {result : Except ε α} {a : α}
    (h : result.mapError f = .ok a) : result = .ok a := by
  cases result with
  | error reason => cases h
  | ok b =>
      cases h
      rfl

theorem generate_generated {fs : FileSystem} {cpu elapsed : Bytes} (hs : s.Sound)
    (h : generate fs intflag cpu elapsed s = .ok out) :
    ∃ start g shown unseen, Generated s intflag s.n.toNat ⟨0, s.cuuid, s.process, start⟩ g
        shown unseen ∧ Written s cpu elapsed shown out := by
  obtain ⟨file, hopen, h⟩ := bind_eq_ok.mp h
  obtain ⟨g, hloop, h⟩ := bind_eq_ok.mp h
  obtain ⟨shown, unseen, hgenerated⟩ := generateLoop_generated hs rfl (mapError_eq_ok hloop)
  have hout := hgenerated.out
  have hcount : g.i = shown.length := hgenerated.count.trans (Nat.zero_add _)
  refine ⟨_, g, shown, unseen, hgenerated, ?_⟩
  rw [openOutput_file hopen] at hout
  have hlines : Written { s with vbose := false } cpu elapsed shown g.out := by
    rw [hout]
    constructor
    · cases hfout : s.fout <;> cases hnout : s.nout <;>
        simp [Output.extended, Output.empty, shownLines, hfout, hnout]
    · cases hfout : s.fout <;> simp [Output.extended, Output.empty, shownLines, hfout]
    · simp [Output.extended, Output.empty]
  cases hvbose : s.vbose with
  | false =>
      rw [hvbose] at h
      cases h
      exact ⟨by simpa [hvbose] using hlines.stdout, hlines.file, hlines.sleeps⟩
  | true =>
      rw [hvbose] at h
      cases h
      refine ⟨?_, hlines.file, hlines.sleeps⟩
      simp [hlines.stdout, hvbose, hcount]

/--
A run of the loop makes the identifiers of one run of `quid_create` and writes
them all, up to the turn that finds the interrupt; where they go depends on the
options of the output alone.
-/
theorem generate_written {fs : FileSystem} {cpu elapsed : Bytes} (hs : s.Sound)
    (h : generate fs intflag cpu elapsed s = .ok out) :
    ∃ shown unseen p,
      run createStep (List.replicate (shown ++ unseen).length (mainRequest s)) s.process =
        .ok ((shown ++ unseen).map fun u => (.ok, some u), p) ∧
      (∀ i < shown.length, intflag i = false) ∧
      (unseen = [] ∧ shown.length = s.n.toNat ∨
        unseen.length = 1 ∧ shown.length < s.n.toNat ∧ intflag shown.length = true) ∧
      Written s cpu elapsed shown out := by
  obtain ⟨start, g, shown, unseen, hgenerated, hwritten⟩ := generate_generated hs h
  refine ⟨shown, unseen, g.process, hgenerated.run, ?_, ?_, hwritten⟩
  · simpa using hgenerated.quiet
  · simpa using hgenerated.ending

def stillSettings : Settings :=
  .initial Cuuid.zero (.still (List.replicate 3 17000000000000000))

theorem stillSettings_sound : stillSettings.Sound := Settings.initial_sound _ _

theorem stillSettings_generate :
    ∃ out, generate (stillWorld []).fs (fun _ => false) [] [] stillSettings = .ok out := by
  apply eq_ok_of_isOk
  decide +kernel

theorem generate_written_still :
    ∃ out, generate (stillWorld []).fs (fun _ => false) [] [] stillSettings = .ok out ∧
    ∃ shown unseen p,
      run createStep (List.replicate (shown ++ unseen).length (mainRequest stillSettings))
          stillSettings.process =
        .ok ((shown ++ unseen).map fun u => (.ok, some u), p) ∧
      (∀ i < shown.length, (fun _ => false) i = false) ∧
      (unseen = [] ∧ shown.length = stillSettings.n.toNat ∨
        unseen.length = 1 ∧ shown.length < stillSettings.n.toNat ∧
          (fun _ => false) shown.length = true) ∧
      Written stillSettings [] [] shown out := by
  obtain ⟨out, hgenerate⟩ := stillSettings_generate
  exact ⟨out, hgenerate, generate_written stillSettings_sound hgenerate⟩

/-! ## Distinct lines -/

theorem quidText_eq_iff {u v : Cuuid} (hu : u.timeLow.toNat < 2 ^ 32)
    (hv : v.timeLow.toNat < 2 ^ 32) : quidText u = quidText v ↔ u.SameWire v := by
  rw [sameWire_iff_wireDigits hu hv, quidText_eq hu, quidText_eq hv]
  constructor
  · intro h
    rw [← (wireDigits_hex hu).stripped_canonicalText, h, (wireDigits_hex hv).stripped_canonicalText]
  · intro h
    rw [h]

theorem identifierLine_created {u : Cuuid} (h : Created u) :
    identifierLine printFormatHexBacket u = quidText u ++ [chr '\n'] := by
  obtain ⟨hlow, hclock⟩ := h.facts
  have hbracket : identifierLine printFormatHexBacket u = quidPrintFileHexBracket [] u := rfl
  rw [hbracket, quidPrintFileHexBracket_eq hlow (by omega), List.nil_append]

def CreatedFor (request : CreateRequest) (u : Cuuid) : Prop :=
  ∃ p p', createStep request p = .ok ((.ok, some u), p')

theorem CreatedFor.created {request : CreateRequest} {u : Cuuid} (h : CreatedFor request u) :
    Created u := by
  obtain ⟨p, p', hcall⟩ := h
  exact ⟨p, p', _, _, _, _, hcall⟩

theorem CreatedFor.version {request : CreateRequest} {u : Cuuid} (h : CreatedFor request u) :
    u.version = createdVersion request.cuuid := by
  obtain ⟨p, p', hcall⟩ := h
  obtain ⟨_, _, _, -, hanswer, hversion, -⟩ := quidCreate_carries hcall
  cases hanswer
  exact hversion

theorem shownLines_created {us : List Cuuid} (h : ∀ u ∈ us, Created u) :
    shownLines printFormatHexBacket us = us.flatMap fun u => quidText u ++ [chr '\n'] := by
  rw [shownLines, List.flatMap_def, List.flatMap_def]
  exact congrArg List.flatten (List.map_congr_left fun u hu => identifierLine_created (h u hu))

theorem createRun_createdFor {request : CreateRequest} {count : Nat} {p p' : Process}
    {us : List Cuuid}
    (hrun : run createStep (List.replicate count request) p =
      .ok (us.map fun u => (.ok, some u), p')) :
    ∀ u ∈ us, CreatedFor request u := by
  intro u hu
  obtain ⟨r, hr, q, q', hcall⟩ := run_output_mem hrun (List.mem_map_of_mem hu)
  rw [List.eq_of_mem_replicate hr] at hcall
  exact ⟨q, q', hcall⟩

theorem lines_nodup {us : List Cuuid} (hcreated : ∀ u ∈ us, Created u)
    (hunique : Unique (us.map fun u => (.ok, some u))) :
    (us.map (identifierLine printFormatHexBacket)).Nodup := by
  have hpairs := List.pairwise_map.mp hunique.2
  refine List.pairwise_map.mpr (hpairs.imp_of_mem fun hu hv hdiffer hline => ?_)
  rw [identifierLine_created (hcreated _ hu), identifierLine_created (hcreated _ hv),
    List.append_cancel_right_eq] at hline
  have hsame := (quidText_eq_iff (hcreated _ hu).facts.1 (hcreated _ hv).facts.1).mp hline
  exact quidCmp_some_error_iff.mp hdiffer hsame

/-- A run that finds a clear tick at every call never writes the same line twice. -/
theorem generate_distinct {fs : FileSystem} {cpu elapsed : Bytes} {gap : Nat} (hs : s.Sound)
    (hformat : s.fmat = printFormatHexBacket) (hsupplied : Supplied gap s.process)
    (hclear : Throughout createStep (fun _ p => TickClear p)
      (List.replicate s.n.toNat (mainRequest s)) s.process)
    (h : generate fs intflag cpu elapsed s = .ok out) :
    ∃ shown, Written s cpu elapsed shown out ∧
      (shown.map (identifierLine s.fmat)).Nodup ∧
      ∀ line ∈ shown.map (identifierLine s.fmat),
        line.length = quidFullLen + 1 ∧ line.getLast? = some (chr '\n') := by
  obtain ⟨start, g, shown, unseen, hgenerated, hwritten⟩ := generate_generated hs h
  have hrun := hgenerated.run
  have hcreated : ∀ u ∈ shown ++ unseen, Created u := fun u hu =>
    (createRun_createdFor hrun u hu).created
  have hcount : (shown ++ unseen).length ≤ s.n.toNat := by
    rw [List.length_append]
    rcases hgenerated.ending with ⟨hunseen, hall⟩ | ⟨hunseen, hless, -⟩
    · rw [hunseen, hall]
      exact le_rfl
    · omega
  have hsplit : List.replicate s.n.toNat (mainRequest s) =
      List.replicate (shown ++ unseen).length (mainRequest s) ++
        List.replicate (s.n.toNat - (shown ++ unseen).length) (mainRequest s) := by
    rw [List.replicate_append_replicate, Nat.add_sub_cancel' hcount]
  rw [hsplit] at hclear
  have hunique := createRun_unique_of_clear hsupplied (hclear.of_append hrun).1 hrun
  rw [hformat]
  refine ⟨shown, hwritten, ?_, ?_⟩
  · have hall := lines_nodup hcreated hunique
    rw [List.map_append] at hall
    exact hall.of_append_left
  · intro line hline
    obtain ⟨u, hu, rfl⟩ := List.mem_map.mp hline
    have hmade := hcreated u (List.mem_append_left _ hu)
    rw [identifierLine_created hmade, quidText_eq hmade.facts.1]
    have hlength := length_canonicalText (wireDigits_hex hmade.facts.1).length
    exact ⟨by rw [List.length_append, hlength]; rfl, List.getLast?_concat⟩

theorem stillSettings_supplied : Supplied 10000 stillSettings.process := by
  have hreadings : PosixReadings (List.replicate 3 17000000000000000) :=
    posixReadings_of_all (by decide) (by decide)
  exact initial_supplied (by decide) hreadings.positive hreadings.below false _ _

theorem generate_distinct_still :
    ∃ out, generate (stillWorld []).fs (fun _ => false) [] [] stillSettings = .ok out ∧
    ∃ shown, Written stillSettings [] [] shown out ∧
      (shown.map (identifierLine stillSettings.fmat)).Nodup ∧
      ∀ line ∈ shown.map (identifierLine stillSettings.fmat),
        line.length = quidFullLen + 1 ∧ line.getLast? = some (chr '\n') := by
  obtain ⟨out, hgenerate⟩ := stillSettings_generate
  refine ⟨out, hgenerate, generate_distinct stillSettings_sound rfl stillSettings_supplied ?_
    hgenerate⟩
  exact throughout_tickClear (by decide) stillSettings_supplied (fun h => by cases h)

end Quid
