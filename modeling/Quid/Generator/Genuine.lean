import Quid.Format.Validate

/-!
# Created identifiers are genuine

A creation gives an identifier that the validator accepts under the requested
version exactly when the low 32 bits of its timestamp are not zero, no seed
counter leaves `int`, and the file of the memory seed is usable when it is due.
A timestamp that is a multiple of `2 ^ 32` fails the assertion of `encrypt_node`
in REV7 and the validator in REV4.
-/

namespace Quid

open Quid.Foundation
open Quid.Foundation.CyclicCounter
open Quid.Foundation.TickCounter

def Genuine (p : Process) (prior : Cuuid) (flag subc : UInt8) (tag : Option TagText) : Prop :=
  ∃ u p', quidCreate p (some prior) flag subc tag = .ok ((.ok, some u), p') ∧
    quidValidate (some u) = (.ok, some u) ∧ u.version = createdVersion prior

structure AdmittedReading (reading : UInt64) : Prop where
  micros : reading % 10 = 0
  admitted : 10000000000000000 < reading
  below : reading.toNat + uidsPerTick.toNat < 2 ^ 60

/-- The next call of `get_current_time` stops at `reading`, having taken `before`. -/
def NextStop (p : Process) (before : Clock) (reading : UInt64) : Prop :=
  (p.inited = true ∧ StopsAt p before reading) ∨
    (p.inited = false ∧ ∃ first skipped, before = .ok first :: skipped ∧
      StopsAt { p with idsThisTick := uidsPerTick } skipped reading)

def Process.offset (p : Process) (reading : UInt64) : Nat :=
  if p.timeLast = reading then p.idsThisTick.toNat + 1 else 0

/-- A counter that advances this often without leaving `int`. -/
def CounterFits (advances : Nat) (count limit : Int) : Prop :=
  ∀ k < advances, (advance · limit)^[k] count ≠ intMax ∨ limit = intMax

/-- A file that opens has six bytes and closes; one that is created is written and closes. -/
structure RandFile.Usable (file : RandFile) : Prop where
  found : ∀ content, file.content = some content → 6 ≤ content.length ∧ file.closes = true
  created : file.content = none → file.opensForWriting = true →
    file.writes = true ∧ file.closes = true

def SeedsFit (p : Process) (version : UInt8) : Prop :=
  if version = quidRev4 then
    CounterFits 3 p.rndSeedCount p.maxRndSeed ∧ CounterFits 1 p.memSeedCount p.maxMemSeed ∧
      (p.memSeedCount = 0 → (p.files 0).Usable)
  else CounterFits 1 p.rndSeedCount p.maxRndSeed

variable {p p' q : Process} {prior : Cuuid} {flag subc : UInt8} {tag : Option TagText}

/-! ## The timestamp of a call -/

theorem takeReading_offset {reading : UInt64} (htaken : Taken p reading) (clock : Clock) :
    (takeReading p reading clock).idsThisTick.toNat = p.offset reading := by
  unfold takeReading Process.offset
  by_cases hlast : p.timeLast = reading
  · rw [if_neg (not_not.mpr hlast), if_pos hlast]
    exact idsThisTick_succ (htaken.resolve_left (not_not.mpr hlast))
  · rw [if_pos hlast, if_neg hlast]
    rfl

theorem getCurrentTime_of_nextStop {before later : Clock} {reading : UInt64}
    (hclock : p.clock = before ++ .ok reading :: later) (hstop : NextStop p before reading)
    (hbelow : reading.toNat < 2 ^ 60) :
    ∃ timestamp q, getCurrentTime p = .ok (timestamp, q) ∧ q.clock = later ∧
      timestamp.toNat = reading.toNat + p.offset reading := by
  rcases hstop with ⟨hinited, hstops⟩ | ⟨hnot, first, skipped, rfl, hstops⟩
  · refine ⟨_, _, getCurrentTime_eq_ok.mpr ⟨p, before, reading, later,
      initCurrentTime_eq_ok.mpr (.inl ⟨hinited, rfl⟩), hclock, hstops, rfl, rfl⟩, by simp, ?_⟩
    rw [toNat_stamp _ hbelow, takeReading_offset hstops.taken]
  · have hfresh : p.timeLast ≠ reading :=
      hstops.taken.resolve_right fun hlt => by simp at hlt
    refine ⟨_, _, getCurrentTime_eq_ok.mpr ⟨_, skipped, reading, later,
      initCurrentTime_eq_ok.mpr (.inr ⟨hnot, first, _, hclock, rfl⟩), rfl,
      ⟨hstops.taken, hstops.skipped_last, hstops.skipped_full⟩, rfl, rfl⟩, by simp, ?_⟩
    rw [toNat_stamp _ hbelow]
    simp [takeReading, Process.offset, hfresh]

/-! ## When draws return -/

structure Drawable (draws : Nat) (p : Process) : Prop where
  clock : ∃ readings : List UInt64, p.clock = readings.map .ok ∧ draws ≤ readings.length
  status : ∀ k, (p.draws k).timeOfDay.status = 0

theorem advanceCount_returns_iff {count limit : Int} :
    (∃ next, advanceCount count limit = .ok next) ↔ count ≠ intMax ∨ limit = intMax := by
  unfold advanceCount intSucc
  split
  · next heq =>
      subst heq
      simp [em']
  · next hne =>
      split
      · next hmax => simp [hmax, Ne.symm (hmax ▸ hne)]
      · next hmax => simp [hmax]

theorem seedRandom_returns {draws : Nat} (h : Drawable (draws + 1) p) :
    ∃ q, seedRandom p = .ok q ∧ Drawable draws q := by
  obtain ⟨readings, hclock, hlength⟩ := h.clock
  cases readings with
  | nil => simp at hlength
  | cons reading readings =>
      simp only [List.length_cons] at hlength
      by_cases hcount : p.rndSeedCount = 0
      · refine ⟨_, seedRandom_eq_ok.mpr (.inr ⟨hcount, reading, _, hclock, rfl⟩),
          ⟨readings, rfl, by omega⟩, h.status⟩
      · exact ⟨p, seedRandom_eq_ok.mpr (.inl ⟨hcount, rfl⟩),
          ⟨reading :: readings, hclock, by simp only [List.length_cons]; omega⟩, h.status⟩

theorem getTickCount_returns (ndebug : Bool) {answer : TimeOfDay} (h : answer.status = 0) :
    ∃ tick, getTickCount ndebug answer = .ok tick := by
  simp [getTickCount, h]

theorem trueRandom_returns_iff {draws : Nat} (h : Drawable (draws + 1) p) :
    (∃ value p', trueRandom p = .ok (value, p')) ↔
      p.rndSeedCount ≠ intMax ∨ p.maxRndSeed = intMax := by
  obtain ⟨q, hq, hdrawable⟩ := seedRandom_returns h
  obtain ⟨tick, htick⟩ := getTickCount_returns q.ndebug (hdrawable.status 0)
  have hcount : q.rndSeedCount = p.rndSeedCount ∧ q.maxRndSeed = p.maxRndSeed := by
    rw [seedRandom_frame hq]
    exact ⟨rfl, rfl⟩
  rw [← hcount.1, ← hcount.2, ← advanceCount_returns_iff]
  constructor
  · rintro ⟨value, p', hcall⟩
    obtain ⟨q', count, _, hq', hnext, -⟩ := trueRandom_eq_ok.mp hcall
    rw [hq] at hq'
    cases hq'
    exact ⟨count, hnext⟩
  · rintro ⟨count, hnext⟩
    exact ⟨_, _, trueRandom_eq_ok.mpr ⟨q, count, tick, hq, hnext, htick, rfl, rfl⟩⟩

theorem trueRandom_drawable {draws : Nat} {value : UInt16} (h : Drawable (draws + 1) p)
    (hcall : trueRandom p = .ok (value, p')) : Drawable draws p' := by
  obtain ⟨q, hq, hdrawable⟩ := seedRandom_returns h
  obtain ⟨q', count, tick, hq', -, -, -, rfl⟩ := trueRandom_eq_ok.mp hcall
  rw [hq] at hq'
  cases hq'
  exact ⟨hdrawable.clock, fun k => hdrawable.status (k + 1)⟩

theorem counterFits_succ {advances : Nat} {count limit : Int} :
    CounterFits (advances + 1) count limit ↔
      (count ≠ intMax ∨ limit = intMax) ∧ CounterFits advances (advance count limit) limit := by
  unfold CounterFits
  constructor
  · intro h
    refine ⟨h 0 (Nat.succ_pos _), fun k hk => ?_⟩
    have hnext := h (k + 1) (Nat.succ_lt_succ hk)
    rwa [Function.iterate_succ_apply] at hnext
  · rintro ⟨hfirst, hrest⟩ k hk
    cases k with
    | zero => exact hfirst
    | succ k =>
        rw [Function.iterate_succ_apply]
        exact hrest k (Nat.lt_of_succ_lt_succ hk)

theorem counterFits_one {count limit : Int} :
    CounterFits 1 count limit ↔ count ≠ intMax ∨ limit = intMax := by
  rw [counterFits_succ, and_iff_left]
  exact fun k hk => absurd hk (Nat.not_lt_zero k)

/-- A file that can neither be read nor created is no failure: the stack's bytes are taken. -/
theorem readSeedFile_returns_iff {file : RandFile} :
    (∃ node, readSeedFile file = .ok node) ↔ file.Usable := by
  cases hcontent : file.content with
  | some content =>
      have husable : file.Usable ↔ 6 ≤ content.length ∧ file.closes = true := by
        constructor
        · exact fun h => h.found content hcontent
        · exact fun h => ⟨by simpa [hcontent] using h, by simp [hcontent]⟩
      rw [husable]
      by_cases hshort : content.length < 6
      · simp [readSeedFile, hcontent, hshort]
      · cases hcloses : file.closes <;> simp [readSeedFile, hcontent, hshort, hcloses]
        exact Nat.not_lt.mp hshort
  | none =>
      have husable : file.Usable ↔
          (file.opensForWriting = true → file.writes = true ∧ file.closes = true) := by
        constructor
        · exact fun h => h.created hcontent
        · exact fun h => ⟨by simp [hcontent], fun _ => h⟩
      rw [husable]
      cases hopens : file.opensForWriting <;> cases hwrites : file.writes <;>
        cases hcloses : file.closes <;> simp [readSeedFile, hcontent, hopens, hwrites, hcloses]

theorem loadMemorySeed_returns_iff :
    (∃ q, loadMemorySeed p = .ok q) ↔ (p.memSeedCount = 0 → (p.files 0).Usable) := by
  rw [← readSeedFile_returns_iff]
  constructor
  · rintro ⟨q, hq⟩ hzero
    rcases loadMemorySeed_eq_ok.mp hq with ⟨hne, -⟩ | ⟨-, savedNode, hread, -⟩
    · exact absurd hzero hne
    · exact ⟨savedNode, hread⟩
  · intro h
    by_cases hzero : p.memSeedCount = 0
    · obtain ⟨savedNode, hread⟩ := h hzero
      exact ⟨_, loadMemorySeed_eq_ok.mpr (.inr ⟨hzero, savedNode, hread, rfl⟩)⟩
    · exact ⟨p, loadMemorySeed_eq_ok.mpr (.inl ⟨hzero, rfl⟩)⟩

theorem getMemorySeed_returns_iff :
    (∃ node p', getMemorySeed p = .ok (node, p')) ↔
      CounterFits 1 p.memSeedCount p.maxMemSeed ∧
        (p.memSeedCount = 0 → (p.files 0).Usable) := by
  rw [counterFits_one, ← advanceCount_returns_iff, ← loadMemorySeed_returns_iff]
  constructor
  · rintro ⟨node, p', hcall⟩
    obtain ⟨q, count, hq, hcount, -, -⟩ := getMemorySeed_eq_ok.mp hcall
    rw [loadMemorySeed_frame hq] at hcount
    exact ⟨⟨count, hcount⟩, q, hq⟩
  · rintro ⟨⟨count, hcount⟩, q, hq⟩
    refine ⟨_, _, getMemorySeed_eq_ok.mpr ⟨q, count, hq, ?_, rfl, rfl⟩⟩
    rw [loadMemorySeed_frame hq]
    exact hcount

/-! ## When creations are genuine -/

variable {timestamp : UInt64}

theorem getCurrentTime_seeds (htime : getCurrentTime p = .ok (timestamp, q)) :
    q.rndSeedCount = p.rndSeedCount ∧ q.maxRndSeed = p.maxRndSeed ∧
      q.memSeedCount = p.memSeedCount ∧ q.maxMemSeed = p.maxMemSeed ∧
      q.files = p.files ∧ q.draws = p.draws := by
  rw [getCurrentTime_frame htime]
  exact ⟨rfl, rfl, rfl, rfl, rfl, rfl⟩

theorem genuine_iff_created (htime : getCurrentTime p = .ok (timestamp, q)) :
    Genuine p prior flag subc tag ↔
      timestamp &&& 0xffffffff ≠ 0 ∧
        ∃ u p', quidCreate p (some prior) flag subc tag = .ok ((.ok, some u), p') := by
  constructor
  · rintro ⟨u, p', hcall, hvalid, -⟩
    exact ⟨(quidCreate_validate hcall htime).mp hvalid, u, p', hcall⟩
  · rintro ⟨hlow, u, p', hcall⟩
    exact ⟨u, p', hcall, (quidCreate_validate hcall htime).mpr hlow,
      (quidCreate_carries_at hcall htime).1⟩

theorem rev7_created_iff (hversion : prior.version ≠ quidRev4)
    (htime : getCurrentTime p = .ok (timestamp, q)) (hdraw : Drawable 1 q)
    (hlow : timestamp &&& 0xffffffff ≠ 0) :
    (∃ u p', quidCreate p (some prior) flag subc tag = .ok ((.ok, some u), p')) ↔
      CounterFits 1 p.rndSeedCount p.maxRndSeed := by
  obtain ⟨hcount, hlimit, -⟩ := getCurrentTime_seeds htime
  rw [counterFits_one, ← hcount, ← hlimit, ← trueRandom_returns_iff hdraw]
  constructor
  · rintro ⟨u, p', hcall⟩
    obtain ⟨_, _, clockseq, ht, hc, -, -⟩ := (quidCreate_rev7_eq_ok hversion).mp hcall
    rw [htime] at ht
    cases ht
    exact ⟨clockseq, p', hc⟩
  · rintro ⟨clockseq, p', hc⟩
    exact ⟨_, p', (quidCreate_rev7_eq_ok hversion).mpr
      ⟨timestamp, q, clockseq, htime, hc, .inr hlow, rfl⟩⟩

theorem three_draws_iff (hdraw : Drawable 3 p) :
    (∃ clockseq p₁ first p₂ last p₃, trueRandom p = .ok (clockseq, p₁) ∧
        trueRandom p₁ = .ok (first, p₂) ∧ trueRandom p₂ = .ok (last, p₃)) ↔
      CounterFits 3 p.rndSeedCount p.maxRndSeed := by
  have hnext : ∀ {r r' value}, trueRandom r = .ok (value, r') →
      r'.rndSeedCount = advance r.rndSeedCount r.maxRndSeed ∧ r'.maxRndSeed = r.maxRndSeed := by
    intro r r' value hcall
    rw [trueRandom_frame hcall]
    exact ⟨rfl, rfl⟩
  rw [counterFits_succ, counterFits_succ, counterFits_one]
  constructor
  · rintro ⟨clockseq, p₁, first, p₂, last, p₃, hc, hf, hl⟩
    have hdraw₁ := trueRandom_drawable hdraw hc
    have hdraw₂ := trueRandom_drawable hdraw₁ hf
    have h₁ := (trueRandom_returns_iff hdraw₁).mp ⟨_, _, hf⟩
    have h₂ := (trueRandom_returns_iff hdraw₂).mp ⟨_, _, hl⟩
    rw [(hnext hc).1, (hnext hc).2] at h₁
    rw [(hnext hf).1, (hnext hf).2, (hnext hc).1, (hnext hc).2] at h₂
    exact ⟨(trueRandom_returns_iff hdraw).mp ⟨_, _, hc⟩, h₁, h₂⟩
  · rintro ⟨h, h₁, h₂⟩
    obtain ⟨clockseq, p₁, hc⟩ := (trueRandom_returns_iff hdraw).mpr h
    have hdraw₁ := trueRandom_drawable hdraw hc
    rw [← (hnext hc).1, ← (hnext hc).2] at h₁ h₂
    obtain ⟨first, p₂, hf⟩ := (trueRandom_returns_iff hdraw₁).mpr h₁
    have hdraw₂ := trueRandom_drawable hdraw₁ hf
    rw [← (hnext hf).1, ← (hnext hf).2] at h₂
    obtain ⟨last, p₃, hl⟩ := (trueRandom_returns_iff hdraw₂).mpr h₂
    exact ⟨clockseq, p₁, first, p₂, last, p₃, hc, hf, hl⟩

theorem rev4_created_iff (hversion : prior.version = quidRev4)
    (htime : getCurrentTime p = .ok (timestamp, q)) (hdraw : Drawable 3 q) :
    (∃ u p', quidCreate p (some prior) flag subc tag = .ok ((.ok, some u), p')) ↔
      CounterFits 3 p.rndSeedCount p.maxRndSeed ∧ CounterFits 1 p.memSeedCount p.maxMemSeed ∧
        (p.memSeedCount = 0 → (p.files 0).Usable) := by
  obtain ⟨hrnd, hmaxRnd, hmem, hmaxMem, hfiles, -⟩ := getCurrentTime_seeds htime
  rw [← hmem, ← hmaxMem, ← hfiles, ← hrnd, ← hmaxRnd, ← getMemorySeed_returns_iff]
  have hseeded : ∀ {node q'}, getMemorySeed q = .ok (node, q') →
      Drawable 3 q' ∧ q'.rndSeedCount = q.rndSeedCount ∧ q'.maxRndSeed = q.maxRndSeed := by
    intro node q' hs
    rw [getMemorySeed_frame hs]
    exact ⟨⟨hdraw.clock, hdraw.status⟩, rfl, rfl⟩
  constructor
  · rintro ⟨u, p', hcall⟩
    obtain ⟨_, _, node, q', clockseq, p₃, first, p₄, last, ht, hs, hc, hf, hl, -⟩ :=
      (quidCreate_rev4_eq_ok hversion).mp hcall
    rw [htime] at ht
    cases ht
    obtain ⟨hdraw', hsame, hlimit⟩ := hseeded hs
    rw [← hsame, ← hlimit]
    exact ⟨(three_draws_iff hdraw').mp ⟨_, _, _, _, _, _, hc, hf, hl⟩, node, q', hs⟩
  · rintro ⟨hfits, node, q', hs⟩
    obtain ⟨hdraw', hsame, hlimit⟩ := hseeded hs
    rw [← hsame, ← hlimit] at hfits
    obtain ⟨clockseq, p₃, first, p₄, last, p', hc, hf, hl⟩ := (three_draws_iff hdraw').mpr hfits
    exact ⟨_, p', (quidCreate_rev4_eq_ok hversion).mpr
      ⟨timestamp, q, node, q', clockseq, p₃, first, p₄, last, htime, hs, hc, hf, hl, rfl⟩⟩

theorem quidCreate_genuine_iff {before : Clock} {reading : UInt64} {later : List UInt64}
    (hclock : p.clock = before ++ .ok reading :: later.map .ok)
    (hstop : NextStop p before reading) (hreading : AdmittedReading reading)
    (hlater : 3 ≤ later.length) (hstatus : ∀ k, (p.draws k).timeOfDay.status = 0) :
    Genuine p prior flag subc tag ↔
      (reading.toNat + p.offset reading) % 2 ^ 32 ≠ 0 ∧ SeedsFit p prior.version := by
  obtain ⟨timestamp, q, htime, hq, hstamp⟩ := getCurrentTime_of_nextStop hclock hstop
    (lt_of_le_of_lt (Nat.le_add_right _ _) hreading.below)
  have hdraws := (getCurrentTime_seeds htime).2.2.2.2.2
  have hdraw : ∀ {draws : Nat}, draws ≤ 3 → Drawable draws q := fun hle =>
    ⟨⟨later, hq, hle.trans hlater⟩, fun k => by rw [hdraws]; exact hstatus k⟩
  have hlow : timestamp &&& 0xffffffff ≠ 0 ↔
      (reading.toNat + p.offset reading) % 2 ^ 32 ≠ 0 := by
    rw [← hstamp, ← timeLow_toNat, ne_eq, ne_eq, not_iff_not]
    exact UInt64.toNat_inj.symm
  rw [genuine_iff_created htime, ← hlow]
  refine and_congr_right fun hnonzero => ?_
  unfold SeedsFit
  split
  · next hversion => exact rev4_created_iff hversion htime (hdraw le_rfl)
  · next hversion => exact rev7_created_iff hversion htime (hdraw (by decide)) hnonzero

/-! ## Runs -/

def NextReading (p : Process) (reading : UInt64) : Prop :=
  ∃ before, ∃ later : List UInt64, p.clock = before ++ .ok reading :: later.map .ok ∧
    NextStop p before reading ∧ AdmittedReading reading ∧ 3 ≤ later.length

def Answered (p : Process) : Prop :=
  (∃ reading, NextReading p reading) ∧ ∀ k, (p.draws k).timeOfDay.status = 0

/-- The next call does not meet `time_low == 0`, and the seeds let it return. -/
def LowNonzero (request : CreateRequest) (p : Process) : Prop :=
  ∃ reading, NextReading p reading ∧ (reading.toNat + p.offset reading) % 2 ^ 32 ≠ 0 ∧
    SeedsFit p request.cuuid.version

def GenuineCall (request : CreateRequest) (p : Process) : Prop :=
  Genuine p request.cuuid request.flag request.subc request.tag

theorem genuineCall_iff {request : CreateRequest} (h : Answered p) :
    GenuineCall request p ↔ LowNonzero request p := by
  obtain ⟨⟨reading, hnext⟩, hstatus⟩ := h
  have hcall : ∀ reading, NextReading p reading → (GenuineCall request p ↔
      (reading.toNat + p.offset reading) % 2 ^ 32 ≠ 0 ∧ SeedsFit p request.cuuid.version) := by
    rintro reading ⟨before, later, hclock, hstop, hreading, hlater⟩
    exact quidCreate_genuine_iff hclock hstop hreading hlater hstatus
  constructor
  · intro hgenuine
    exact ⟨reading, hnext, (hcall reading hnext).mp hgenuine⟩
  · rintro ⟨reading', hnext', hlow⟩
    exact (hcall reading' hnext').mpr hlow

/--
In every run every call creates a genuine identifier exactly when at every call
reading plus counter is no multiple of `2 ^ 32` and the seeds let it return.
-/
theorem createRun_genuine_iff {requests : List CreateRequest}
    (hanswered : Throughout createStep (fun _ p => Answered p) requests p) :
    Throughout createStep GenuineCall requests p ↔
      Throughout createStep LowNonzero requests p :=
  throughout_congr (fun _ _ => genuineCall_iff) hanswered

theorem createRun_genuine_iff_still :
    Throughout createStep GenuineCall [⟨Cuuid.zero, 1, 2, none⟩]
        (.still (List.replicate 5 17000000000000000)) ↔
      Throughout createStep LowNonzero [⟨Cuuid.zero, 1, 2, none⟩]
        (.still (List.replicate 5 17000000000000000)) := by
  have hnext : NextReading (.still (List.replicate 5 17000000000000000)) 17000000000000000 :=
    ⟨[.ok 17000000000000000], List.replicate 3 17000000000000000, rfl,
      .inr ⟨rfl, _, [], rfl, ⟨.inl (by decide), by simp, by simp⟩⟩,
      ⟨by decide, by decide, by decide⟩, by decide⟩
  exact createRun_genuine_iff ⟨⟨⟨_, hnext⟩, fun _ => rfl⟩, fun _ _ _ => trivial⟩

/-! ## A timestamp whose low bits are zero -/

/-- 2328310 times `2 ^ 32`, in September 2001. -/
def zeroLowReading : UInt64 := 10000015304949760

theorem zeroLowReading_not_genuine :
    AdmittedReading zeroLowReading ∧
      NextStop (.still (List.replicate 5 zeroLowReading)) [.ok zeroLowReading] zeroLowReading ∧
      quidCreate (.still (List.replicate 5 zeroLowReading)) (some Cuuid.zero) 0 0 none =
        .error .assertion ∧
      ¬ Genuine (.still (List.replicate 5 zeroLowReading)) Cuuid.zero 0 0 none := by
  have hassert : quidCreate (.still (List.replicate 5 zeroLowReading)) (some Cuuid.zero) 0 0
      none = .error .assertion := rfl
  refine ⟨⟨by decide, by decide, by decide⟩,
    .inr ⟨rfl, _, [], rfl, ⟨.inl (by decide), by simp, by simp⟩⟩, hassert, ?_⟩
  rintro ⟨u, p', hcall, -⟩
  rw [hassert] at hcall
  cases hcall

end Quid
