import Quid.Foundation.Crowding
import Quid.Generator.Unique

/-!
# How often an identifier can repeat

On a clock whose readings may lie closer together than `UIDS_PER_TICK` the times
of a run can fall back and come again.  They fall back by less than
`UIDS_PER_TICK`, and a time comes once for each reading that can reach it.
-/

namespace Quid

open Quid.Foundation
open Quid.Foundation.CyclicCounter
open Quid.Foundation.TickCounter

structure SpacedReadings (gap : Nat) (readings : List UInt64) : Prop where
  spaced : readings.Pairwise fun a b => Spaced gap a.toNat b.toNat
  admitted : ∀ reading ∈ readings, 10000000000000000 < reading.toNat
  below : ∀ reading ∈ readings, reading.toNat + uidsPerTick.toNat < 2 ^ 60

theorem PosixReadings.spacedReadings {readings : List UInt64} (h : PosixReadings readings) :
    SpacedReadings 10 readings where
  spaced := by
    refine h.ordered.imp_of_mem fun ha hb hle => ?_
    have hfirst := congrArg UInt64.toNat (h.micros _ ha)
    have hsecond := congrArg UInt64.toNat (h.micros _ hb)
    have hle' := UInt64.le_iff_toNat_le.mp hle
    simp only [UInt64.toNat_mod, UInt64.reduceToNat] at hfirst hsecond
    unfold Spaced
    omega
  admitted := fun reading hmem => UInt64.lt_iff_toNat_lt.mp (h.admitted reading hmem)
  below := h.below

variable {gap : Nat} {p p' q : Process} {readings : List UInt64} {timestamp : UInt64}

theorem SpacedReadings.supplied (h : SpacedReadings gap readings) (ndebug : Bool)
    (draws : Nat → RandomDraw) (files : Nat → RandFile) :
    Supplied gap (.initial ndebug (readings.map .ok) draws files) :=
  initial_supplied h.spaced (fun reading hmem => Nat.zero_lt_of_lt (h.admitted reading hmem))
    h.below ndebug draws files

/-! ## One call -/

theorem initCurrentTime_inited (h : initCurrentTime p = .ok q) : q.inited = true := by
  rcases initCurrentTime_eq_ok.mp h with ⟨hp, rfl⟩ | ⟨-, first, clock, -, rfl⟩
  · exact hp
  · rfl

theorem getCurrentTime_follows (h : Supplied gap p)
    (hcall : getCurrentTime p = .ok (timestamp, p')) :
    Supplied gap p' ∧ p.tick.Follows gap p'.tick ∧ timestamp.toNat = p'.tick.stamp ∧
      timestamp.toNat < 2 ^ 60 := by
  obtain ⟨readings, hpaced, hbelow⟩ := h
  obtain ⟨q, skipped, reading, rest, hinit, hclock, hstops, rfl, rfl⟩ :=
    getCurrentTime_eq_ok.mp hcall
  obtain ⟨readings₁, hsuffix₁, hq, hlast, hsame⟩ := hpaced.init hinit
  obtain ⟨hmem, readings₂, hsuffix₂, hp'⟩ :=
    hq.take (initCurrentTime_inited hinit) hclock hstops.taken
  have hpositive := hq.positive reading hmem
  have hroom := hbelow reading (hsuffix₁.subset hmem)
  have hoffset := hp'.offset
  have hstamp := toNat_stamp (takeReading q reading rest).idsThisTick (hq.below reading hmem)
  have hlast' : (takeReading q reading rest).tick.last = reading.toNat := by
    simp [Process.tick]
  refine ⟨⟨readings₂, hp', fun r hr => hbelow r ((hsuffix₂.trans hsuffix₁).subset hr)⟩,
    ⟨by omega, ?_⟩, ?_, by omega⟩
  · by_cases hzero : p.timeLast = 0
    · exact .inl (by simp [Process.tick, hzero])
    · have hp := hsame hzero
      subst hp
      exact .inr (issue_before (hq.last hzero reading hmem)
        (takeReading_issue hstops.taken rest))
  · rw [hstamp, Tick.stamp, hlast']
    rfl

variable {request : CreateRequest} {requests : List CreateRequest}
  {answer : Cresult × Option Cuuid} {outputs : List (Cresult × Option Cuuid)}

theorem createStep_follows (h : Supplied gap p)
    (hcall : createStep request p = .ok (answer, p')) :
    Supplied gap p' ∧ p.tick.Follows gap p'.tick ∧ answerTime answer = p'.tick.stamp := by
  obtain ⟨timestamp, q, u, htime, rfl, hversion, hcarries⟩ := quidCreate_carries hcall
  obtain ⟨hq, hfollows, hstamp, hbelow⟩ := getCurrentTime_follows h htime
  -- the seed and the draws take readings from the clock and leave the tick
  obtain ⟨_, _, htime', hrest⟩ := quidCreate_rest
    (fun r => SuppliedAt gap q.mark r ∧ r.tick = q.tick)
    (fun r node r' hr hseed => ⟨getMemorySeed_suppliedAt hr.1 hseed, by
      rw [getMemorySeed_frame hseed]
      exact hr.2⟩)
    (fun r value r' hr hdraw => ⟨trueRandom_suppliedAt hr.1 hdraw, by
      rw [trueRandom_frame hdraw]
      exact hr.2⟩) hcall
  rw [htime] at htime'
  cases htime'
  obtain ⟨hp', htick⟩ := hrest ⟨⟨hq, rfl⟩, rfl⟩
  rw [htick, ← hstamp]
  exact ⟨hp'.1, hfollows, hcarries.answerTime hversion hbelow⟩

/-! ## Runs -/

structure CrowdedWithin (gap : Nat) (times : List Nat) : Prop where
  back : times.Pairwise fun a b => a + min gap (uidsPerTick.toNat + 1) ≤ b + uidsPerTick.toNat
  repeated : ∀ time, times.count time ≤ uidsPerTick.toNat / gap + 1

theorem run_crowded {ι ο : Type} {step : ι → Process → Except Stop (ο × Process)}
    (time : ο → Nat) (hgap : 0 < gap)
    (hstep : ∀ i p o p', Supplied gap p → step i p = .ok (o, p') →
      Supplied gap p' ∧ p.tick.Follows gap p'.tick ∧ time o = p'.tick.stamp)
    {inputs : List ι} {outputs : List ο} (h : Supplied gap p)
    (hrun : run step inputs p = .ok (outputs, p')) : CrowdedWithin gap (outputs.map time) := by
  obtain ⟨ticks, hpairs, htimes, hticks⟩ := run_trail (Supplied gap) Process.tick
    (Tick.Follows gap) (fun _ _ _ => Tick.Follows.trans) time Tick.stamp
    (fun i p o p' _ => hstep i p o p') (throughout_true inputs p) h hrun
  have hoffset : ∀ tick ∈ ticks, tick.offset ≤ uidsPerTick.toNat := by
    intro tick hmem
    obtain ⟨q, ⟨readings, hpaced, -⟩, rfl⟩ := (hticks tick hmem).2
    exact hpaced.offset
  have hbefore : ticks.Pairwise (Tick.Before gap) :=
    hpairs.imp_of_mem fun ha hb hfollows => hfollows.2.resolve_left (hticks _ ha).1.1
  rw [htimes]
  constructor
  · refine List.pairwise_map.mpr (hbefore.imp_of_mem fun ha hb hab => ?_)
    exact hab.stamp_le (hoffset _ ha)
  · exact count_stamp_le hgap hbefore hoffset

theorem countP_le_count_map {α : Type} {f : α → Nat} {P : α → Bool} {n : Nat} {l : List α}
    (h : ∀ a ∈ l, P a = true → f a = n) : l.countP P ≤ (l.map f).count n := by
  rw [List.count, List.countP_map]
  refine List.countP_mono_left fun a hmem hP => ?_
  simp [h a hmem hP]

theorem count_equal_le (u : Cuuid) (outputs : List (Cresult × Option Cuuid)) :
    outputs.countP (fun answer => quidCmp answer.2 (some u) = .ok) ≤
      (outputs.map answerTime).count u.wireTime := by
  apply countP_le_count_map
  rintro ⟨result, identifier⟩ - hequal
  cases identifier with
  | none => simp [quidCmp] at hequal
  | some v => exact (quidCmp_some_ok_iff.mp (of_decide_eq_true hequal)).wireTime

/--
In every run of `quid_create` on a clock whose readings are equal or `gap` apart
the times fall back by less than `UIDS_PER_TICK`, and no time comes more often
than `UIDS_PER_TICK / gap + 1` times.
-/
theorem createRun_crowded (hgap : 0 < gap) (hreadings : SpacedReadings gap readings)
    (ndebug : Bool) (draws : Nat → RandomDraw) (files : Nat → RandFile)
    (hrun : run createStep requests (.initial ndebug (readings.map .ok) draws files) =
      .ok (outputs, p')) : CrowdedWithin gap (outputs.map answerTime) :=
  run_crowded answerTime hgap (fun _ _ _ _ => createStep_follows)
    (hreadings.supplied ndebug draws files) hrun

theorem createRun_crowded_posix : SpacedReadings 10 crowdedReadings ∧
    ∃ outputs p', run createStep crowdedRequests (.still crowdedReadings) = .ok (outputs, p') ∧
      CrowdedWithin 10 (outputs.map answerTime) := by
  have hreadings := crowdedReadings_posix.spacedReadings
  have hreturns : (run createStep crowdedRequests (.still crowdedReadings)).isOk = true := by
    decide +kernel
  obtain ⟨⟨outputs, p'⟩, hrun⟩ := eq_ok_of_isOk hreturns
  exact ⟨hreadings, outputs, p', hrun,
    createRun_crowded (by decide) hreadings false _ _ hrun⟩

/-! ## A run that reaches the bound -/

/-- The readings at which calls are to stop, each again where a draw is to seed. -/
def script : Int → List UInt64 → List UInt64
  | _, [] => []
  | count, reading :: readings =>
      reading :: ((if count = 0 then [reading] else []) ++
        script (advance count rndSeedCycle) readings)

theorem script_pairwise {R : UInt64 → UInt64 → Prop} (hrefl : ∀ reading, R reading reading)
    (count : Int) (h : readings.Pairwise R) :
    (script count readings).Pairwise R ∧ ∀ r ∈ script count readings, r ∈ readings := by
  induction readings generalizing count with
  | nil => simp [script]
  | cons reading readings ih =>
      obtain ⟨hhead, htail⟩ := List.pairwise_cons.mp h
      obtain ⟨hpairs, hmem⟩ := ih (advance count rndSeedCycle) htail
      have hrest : ∀ r ∈ script (advance count rndSeedCycle) readings, R reading r :=
        fun r hr => hhead r (hmem r hr)
      unfold script
      split
      · constructor
        · simp only [List.singleton_append, List.pairwise_cons, List.mem_cons, forall_eq_or_imp]
          exact ⟨⟨hrefl reading, hrest⟩, hrest, hpairs⟩
        · simpa using fun r hr => .inr (hmem r hr)
      · constructor
        · exact List.pairwise_cons.mpr ⟨hrest, hpairs⟩
        · simpa using fun r hr => .inr (hmem r hr)

structure Scripted (readings : List UInt64) (p : Process) : Prop where
  inited : p.inited = true
  clock : p.clock = (script p.rndSeedCount readings).map .ok
  limit : p.maxRndSeed = rndSeedCycle
  within : Within p.rndSeedCount p.maxRndSeed
  draws : p.draws = fun _ => stillDraw

theorem trueRandom_scripted {reading : UInt64} {rest : Clock}
    (hclock : p.clock = (if p.rndSeedCount = 0 then [.ok reading] else []) ++ rest)
    (hlimit : p.maxRndSeed = rndSeedCycle) (hwithin : Within p.rndSeedCount p.maxRndSeed)
    (hdraws : p.draws = fun _ => stillDraw) :
    ∃ p', trueRandom p = .ok (0, p') ∧ p'.clock = rest := by
  have hcount : advanceCount p.rndSeedCount p.maxRndSeed = .ok _ :=
    advanceCount_within hwithin (by rw [hlimit]; decide)
  have htick : getTickCount p.ndebug (p.draws 0).timeOfDay = .ok 1700000000000 := by
    rw [hdraws]
    simp [getTickCount, stillDraw]
  have hvalue : 0 = toUInt16 ((p.draws 0).rand + 1700000000000) (p.draws 0).other := by
    rw [hdraws]
    simp [toUInt16, stillDraw]
  by_cases hzero : p.rndSeedCount = 0
  · rw [if_pos hzero] at hclock
    have hseed := seedRandom_eq_ok.mpr (.inr ⟨hzero, reading, rest, hclock, rfl⟩)
    exact ⟨_, trueRandom_eq_ok.mpr ⟨_, _, _, hseed, hcount, htick, hvalue, rfl⟩, rfl⟩
  · rw [if_neg hzero] at hclock
    have hseed := seedRandom_eq_ok.mpr (.inl ⟨hzero, rfl⟩)
    exact ⟨_, trueRandom_eq_ok.mpr ⟨_, _, _, hseed, hcount, htick, hvalue, rfl⟩, hclock⟩

def plainAnswer (timestamp : UInt64) : Cresult × Option Cuuid :=
  (.ok, some (rev7Identifier timestamp 0 0 0 none))

theorem createStep_scripted {reading : UInt64} {issued : Nat} {tick' : Tick}
    (h : Scripted (reading :: readings) p) (hbelow : reading.toNat < 2 ^ 60)
    (hissue : issue uidsPerTick.toNat reading.toNat p.tick = .ok (issued, tick'))
    (hlow : issued % 2 ^ 32 ≠ 0) :
    ∃ timestamp p', createStep plainRequest p = .ok (plainAnswer timestamp, p') ∧
      timestamp.toNat = issued ∧ p'.tick = tick' ∧ Scripted readings p' := by
  have hinit : initCurrentTime p = .ok p := initCurrentTime_eq_ok.mpr (.inl ⟨h.inited, rfl⟩)
  have hclock : p.clock = .ok reading :: ((if p.rndSeedCount = 0 then [.ok reading] else []) ++
      (script (advance p.rndSeedCount rndSeedCycle) readings).map .ok) := by
    rw [h.clock, script]
    split <;> simp
  obtain ⟨timestamp, q, htime, hstamp, htick, hrest, hinited⟩ :=
    getCurrentTime_of_issue hinit hclock hbelow hissue
  have hframe := getCurrentTime_frame htime
  have hcount : q.rndSeedCount = p.rndSeedCount := by rw [hframe]
  have hlimit : q.maxRndSeed = p.maxRndSeed := by rw [hframe]
  have hdraws : q.draws = p.draws := by rw [hframe]
  rw [← hcount] at hrest
  obtain ⟨p', hdraw, hclock'⟩ := trueRandom_scripted hrest (hlimit.trans h.limit)
    (by rw [hcount, hlimit]; exact h.within) (hdraws.trans h.draws)
  have hkey : timestamp &&& 0xffffffff ≠ 0 := by
    intro hzero
    have hmod := timeLow_toNat timestamp
    rw [hzero, hstamp] at hmod
    exact hlow hmod.symm
  have hframe' := trueRandom_frame hdraw
  refine ⟨timestamp, p', (quidCreate_rev7_eq_ok (by decide)).mpr
    ⟨timestamp, q, 0, htime, hdraw, .inr hkey, rfl⟩, hstamp, ?_, ?_⟩
  · rw [hframe', ← htick]
    rfl
  · have hcount' : p'.rndSeedCount = advance p.rndSeedCount p.maxRndSeed := by
      rw [hframe', hcount, hlimit]
    have hlimit' : p'.maxRndSeed = p.maxRndSeed := by rw [hframe', hlimit]
    exact
      { inited := by rw [hframe', hinited, h.inited]
        clock := by rw [hclock', hcount', h.limit, hcount]
        limit := hlimit'.trans h.limit
        within := by rw [hcount', hlimit']; exact h.within.advance
        draws := by rw [hframe', hdraws, h.draws] }

theorem createRun_scripted {issued : List Nat} {tick' : Tick} (h : Scripted readings p)
    (hbelow : ∀ reading ∈ readings, reading.toNat < 2 ^ 60)
    (hissue : run (issue uidsPerTick.toNat) (readings.map UInt64.toNat) p.tick =
      .ok (issued, tick'))
    (hlow : ∀ time ∈ issued, time % 2 ^ 32 ≠ 0) :
    ∃ (stamps : List UInt64) (p' : Process),
      run createStep (List.replicate readings.length plainRequest) p =
        .ok (stamps.map plainAnswer, p') ∧ stamps.map UInt64.toNat = issued := by
  induction readings generalizing p issued with
  | nil =>
      cases hissue
      exact ⟨[], p, rfl, rfl⟩
  | cons reading readings ih =>
      obtain ⟨first, tick₁, rest, hfirst, hrest, rfl⟩ := run_cons_eq_ok.mp hissue
      obtain ⟨stamp, p₁, hcall, hstamp, rfl, h₁⟩ :=
        createStep_scripted h (hbelow reading (by simp)) hfirst (hlow first (by simp))
      obtain ⟨stamps, p', hrun, hstamps⟩ := ih h₁ (fun r hr => hbelow r (by simp [hr])) hrest
        (fun time hmem => hlow time (by simp [hmem]))
      exact ⟨stamp :: stamps, p', run_cons_eq_ok.mpr ⟨_, p₁, _, hcall, hrun, rfl⟩,
        by simp [hstamp, hstamps]⟩

theorem createStep_of_init (hinit : initCurrentTime p = .ok q) (hdebug : q.ndebug = p.ndebug)
    (hcall : createStep plainRequest q = .ok (answer, p')) :
    createStep plainRequest p = .ok (answer, p') := by
  have hagain : initCurrentTime q = .ok q :=
    initCurrentTime_eq_ok.mpr (.inl ⟨initCurrentTime_inited hinit, rfl⟩)
  have hsame : getCurrentTime p = getCurrentTime q := by
    simp only [getCurrentTime, hinit, hagain, ok_bind]
  obtain ⟨timestamp, p₁, clockseq, htime, hdraw, hkey, rfl⟩ :=
    (quidCreate_rev7_eq_ok (by decide)).mp hcall
  rw [← hsame] at htime
  rw [hdebug] at hkey
  exact (quidCreate_rev7_eq_ok (by decide)).mpr
    ⟨timestamp, p₁, clockseq, htime, hdraw, hkey, rfl⟩

theorem createRun_of_init (hinit : initCurrentTime p = .ok q) (hdebug : q.ndebug = p.ndebug)
    {calls : Nat} (hcalls : calls ≠ 0)
    (hrun : run createStep (List.replicate calls plainRequest) q = .ok (outputs, p')) :
    run createStep (List.replicate calls plainRequest) p = .ok (outputs, p') := by
  obtain ⟨later, rfl⟩ := Nat.exists_eq_succ_of_ne_zero hcalls
  obtain ⟨answer, p₁, rest, hcall, hrest, rfl⟩ := run_cons_eq_ok.mp hrun
  exact run_cons_eq_ok.mpr ⟨answer, p₁, rest, createStep_of_init hinit hdebug hcall, hrest, rfl⟩

/-- A time in November 2023, far from the next multiple of `2 ^ 32`. -/
def ladderStart : Nat := 17000000000000000

def ladderStops (gap : Nat) : List UInt64 :=
  (ladder gap ladderStart (uidsPerTick.toNat / gap)).map UInt64.ofNat

theorem ladderStops_toNat (gap : Nat) :
    (ladderStops gap).map UInt64.toNat =
      ladder gap ladderStart (uidsPerTick.toNat / gap) := by
  have hreach := Nat.div_mul_le_self uidsPerTick.toNat gap
  rw [ladderStops, List.map_map]
  refine (List.map_congr_left fun reading hmem => ?_).trans (List.map_id _)
  have hbound := ((ladder_spaced _ _ _).2 reading hmem).2
  rw [uidsPerTick_toNat] at *
  unfold ladderStart at hbound
  have hlt : reading < 2 ^ 64 := by omega
  exact UInt64.toNat_ofNat_of_lt' hlt

theorem ladderStops_bounds {reading : UInt64} (hmem : reading ∈ ladderStops gap) :
    Spaced gap ladderStart reading.toNat ∧
      reading.toNat ≤ ladderStart + uidsPerTick.toNat := by
  have hreach := Nat.div_mul_le_self uidsPerTick.toNat gap
  have hladder : reading.toNat ∈ ladder gap ladderStart (uidsPerTick.toNat / gap) := by
    rw [← ladderStops_toNat]
    exact List.mem_map_of_mem hmem
  obtain ⟨hspaced, hbound⟩ := (ladder_spaced _ _ _).2 _ hladder
  exact ⟨hspaced, hbound.trans (by omega)⟩

def ladderReadings (gap : Nat) : List UInt64 :=
  UInt64.ofNat ladderStart :: script 0 (ladderStops gap)

theorem ladderReadings_spaced (gap : Nat) : SpacedReadings gap (ladderReadings gap) := by
  have hstart : (UInt64.ofNat ladderStart).toNat = ladderStart := rfl
  have hpairs : (ladderStops gap).Pairwise fun a b => Spaced gap a.toNat b.toNat := by
    rw [← List.pairwise_map, ladderStops_toNat]
    exact (ladder_spaced _ _ _).1
  obtain ⟨hscript, hmem⟩ := script_pairwise (fun _ => .inl rfl) 0 hpairs
  have hbounds : ∀ reading ∈ ladderReadings gap, Spaced gap ladderStart reading.toNat ∧
      reading.toNat ≤ ladderStart + uidsPerTick.toNat := by
    intro reading h
    rcases List.mem_cons.mp h with rfl | h
    · rw [hstart]
      exact ⟨.inl rfl, Nat.le_add_right _ _⟩
    · exact ladderStops_bounds (hmem reading h)
  constructor
  · exact List.pairwise_cons.mpr ⟨fun r hr => by
      rw [hstart]
      exact (ladderStops_bounds (hmem r hr)).1, hscript⟩
  · intro reading h
    exact lt_of_lt_of_le (by decide) (hbounds reading h).1.le
  · intro reading h
    have hbound := (hbounds reading h).2
    rw [uidsPerTick_toNat] at *
    unfold ladderStart at hbound
    omega

theorem count_le_countP_equal (stamps : List UInt64) (stamp : UInt64) :
    stamps.count stamp ≤ (stamps.map plainAnswer).countP fun answer =>
      quidCmp answer.2 (some (rev7Identifier stamp 0 0 0 none)) = .ok := by
  rw [List.count, List.countP_map]
  refine List.countP_mono_left fun other _ hequal => ?_
  obtain rfl : other = stamp := by simpa using hequal
  exact decide_eq_true (quidCmp_some_ok_iff.mpr ⟨rfl, rfl, rfl, rfl, rfl, rfl⟩)

def ladderProcess (gap : Nat) (ndebug : Bool) (files : Nat → RandFile) : Process :=
  .initial ndebug ((ladderReadings gap).map .ok) (fun _ => stillDraw) files

def ladderOpened (gap : Nat) (ndebug : Bool) (files : Nat → RandFile) : Process :=
  { ladderProcess gap ndebug files with
    clock := (script 0 (ladderStops gap)).map .ok
    idsThisTick := uidsPerTick
    inited := true }

theorem ladderOpened_scripted (gap : Nat) (ndebug : Bool) (files : Nat → RandFile) :
    Scripted (ladderStops gap) (ladderOpened gap ndebug files) where
  inited := rfl
  clock := rfl
  limit := rfl
  within := (by decide : Within 0 rndSeedCycle)
  draws := rfl

theorem ladderOpened_repeats (hgap : 0 < gap) (ndebug : Bool) (files : Nat → RandFile) :
    ∃ (stamps : List UInt64) (p' : Process),
      run createStep (List.replicate (ladderStops gap).length plainRequest)
          (ladderOpened gap ndebug files) = .ok (stamps.map plainAnswer, p') ∧
        uidsPerTick.toNat / gap + 1 ≤
          (stamps.map UInt64.toNat).count (ladderStart + uidsPerTick.toNat / gap * gap) := by
  have hfresh : (ladderOpened gap ndebug files).tick.last ≠ ladderStart := by
    have hnever : (0 : Nat) ≠ ladderStart := by decide
    exact hnever
  obtain ⟨issued, tick', hissue, hcount⟩ :=
    run_issue_ladder hgap (Nat.div_mul_le_self uidsPerTick.toNat gap) hfresh
  rw [← ladderStops_toNat] at hissue
  -- no reading comes near a multiple of `2 ^ 32`
  have hlow : ∀ time ∈ issued, time % 2 ^ 32 ≠ 0 := by
    intro time hmem
    obtain ⟨reading, hreading, tick, _, hstep⟩ := run_output_mem hissue hmem
    obtain ⟨stop, hstop, rfl⟩ := List.mem_map.mp hreading
    have hstamp := issue_stamp_bounds hstep
    have hlowest := (ladderStops_bounds hstop).1.le
    have hhighest := (ladderStops_bounds hstop).2
    rw [uidsPerTick_toNat] at hstamp hhighest
    unfold ladderStart at hlowest hhighest
    omega
  have hbelow : ∀ reading ∈ ladderStops gap, reading.toNat < 2 ^ 60 := by
    intro reading hmem
    have hbound := (ladderStops_bounds hmem).2
    rw [uidsPerTick_toNat] at hbound
    unfold ladderStart at hbound
    omega
  obtain ⟨stamps, p', hrun, hstamps⟩ :=
    createRun_scripted (ladderOpened_scripted gap ndebug files) hbelow hissue hlow
  exact ⟨stamps, p', hrun, by rw [hstamps]; exact hcount⟩

theorem ladderProcess_repeats (hgap : 0 < gap) (ndebug : Bool) (files : Nat → RandFile) :
    ∃ requests outputs p' u,
      run createStep requests (ladderProcess gap ndebug files) = .ok (outputs, p') ∧
        uidsPerTick.toNat / gap + 1 ≤
          outputs.countP fun answer => quidCmp answer.2 (some u) = .ok := by
  have hinit : initCurrentTime (ladderProcess gap ndebug files) =
      .ok (ladderOpened gap ndebug files) :=
    initCurrentTime_eq_ok.mpr (.inr ⟨rfl, UInt64.ofNat ladderStart, _, rfl, rfl⟩)
  have hcalls : (ladderStops gap).length ≠ 0 := by
    rw [ladderStops, List.length_map, ne_eq, List.length_eq_zero_iff]
    exact ladder_ne_nil _ _ _
  obtain ⟨stamps, p', hrun, hcount⟩ := ladderOpened_repeats hgap ndebug files
  let top := ladderStart + uidsPerTick.toNat / gap * gap
  have htop : (UInt64.ofNat top).toNat = top := by
    have hreach := Nat.div_mul_le_self uidsPerTick.toNat gap
    have hlt : top < 2 ^ 64 := by
      rw [uidsPerTick_toNat] at hreach
      simp only [top, ladderStart, uidsPerTick_toNat]
      omega
    exact UInt64.toNat_ofNat_of_lt' hlt
  refine ⟨_, _, p', rev7Identifier (UInt64.ofNat top) 0 0 0 none,
    createRun_of_init hinit rfl hcalls hrun, le_trans ?_ (count_le_countP_equal stamps _)⟩
  have hinjective : Function.Injective UInt64.toNat := fun _ _ => UInt64.toNat_inj.mp
  rw [← List.count_map_of_injective stamps UInt64.toNat hinjective, htop]
  exact hcount

/--
On clocks whose readings are equal or `gap` apart, the most often one identifier
comes in a run of `quid_create` is exactly `UIDS_PER_TICK / gap + 1` times.
-/
theorem createRun_repeats_iff (hgap : 0 < gap) (bound : Nat) (ndebug : Bool)
    (files : Nat → RandFile) :
    (∀ readings draws requests outputs p', SpacedReadings gap readings →
      run createStep requests (.initial ndebug (readings.map .ok) draws files) =
        .ok (outputs, p') →
      ∀ u, (outputs.countP fun answer => quidCmp answer.2 (some u) = .ok) ≤ bound) ↔
      uidsPerTick.toNat / gap + 1 ≤ bound := by
  constructor
  · intro h
    obtain ⟨requests, outputs, p', u, hrun, hcount⟩ := ladderProcess_repeats hgap ndebug files
    exact hcount.trans (h _ _ _ _ _ (ladderReadings_spaced gap) hrun u)
  · intro hbound readings draws requests outputs p' hreadings hrun u
    have hcrowded := run_crowded answerTime hgap (fun _ _ _ _ => createStep_follows)
      (hreadings.supplied ndebug draws files) hrun
    calc
      outputs.countP (fun answer => quidCmp answer.2 (some u) = .ok)
          ≤ (outputs.map answerTime).count u.wireTime := count_equal_le u outputs
      _ ≤ uidsPerTick.toNat / gap + 1 := hcrowded.repeated u.wireTime
      _ ≤ bound := hbound

theorem createRun_repeats_iff_posix :
    (∀ readings draws requests outputs p', SpacedReadings 10 readings →
      run createStep requests (.initial false (readings.map .ok) draws fun _ => stillFile) =
        .ok (outputs, p') →
      ∀ u, (outputs.countP fun answer => quidCmp answer.2 (some u) = .ok) ≤ 103) ↔
      uidsPerTick.toNat / 10 + 1 ≤ 103 :=
  createRun_repeats_iff (by decide) 103 false _

end Quid
