import Quid.Process
import Quid.Foundation.TickCounter

/-!
# The timestamp source as a tick counter

`get_current_time` numbers the timestamps of one clock reading in
`ids_this_tick`.  Each call that returns issues one stamp of a tick counter of
capacity `UIDS_PER_TICK` on the reading its loop stops at, after reading on past
any readings that counter refuses.
-/

namespace Quid

open Quid.Foundation
open Quid.Foundation.TickCounter

@[simp] theorem uidsPerTick_toNat : uidsPerTick.toNat = 1024 := rfl

def Process.tick (p : Process) : Tick := ⟨p.timeLast.toNat, p.idsThisTick.toNat⟩

def Taken (p : Process) (reading : UInt64) : Prop :=
  p.timeLast ≠ reading ∨ p.idsThisTick < uidsPerTick

def takeReading (p : Process) (reading : UInt64) (clock : Clock) : Process :=
  if p.timeLast ≠ reading then { p with timeLast := reading, idsThisTick := 0, clock }
  else { p with idsThisTick := p.idsThisTick + 1, clock }

structure StopsAt (p : Process) (skipped : Clock) (reading : UInt64) : Prop where
  taken : Taken p reading
  skipped_last : ∀ outcome ∈ skipped, outcome = .ok p.timeLast
  skipped_full : skipped ≠ [] → ¬ p.idsThisTick < uidsPerTick

theorem currentTimeLoop_taken {p : Process} {reading : UInt64} (h : Taken p reading)
    (clock : Clock) :
    currentTimeLoop p (.ok reading :: clock) =
      .ok (reading, takeReading p reading clock) := by
  by_cases hfresh : p.timeLast = reading
  · have hroom := h.resolve_left (not_not.mpr hfresh)
    simp [currentTimeLoop, takeReading, hfresh, hroom]
  · simp [currentTimeLoop, takeReading, hfresh]

theorem currentTimeLoop_refused {p : Process} {reading : UInt64} (h : ¬ Taken p reading)
    (clock : Clock) :
    currentTimeLoop p (.ok reading :: clock) = currentTimeLoop p clock := by
  obtain ⟨hlast, hfull⟩ := not_or.mp h
  simp [currentTimeLoop, hlast, hfull]

theorem StopsAt.head_eq {p : Process} {first : Except Stop UInt64} {skipped : Clock}
    {reading : UInt64} (h : StopsAt p (first :: skipped) reading) :
    first = .ok p.timeLast ∧ ¬ Taken p p.timeLast :=
  ⟨h.skipped_last first (by simp), by simp [Taken, h.skipped_full]⟩

theorem currentTimeLoop_eq_ok {p p' : Process} {clock : Clock} {reading : UInt64} :
    currentTimeLoop p clock = .ok (reading, p') ↔
      ∃ skipped rest, clock = skipped ++ .ok reading :: rest ∧
        StopsAt p skipped reading ∧ p' = takeReading p reading rest := by
  induction clock with
  | nil => simp [currentTimeLoop]
  | cons outcome clock ih =>
      constructor
      · intro h
        cases outcome with
        | error stop => cases h
        | ok timeNow =>
            by_cases htaken : Taken p timeNow
            · rw [currentTimeLoop_taken htaken] at h
              cases h
              exact ⟨[], clock, rfl, ⟨htaken, by simp, by simp⟩, rfl⟩
            -- a refused reading is `time_last` again and finds the tick full
            · rw [currentTimeLoop_refused htaken] at h
              obtain ⟨skipped, rest, rfl, hstops, rfl⟩ := ih.mp h
              obtain ⟨hlast, hfull⟩ := not_or.mp htaken
              refine ⟨.ok timeNow :: skipped, rest, rfl,
                ⟨hstops.taken, ?_, fun _ => hfull⟩, rfl⟩
              rintro outcome (_ | ⟨_, hmem⟩)
              · rw [not_not.mp hlast]
              · exact hstops.skipped_last outcome hmem
      · rintro ⟨skipped, rest, hclock, hstops, rfl⟩
        cases skipped with
        | nil =>
            cases hclock
            exact currentTimeLoop_taken hstops.taken clock
        | cons first skipped =>
            obtain ⟨rfl, rfl⟩ := List.cons.inj hclock
            obtain ⟨rfl, hrefused⟩ := hstops.head_eq
            rw [currentTimeLoop_refused hrefused]
            exact ih.mpr ⟨skipped, rest, rfl, ⟨hstops.taken,
              fun outcome hmem => hstops.skipped_last outcome (by simp [hmem]),
              fun _ => hstops.skipped_full (by simp)⟩, rfl⟩

theorem getCurrentTime_eq_ok {p p' : Process} {stamp : UInt64} :
    getCurrentTime p = .ok (stamp, p') ↔
      ∃ q skipped reading rest, initCurrentTime p = .ok q ∧
        q.clock = skipped ++ .ok reading :: rest ∧ StopsAt q skipped reading ∧
        p' = takeReading q reading rest ∧
        stamp = reading + p'.idsThisTick.toUInt64 := by
  simp only [getCurrentTime, bind_eq_ok, pure_eq_ok, Prod.mk.injEq]
  constructor
  · rintro ⟨q, hq, ⟨reading, q'⟩, hloop, rfl, rfl⟩
    obtain ⟨skipped, rest, hclock, hstops, rfl⟩ := currentTimeLoop_eq_ok.mp hloop
    exact ⟨q, skipped, reading, rest, hq, hclock, hstops, rfl, rfl⟩
  · rintro ⟨q, skipped, reading, rest, hq, hclock, hstops, rfl, rfl⟩
    exact ⟨q, hq, (reading, _), currentTimeLoop_eq_ok.mpr
      ⟨skipped, rest, hclock, hstops, rfl⟩, rfl, rfl⟩

/-! ## Refinement of the tick counter -/

@[simp] theorem takeReading_timeLast (p : Process) (reading : UInt64) (clock : Clock) :
    (takeReading p reading clock).timeLast = reading := by
  unfold takeReading
  split
  · rfl
  · next h => exact not_not.mp h

@[simp] theorem takeReading_inited (p : Process) (reading : UInt64) (clock : Clock) :
    (takeReading p reading clock).inited = p.inited := by
  unfold takeReading
  split <;> rfl

@[simp] theorem takeReading_clock (p : Process) (reading : UInt64) (clock : Clock) :
    (takeReading p reading clock).clock = clock := by
  unfold takeReading
  split <;> rfl

theorem idsThisTick_succ {ids : UInt16} (h : ids < uidsPerTick) :
    (ids + 1).toNat = ids.toNat + 1 := by
  have hlt : ids.toNat < 1024 := by simpa [UInt16.lt_iff_toNat_lt] using h
  rw [UInt16.toNat_add]
  simp
  omega

theorem takeReading_issue {p : Process} {reading : UInt64} (h : Taken p reading)
    (clock : Clock) :
    issue uidsPerTick.toNat reading.toNat p.tick =
      .ok ((takeReading p reading clock).tick.stamp, (takeReading p reading clock).tick) := by
  by_cases hfresh : p.timeLast = reading
  · subst hfresh
    have hroom := h.resolve_left (by simp)
    have hlt : p.tick.offset < uidsPerTick.toNat := UInt16.lt_iff_toNat_lt.mp hroom
    have hagain : issue uidsPerTick.toNat p.timeLast.toNat p.tick = _ := issue_again hlt
    rw [hagain]
    simp [takeReading, Process.tick, Tick.stamp, idsThisTick_succ hroom]
  · have hne : p.tick.last ≠ reading.toNat := fun heq => hfresh (UInt64.toNat_inj.mp heq)
    rw [issue_fresh hne]
    simp [takeReading, hfresh, Process.tick, Tick.stamp]

theorem nextSystemTime_eq_ok {p p' : Process} {reading : UInt64} :
    nextSystemTime p = .ok (reading, p') ↔
      ∃ clock, p.clock = .ok reading :: clock ∧ p' = { p with clock } := by
  unfold nextSystemTime
  cases hclock : p.clock with
  | nil => simp
  | cons outcome clock =>
      cases outcome with
      | error stop => simp
      | ok timeNow => simp [eq_comm]

theorem initCurrentTime_eq_ok {p q : Process} :
    initCurrentTime p = .ok q ↔
      (p.inited = true ∧ q = p) ∨
        (p.inited = false ∧ ∃ first clock, p.clock = .ok first :: clock ∧
          q = { p with clock, idsThisTick := uidsPerTick, inited := true }) := by
  cases hinited : p.inited with
  | true => simp [initCurrentTime, hinited, eq_comm]
  | false =>
      simp only [initCurrentTime, hinited, Bool.false_eq_true, if_false, bind_eq_ok, pure_eq_ok,
        Prod.exists, nextSystemTime_eq_ok, false_and, false_or, true_and]
      constructor
      · rintro ⟨first, _, ⟨clock, hclock, rfl⟩, rfl⟩
        exact ⟨first, clock, hclock, rfl⟩
      · rintro ⟨first, clock, hclock, rfl⟩
        exact ⟨first, _, ⟨clock, hclock, rfl⟩, rfl⟩

theorem toNat_stamp {reading : UInt64} (ids : UInt16) (hreading : reading.toNat < 2 ^ 60) :
    (reading + ids.toUInt64).toNat = reading.toNat + ids.toNat := by
  have hids := ids.toNat_lt
  rw [UInt64.toNat_add, UInt16.toNat_toUInt64]
  omega

/-! ## Paced clocks -/

structure Paced (gap : Nat) (p : Process) (readings : List UInt64) : Prop where
  clock : p.clock = readings.map Except.ok
  positive : ∀ reading ∈ readings, 0 < reading.toNat
  below : ∀ reading ∈ readings, reading.toNat < 2 ^ 60
  spaced : readings.Pairwise fun a b => Spaced gap a.toNat b.toNat
  last : p.timeLast ≠ 0 → ∀ reading ∈ readings, Spaced gap p.timeLast.toNat reading.toNat
  offset : p.idsThisTick.toNat ≤ uidsPerTick.toNat
  started : p.inited = false → p.timeLast = 0

variable {gap : Nat} {p p' q : Process} {readings : List UInt64} {stamp : UInt64}

theorem Paced.of_suffix {readings' : List UInt64} (h : Paced gap p readings)
    (hsuffix : readings' <:+ readings) (hclock : p'.clock = readings'.map .ok)
    (hlast : p'.timeLast = p.timeLast) (hids : p'.idsThisTick = p.idsThisTick)
    (hinited : p'.inited = p.inited) : Paced gap p' readings' where
  clock := hclock
  positive := fun r hr => h.positive r (hsuffix.subset hr)
  below := fun r hr => h.below r (hsuffix.subset hr)
  spaced := h.spaced.sublist hsuffix.sublist
  last := by simpa only [hlast] using fun hne r hr => h.last hne r (hsuffix.subset hr)
  offset := by simpa only [hids] using h.offset
  started := by simpa only [hlast, hinited] using h.started

theorem Paced.init (h : Paced gap p readings) (hinit : initCurrentTime p = .ok q) :
    ∃ readings', readings' <:+ readings ∧ Paced gap q readings' ∧
      q.timeLast = p.timeLast ∧ (p.timeLast ≠ 0 → q = p) := by
  rcases initCurrentTime_eq_ok.mp hinit with ⟨-, rfl⟩ | ⟨hnot, first, clock, hclock, rfl⟩
  · exact ⟨readings, List.suffix_rfl, h, rfl, fun _ => rfl⟩
  · cases readings with
    | nil => simp [h.clock] at hclock
    | cons reading readings =>
        rw [h.clock, List.map_cons, List.cons.injEq] at hclock
        obtain ⟨-, rfl⟩ := hclock
        have hrest : Paced gap { p with clock := readings.map .ok } readings :=
          h.of_suffix (List.suffix_cons _ _) rfl rfl rfl rfl
        exact ⟨readings, List.suffix_cons _ _,
          { hrest with offset := le_rfl, started := by simp }, rfl,
          fun hlast => absurd (h.started hnot) hlast⟩

theorem Paced.take {skipped rest : Clock} {reading : UInt64} (h : Paced gap p readings)
    (hinited : p.inited = true) (hclock : p.clock = skipped ++ .ok reading :: rest)
    (htaken : Taken p reading) :
    reading ∈ readings ∧ ∃ readings', readings' <:+ readings ∧
      Paced gap (takeReading p reading rest) readings' := by
  have hsplit : readings.map Except.ok = skipped ++ Except.ok reading :: rest :=
    h.clock.symm.trans hclock
  obtain ⟨before, after, rfl, -, hafter⟩ := List.map_eq_append_iff.mp hsplit
  obtain ⟨reading', readings', rfl, hreading, rfl⟩ := List.map_eq_cons_iff.mp hafter
  cases hreading
  have hspaced := (List.pairwise_append.mp h.spaced).2.1
  have hoffset := issue_offset_le (takeReading_issue htaken (readings'.map Except.ok))
  exact ⟨by simp, readings', ⟨before ++ [reading], by simp⟩,
    { clock := by simp
      positive := fun r hr => h.positive r (by simp [hr])
      below := fun r hr => h.below r (by simp [hr])
      spaced := (List.pairwise_cons.mp hspaced).2
      last := by simpa using fun _ => (List.pairwise_cons.mp hspaced).1
      offset := hoffset
      started := by simp [hinited] }⟩

/-- The reading at which the next call's loop stops opens a tick past the last stamp. -/
def TickClear (p : Process) : Prop :=
  p.inited = true → ∀ skipped reading rest, p.clock = skipped ++ .ok reading :: rest →
    StopsAt p skipped reading → Clear reading.toNat p.tick

theorem tickClear_of_gap (h : Paced gap p readings) (hlast : p.timeLast ≠ 0)
    (hgap : uidsPerTick.toNat < gap) : TickClear p := by
  intro hinited skipped reading rest hclock hstops
  obtain ⟨hmem, -⟩ := h.take hinited hclock hstops.taken
  exact clear_of_spaced hgap h.offset (h.last hlast reading hmem)

/-- The last timestamp, and 0 before the first one. -/
def Process.mark (p : Process) : Nat := if p.timeLast = 0 then 0 else p.tick.stamp

theorem Paced.getCurrentTime_step (h : Paced gap p readings)
    (hclear : p.timeLast ≠ 0 → TickClear p)
    (hcall : getCurrentTime p = .ok (stamp, p')) :
    (∃ readings', readings' <:+ readings ∧ Paced gap p' readings') ∧
      (∃ reading ∈ readings, stamp.toNat ≤ reading.toNat + uidsPerTick.toNat) ∧
      p.mark < stamp.toNat ∧ stamp.toNat = p'.mark := by
  obtain ⟨q, skipped, reading, rest, hinit, hclock, hstops, rfl, rfl⟩ :=
    getCurrentTime_eq_ok.mp hcall
  have hinited : q.inited = true := by
    rcases initCurrentTime_eq_ok.mp hinit with ⟨hp, rfl⟩ | ⟨-, first, clock, -, rfl⟩
    · exact hp
    · rfl
  obtain ⟨readings₁, hsuffix₁, hq, hlast, hsame⟩ := h.init hinit
  obtain ⟨hmem, readings₂, hsuffix₂, hp'⟩ := hq.take hinited hclock hstops.taken
  have hpos := hq.positive reading hmem
  have hstamp := toNat_stamp (takeReading q reading rest).idsThisTick
    (hq.below reading hmem)
  have hmark : (takeReading q reading rest).mark = (takeReading q reading rest).tick.stamp := by
    have hne : reading ≠ 0 := by
      rintro rfl
      simp at hpos
    simp [Process.mark, hne]
  have htick : (takeReading q reading rest).tick.stamp =
      (reading + (takeReading q reading rest).idsThisTick.toUInt64).toNat := by
    rw [hstamp]
    simp [Tick.stamp, Process.tick]
  have hoffset := hp'.offset
  refine ⟨⟨readings₂, hsuffix₂.trans hsuffix₁, hp'⟩,
    ⟨reading, hsuffix₁.subset hmem, by omega⟩, ?_, by rw [hmark, htick]⟩
  -- `time_last` is 0 only before the first call, when every stamp is past the mark
  by_cases hzero : p.timeLast = 0
  · simp only [Process.mark, hzero, if_true]
    omega
  · obtain rfl := hsame hzero
    have hissue := takeReading_issue hstops.taken rest
    have hlt := stamp_lt_of_issue
      (hclear hzero hinited skipped reading rest hclock hstops) hissue
    simp only [Process.mark, hzero, if_false]
    omega

/-! ## Increasing timestamps -/

def currentTimes (calls : Nat) (p : Process) : Except Stop (List UInt64 × Process) :=
  run (fun _ : Unit => getCurrentTime) (List.replicate calls ()) p

structure SpacedStream (gap : Nat) (stream : Nat → UInt64) : Prop where
  monotone : ∀ k, (stream k).toNat ≤ (stream (k + 1)).toNat
  positive : ∀ k, 0 < (stream k).toNat
  below : ∀ k, (stream k).toNat < 2 ^ 60
  jump : ∀ k, stream k ≠ stream (k + 1) →
    (stream k).toNat + gap ≤ (stream (k + 1)).toNat

def streamProcess (stream : Nat → UInt64) (count : Nat) (ndebug : Bool)
    (draws : Nat → RandomDraw) (files : Nat → RandFile) : Process :=
  Process.initial ndebug (((List.range count).map stream).map .ok) draws files

theorem SpacedStream.spaced {stream : Nat → UInt64} (h : SpacedStream gap stream)
    {i j : Nat} (hij : i < j) : Spaced gap (stream i).toNat (stream j).toNat := by
  have hnext : ∀ k, Spaced gap (stream k).toNat (stream (k + 1)).toNat := by
    intro k
    by_cases heq : stream k = stream (k + 1)
    · exact .inl (by rw [heq])
    · exact .inr (h.jump k heq)
  induction j, hij using Nat.le_induction with
  | base => exact hnext i
  | succ j _ ih => exact ih.trans (hnext j)

theorem SpacedStream.paced {stream : Nat → UInt64} (h : SpacedStream gap stream)
    (count : Nat) (ndebug : Bool) (draws : Nat → RandomDraw) (files : Nat → RandFile) :
    Paced gap (streamProcess stream count ndebug draws files)
      ((List.range count).map stream) where
  clock := rfl
  positive := by simpa using fun k _ => h.positive k
  below := by simpa using fun k _ => h.below k
  spaced := List.pairwise_map.mpr
    (List.pairwise_lt_range.imp fun hij => h.spaced hij)
  last := fun hlast => absurd rfl hlast
  offset := Nat.zero_le _
  started := fun _ => rfl

theorem currentTimes_increasing {calls : Nat} {stamps : List UInt64}
    (h : Paced gap p readings) (hgap : uidsPerTick.toNat < gap)
    (hrun : currentTimes calls p = .ok (stamps, p')) : stamps.Pairwise (· < ·) := by
  have hpairs := run_keys_increasing (fun p => ∃ readings, Paced gap p readings)
    UInt64.toNat Process.mark ?_ (throughout_true _ p) ⟨readings, h⟩ hrun
  · exact hpairs.1.imp fun hlt => UInt64.lt_iff_toNat_lt.mpr hlt
  · rintro _ p stamp p' - ⟨readings, h⟩ hcall
    obtain ⟨⟨readings', -, h'⟩, -, hlt, heq⟩ :=
      h.getCurrentTime_step (fun hlast => tickClear_of_gap h hlast hgap) hcall
    exact ⟨⟨readings', h'⟩, hlt, heq.le⟩

theorem getCurrentTime_of_issue {reading : UInt64} {clock : Clock} {issued : Nat}
    {tick' : Tick} (hinit : initCurrentTime p = .ok q)
    (hclock : q.clock = .ok reading :: clock) (hbelow : reading.toNat < 2 ^ 60)
    (hissue : issue uidsPerTick.toNat reading.toNat q.tick = .ok (issued, tick')) :
    ∃ stamp p', getCurrentTime p = .ok (stamp, p') ∧ stamp.toNat = issued ∧
      p'.tick = tick' ∧ p'.clock = clock ∧ p'.inited = q.inited := by
  have htaken : Taken q reading := by
    rcases issue_cases hissue with ⟨hne, -, -⟩ | ⟨-, hlt, -, -⟩
    · exact .inl fun heq => hne (congrArg UInt64.toNat heq)
    · exact .inr (UInt16.lt_iff_toNat_lt.mpr hlt)
  have htake := takeReading_issue htaken clock
  rw [hissue] at htake
  cases htake
  refine ⟨_, _, getCurrentTime_eq_ok.mpr ⟨q, [], reading, clock, hinit, hclock,
    ⟨htaken, by simp, by simp⟩, rfl, rfl⟩, ?_, rfl, by simp, by simp⟩
  rw [toNat_stamp _ hbelow]
  simp [Tick.stamp, Process.tick]

theorem currentTimes_of_issue {issued : List Nat} {tick' : Tick}
    (hinited : p.inited = true) (hclock : p.clock = readings.map .ok)
    (hbelow : ∀ reading ∈ readings, reading.toNat < 2 ^ 60)
    (hissue : run (issue uidsPerTick.toNat) (readings.map UInt64.toNat) p.tick =
      .ok (issued, tick')) :
    ∃ stamps p', currentTimes readings.length p = .ok (stamps, p') ∧
      stamps.map UInt64.toNat = issued := by
  induction readings generalizing p issued with
  | nil =>
      cases hissue
      exact ⟨[], p, rfl, rfl⟩
  | cons reading readings ih =>
      obtain ⟨first, tick₁, rest, hfirst, hrest, rfl⟩ := run_cons_eq_ok.mp hissue
      have hinit : initCurrentTime p = .ok p :=
        initCurrentTime_eq_ok.mpr (.inl ⟨hinited, rfl⟩)
      obtain ⟨stamp, p₁, hcall, hstamp, rfl, hclock₁, hinited₁⟩ :=
        getCurrentTime_of_issue hinit hclock (hbelow reading (by simp)) hfirst
      obtain ⟨stamps, p', hrun, hstamps⟩ := ih (hinited₁.trans hinited) hclock₁
        (fun r hr => hbelow r (by simp [hr])) hrest
      exact ⟨stamp :: stamps, p', run_cons_eq_ok.mpr ⟨stamp, p₁, stamps, hcall, hrun, rfl⟩,
        by simp [hstamp, hstamps]⟩

def crowdedStream (gap : Nat) (k : Nat) : UInt64 :=
  if k < gap + 2 then 1 else UInt64.ofNat (1 + gap)

theorem crowdedStream_toNat (hgap : gap ≤ uidsPerTick.toNat) (k : Nat) :
    (crowdedStream gap k).toNat = if k < gap + 2 then 1 else 1 + gap := by
  rw [uidsPerTick_toNat] at hgap
  unfold crowdedStream
  split
  · rfl
  · rw [UInt64.toNat_ofNat']
    omega

theorem crowdedStream_spaced (hgap : gap ≤ uidsPerTick.toNat) :
    SpacedStream gap (crowdedStream gap) := by
  have hle : gap ≤ 1024 := hgap
  refine ⟨fun k => ?_, fun k => ?_, fun k => ?_, fun k hne => ?_⟩
  · simp only [crowdedStream_toNat hgap]
    split <;> split <;> omega
  · simp only [crowdedStream_toNat hgap]
    split <;> omega
  · simp only [crowdedStream_toNat hgap]
    split <;> omega
  · have hedge : k + 1 = gap + 2 := by
      by_contra hother
      have hsame : k < gap + 2 ↔ k + 1 < gap + 2 := by omega
      exact hne (by simp only [crowdedStream, hsame])
    rw [crowdedStream_toNat hgap, crowdedStream_toNat hgap, if_pos (by omega),
      if_neg (by omega)]

theorem crowdedStream_prefix (gap : Nat) :
    (List.range (gap + 3)).map (crowdedStream gap) =
      1 :: 1 :: (List.replicate gap 1 ++ [UInt64.ofNat (1 + gap)]) := by
  have hones : (List.range (gap + 2)).map (crowdedStream gap) =
      List.replicate (gap + 2) 1 := by
    refine List.eq_replicate_iff.mpr ⟨by simp, ?_⟩
    simp only [List.mem_map, List.mem_range]
    rintro r ⟨k, hk, rfl⟩
    simp [crowdedStream, hk]
  rw [List.range_succ, List.map_append, hones]
  simp [crowdedStream, List.replicate_succ]

theorem crowdedStream_repeats (hpos : 1 ≤ gap) (hgap : gap ≤ uidsPerTick.toNat)
    (ndebug : Bool) (draws : Nat → RandomDraw) (files : Nat → RandFile) :
    ∃ stamps p', currentTimes (gap + 2)
        (streamProcess (crowdedStream gap) (gap + 3) ndebug draws files) =
          .ok (stamps, p') ∧
      ¬ stamps.Pairwise (· < ·) := by
  have hle : gap ≤ 1024 := hgap
  let later : List UInt64 := List.replicate gap 1 ++ [UInt64.ofNat (1 + gap)]
  have hlast : (UInt64.ofNat (1 + gap)).toNat = 1 + gap := by
    rw [UInt64.toNat_ofNat']
    omega
  have hlater : later.map UInt64.toNat = crowded gap 1 := by
    simp only [later, crowded, List.map_append, List.map_replicate, List.map_cons,
      List.map_nil, hlast]
    rfl
  have hclock : (streamProcess (crowdedStream gap) (gap + 3) ndebug draws files).clock =
      (1 :: 1 :: later).map .ok := by
    rw [← crowdedStream_prefix]
    rfl
  have hinit : initCurrentTime (streamProcess (crowdedStream gap) (gap + 3) ndebug draws files) =
      .ok { streamProcess (crowdedStream gap) (gap + 3) ndebug draws files with
        clock := (1 :: later).map .ok, idsThisTick := uidsPerTick, inited := true } :=
    initCurrentTime_eq_ok.mpr (.inr ⟨rfl, 1, _, hclock, rfl⟩)
  -- the first call drops one reading and opens the tick that the others crowd
  obtain ⟨stamp, p₁, hcall, hstamp, htick, hclock₁, hinited₁⟩ :=
    getCurrentTime_of_issue hinit rfl (by decide) (issue_fresh Nat.zero_ne_one)
  have hissue : run (issue uidsPerTick.toNat) (later.map UInt64.toNat) p₁.tick =
      .ok ((List.range' 1 gap).map (1 + ·) ++ [1 + gap], ⟨1 + gap, 0⟩) := by
    rw [hlater, htick]
    exact run_issue_crowded 1 hpos hgap
  have hbelow : ∀ reading ∈ later, reading.toNat < 2 ^ 60 := by
    intro reading hmem
    rcases List.mem_append.mp hmem with hmem | hmem
    · rw [List.eq_of_mem_replicate hmem]
      decide
    · rw [List.mem_singleton.mp hmem, hlast]
      omega
  obtain ⟨stamps, p', hrun, hstamps⟩ :=
    currentTimes_of_issue hinited₁ hclock₁ hbelow hissue
  have hcalls : later.length = gap + 1 := by simp [later]
  rw [hcalls] at hrun
  refine ⟨stamp :: stamps, p', run_cons_eq_ok.mpr ⟨stamp, p₁, stamps, hcall, hrun, rfl⟩, ?_⟩
  intro hpairs
  refine crowded_repeats 1 hpos ?_
  rw [← hstamps, List.pairwise_map]
  exact (List.pairwise_cons.mp hpairs).2.imp UInt64.lt_iff_toNat_lt.mp

/--
Timestamps increase strictly on every stream of readings spaced by `gap` exactly
when `gap` exceeds `UIDS_PER_TICK`.
-/
theorem currentTimes_increasing_iff (hpos : 1 ≤ gap) (ndebug : Bool)
    (draws : Nat → RandomDraw) (files : Nat → RandFile) :
    (∀ stream, SpacedStream gap stream → ∀ count calls stamps p',
      currentTimes calls (streamProcess stream count ndebug draws files) =
        .ok (stamps, p') →
      stamps.Pairwise (· < ·)) ↔ uidsPerTick.toNat < gap := by
  constructor
  · intro h
    by_contra hnot
    have hgap : gap ≤ uidsPerTick.toNat := by omega
    obtain ⟨stamps, p', hrun, hrepeats⟩ :=
      crowdedStream_repeats hpos hgap ndebug draws files
    exact hrepeats (h _ (crowdedStream_spaced hgap) _ _ _ _ hrun)
  · intro hgap stream hstream count calls stamps p' hrun
    exact currentTimes_increasing (hstream.paced count ndebug draws files) hgap hrun

theorem currentTimes_increasing_millisecond :
    (∀ stream, SpacedStream 10000 stream → ∀ count calls stamps p',
      currentTimes calls (streamProcess stream count false (fun _ => stillDraw)
        (fun _ => stillFile)) = .ok (stamps, p') →
      stamps.Pairwise (· < ·)) ↔ uidsPerTick.toNat < 10000 :=
  currentTimes_increasing_iff (by decide) false _ _

end Quid
