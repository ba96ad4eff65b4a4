import Quid.Format.Header

/-!
# Distinct identifiers

The time an identifier carries is the stamp of its call.  While every reading
that opens a tick lies beyond the stamps of the tick before, the times of a run
increase and no two of its identifiers compare equal.  A POSIX clock steps by 10,
less than the stamps of one reading can spread, so the condition is not empty.
-/

namespace Quid

open Quid.Foundation
open Quid.Foundation.TickCounter

/-- Readings a POSIX clock can give: whole microseconds that never go back. -/
structure PosixReadings (readings : List UInt64) : Prop where
  ordered : readings.Pairwise (· ≤ ·)
  micros : ∀ reading ∈ readings, reading % 10 = 0
  admitted : ∀ reading ∈ readings, 10000000000000000 < reading
  below : ∀ reading ∈ readings, reading.toNat + uidsPerTick.toNat < 2 ^ 60

theorem posixReadings_of_all {readings : List UInt64} (hordered : readings.Pairwise (· ≤ ·))
    (hall : readings.all (fun reading => reading % 10 = 0 ∧ 10000000000000000 < reading ∧
      reading.toNat + uidsPerTick.toNat < 2 ^ 60) = true) : PosixReadings readings := by
  have hreading := List.all_eq_true.mp hall
  simp only [decide_eq_true_eq] at hreading
  exact
    { ordered := hordered
      micros := fun reading hmem => (hreading reading hmem).1
      admitted := fun reading hmem => (hreading reading hmem).2.1
      below := fun reading hmem => (hreading reading hmem).2.2 }

theorem PosixReadings.positive {readings : List UInt64} (h : PosixReadings readings) :
    ∀ reading ∈ readings, 0 < reading.toNat := by
  intro reading hmem
  have hlt := UInt64.lt_iff_toNat_lt.mp (h.admitted reading hmem)
  omega

def Supplied (gap : Nat) (p : Process) : Prop :=
  ∃ readings, Paced gap p readings ∧
    ∀ reading ∈ readings, reading.toNat + uidsPerTick.toNat < 2 ^ 60

variable {gap : Nat} {p p' : Process} {readings : List UInt64}

theorem initial_supplied
    (hspaced : readings.Pairwise fun a b => Spaced gap a.toNat b.toNat)
    (hpositive : ∀ reading ∈ readings, 0 < reading.toNat)
    (hbelow : ∀ reading ∈ readings, reading.toNat + uidsPerTick.toNat < 2 ^ 60)
    (ndebug : Bool) (draws : Nat → RandomDraw) (files : Nat → RandFile) :
    Supplied gap (.initial ndebug (readings.map .ok) draws files) := by
  refine ⟨readings, ?_, hbelow⟩
  exact
    { clock := rfl
      positive := hpositive
      below := fun reading hmem => lt_of_le_of_lt (Nat.le_add_right _ _) (hbelow reading hmem)
      spaced := hspaced
      last := fun hlast => absurd rfl hlast
      offset := Nat.zero_le _
      started := fun _ => rfl }

theorem PosixReadings.supplied (h : PosixReadings readings) (ndebug : Bool)
    (draws : Nat → RandomDraw) (files : Nat → RandFile) :
    Supplied 1 (.initial ndebug (readings.map .ok) draws files) := by
  refine initial_supplied (h.ordered.imp fun hle => ?_) h.positive h.below ndebug draws files
  have hle' := UInt64.le_iff_toNat_le.mp hle
  unfold Spaced
  omega

/-! ## One call -/

def SuppliedAt (gap mark : Nat) (p : Process) : Prop := Supplied gap p ∧ p.mark = mark

theorem trueRandom_suppliedAt {mark : Nat} {value : UInt16} (h : SuppliedAt gap mark p)
    (hcall : trueRandom p = .ok (value, p')) : SuppliedAt gap mark p' := by
  obtain ⟨⟨readings, hpaced, hbelow⟩, hmark⟩ := h
  have hframe := trueRandom_frame hcall
  have hsuffix : ∃ readings', readings' <:+ readings ∧ p'.clock = readings'.map .ok := by
    rcases trueRandom_clock hcall with heq | ⟨reading, heq⟩
    · exact ⟨readings, List.suffix_rfl, heq.trans hpaced.clock⟩
    · rw [hpaced.clock] at heq
      obtain ⟨first, rest, rfl, -, hrest⟩ := List.map_eq_cons_iff.mp heq
      exact ⟨rest, List.suffix_cons _ _, hrest.symm⟩
  obtain ⟨readings', hsuffix, hclock⟩ := hsuffix
  refine ⟨⟨readings', hpaced.of_suffix hsuffix hclock ?_ ?_ ?_,
    fun reading hmem => hbelow reading (hsuffix.subset hmem)⟩, ?_⟩
  · rw [hframe]
  · rw [hframe]
  · rw [hframe]
  · rw [← hmark, hframe]
    rfl

theorem getMemorySeed_suppliedAt {mark : Nat} {node : CuuidNode} (h : SuppliedAt gap mark p)
    (hcall : getMemorySeed p = .ok (node, p')) : SuppliedAt gap mark p' := by
  obtain ⟨⟨readings, hpaced, hbelow⟩, hmark⟩ := h
  rw [getMemorySeed_frame hcall]
  exact ⟨⟨readings, hpaced.of_suffix List.suffix_rfl hpaced.clock rfl rfl rfl, hbelow⟩, hmark⟩

theorem getCurrentTime_supplied {timestamp : UInt64} (h : Supplied gap p)
    (hclear : p.timeLast ≠ 0 → TickClear p)
    (hcall : getCurrentTime p = .ok (timestamp, p')) :
    SuppliedAt gap timestamp.toNat p' ∧ p.mark < timestamp.toNat ∧ timestamp.toNat < 2 ^ 60 := by
  obtain ⟨readings, hpaced, hbelow⟩ := h
  obtain ⟨⟨readings', hsuffix, hpaced'⟩, ⟨reading, hmem, hle⟩, hlt, heq⟩ :=
    hpaced.getCurrentTime_step hclear hcall
  have hroom := hbelow reading hmem
  exact ⟨⟨⟨readings', hpaced', fun r hr => hbelow r (hsuffix.subset hr)⟩, heq.symm⟩, hlt,
    by omega⟩

/-! ## Runs -/

variable {request : CreateRequest} {requests : List CreateRequest}
  {answer : Cresult × Option Cuuid} {outputs : List (Cresult × Option Cuuid)}

def answerTime (answer : Cresult × Option Cuuid) : Nat :=
  match answer.2 with
  | some u => u.wireTime
  | none => 0

theorem Carries.answerTime {u prior : Cuuid} {timestamp : UInt64}
    (h : Carries u (versionSubtrahend u.version) timestamp)
    (hversion : u.version = createdVersion prior) (hbelow : timestamp.toNat < 2 ^ 60) :
    answerTime (.ok, some u) = timestamp.toNat := by
  have hbits : versionSubtrahend u.version &&& 0xfff = 0 := by
    rw [hversion]
    exact versionSubtrahend_low (createdVersion_cases prior)
  have hwire := h.wireTime hbits
  rwa [Nat.mod_eq_of_lt hbelow] at hwire

theorem createStep_supplied (hclear : p.timeLast ≠ 0 → TickClear p) (h : Supplied gap p)
    (hcall : createStep request p = .ok (answer, p')) :
    Supplied gap p' ∧ p.mark < answerTime answer ∧ answerTime answer = p'.mark := by
  obtain ⟨timestamp, q, u, htime, rfl, hversion, hcarries⟩ := quidCreate_carries hcall
  obtain ⟨hq, hlt, hbelow⟩ := getCurrentTime_supplied h hclear htime
  obtain ⟨_, _, htime', hrest⟩ := quidCreate_rest (SuppliedAt gap timestamp.toNat)
    (fun _ _ _ h hcall => getMemorySeed_suppliedAt h hcall)
    (fun _ _ _ h hcall => trueRandom_suppliedAt h hcall) hcall
  rw [htime] at htime'
  cases htime'
  obtain ⟨hp', hmark⟩ := hrest hq
  rw [hcarries.answerTime hversion hbelow]
  exact ⟨hp', hlt, hmark.symm⟩

def Unique (outputs : List (Cresult × Option Cuuid)) : Prop :=
  (∀ answer ∈ outputs, ∃ u, answer = (.ok, some u)) ∧
    outputs.Pairwise fun first second => quidCmp first.2 second.2 = .error

theorem createRun_identifiers (hrun : run createStep requests p = .ok (outputs, p')) :
    ∀ answer ∈ outputs, ∃ u, answer = (.ok, some u) := by
  induction requests generalizing p outputs with
  | nil =>
      cases hrun
      simp
  | cons request requests ih =>
      obtain ⟨answer, q, rest, hcall, hrest, rfl⟩ := run_cons_eq_ok.mp hrun
      obtain ⟨_, _, u, -, rfl, -, -⟩ := quidCreate_carries hcall
      rintro answer (_ | ⟨_, hmem⟩)
      · exact ⟨u, rfl⟩
      · exact ih hrest answer hmem

theorem quidCmp_of_answerTime {first second : Cresult × Option Cuuid} {u v : Cuuid}
    (hfirst : first = (.ok, some u)) (hsecond : second = (.ok, some v))
    (hlt : answerTime first < answerTime second) : quidCmp first.2 second.2 = .error := by
  subst hfirst hsecond
  exact quidCmp_some_error_iff.mpr fun hsame => absurd hsame.wireTime (Nat.ne_of_lt hlt)

theorem createRun_unique_of_clear (h : Supplied gap p)
    (hclear : Throughout createStep (fun _ p => TickClear p) requests p)
    (hrun : run createStep requests p = .ok (outputs, p')) : Unique outputs := by
  have hall := createRun_identifiers hrun
  -- the carried times alone tell the identifiers apart
  have hincreasing := (run_keys_increasing (Supplied gap) answerTime Process.mark
    (fun _ _ _ _ hclear h hcall =>
      let ⟨h', hlt, heq⟩ := createStep_supplied (fun _ => hclear) h hcall
      ⟨h', hlt, heq.le⟩) hclear h hrun).1
  refine ⟨hall, hincreasing.imp_of_mem fun hfirst hsecond hlt => ?_⟩
  obtain ⟨u, hu⟩ := hall _ hfirst
  obtain ⟨v, hv⟩ := hall _ hsecond
  exact quidCmp_of_answerTime hu hv hlt

theorem throughout_tickClear (hgap : uidsPerTick.toNat < gap) (h : Supplied gap p)
    (hstarted : p.inited = true → p.timeLast ≠ 0) :
    Throughout createStep (fun _ p => TickClear p) requests p := by
  have hclear : ∀ q, Supplied gap q → (q.inited = true → q.timeLast ≠ 0) → TickClear q := by
    rintro q ⟨readings, hpaced, -⟩ hq hinited
    exact tickClear_of_gap hpaced (hq hinited) hgap hinited
  refine throughout_iff.mpr fun before request after outputs q _ hrun => ?_
  have hq : Supplied gap q ∧ (q.inited = true → q.timeLast ≠ 0) := by
    refine run_invariant (fun q => Supplied gap q ∧ (q.inited = true → q.timeLast ≠ 0)) ?_
      (throughout_true before p) ⟨h, hstarted⟩ hrun
    rintro request q answer q' - ⟨hq, hstarted⟩ hcall
    obtain ⟨hq', hlt, heq⟩ := createStep_supplied (fun _ => hclear q hq hstarted) hq hcall
    refine ⟨hq', fun _ hzero => ?_⟩
    have hmark : q'.mark = 0 := if_pos hzero
    rw [heq, hmark] at hlt
    exact absurd hlt (Nat.not_lt_zero _)
  exact hclear q hq.1 hq.2

/--
In every run whose calls all find a clear tick, the identifiers are distinct: a
reading that opens a tick lies beyond `time_last + ids_this_tick`.
-/
theorem createRun_unique (hreadings : PosixReadings readings) (ndebug : Bool)
    (draws : Nat → RandomDraw) (files : Nat → RandFile)
    (hclear : Throughout createStep (fun _ p => TickClear p) requests
      (.initial ndebug (readings.map .ok) draws files))
    (hrun : run createStep requests (.initial ndebug (readings.map .ok) draws files) =
      .ok (outputs, p')) : Unique outputs :=
  createRun_unique_of_clear (hreadings.supplied ndebug draws files) hclear hrun

theorem createRun_unique_still : PosixReadings (List.replicate 5 17000000000000000) ∧
    ∃ outputs p', run createStep (List.replicate 3 ⟨Cuuid.zero, 0, 0, none⟩)
        (.still (List.replicate 5 17000000000000000)) = .ok (outputs, p') ∧ Unique outputs := by
  have hreadings : PosixReadings (List.replicate 5 17000000000000000) :=
    posixReadings_of_all (by decide) (by decide)
  have hclear : Throughout createStep (fun _ p => TickClear p)
      (List.replicate 3 ⟨Cuuid.zero, 0, 0, none⟩)
      (.still (List.replicate 5 17000000000000000)) :=
    throughout_tickClear (by decide : uidsPerTick.toNat < 10000)
      (initial_supplied (by decide) hreadings.positive hreadings.below _ _ _)
      (fun h => by cases h)
  have hreturns : (run createStep (List.replicate 3 ⟨Cuuid.zero, 0, 0, none⟩)
      (.still (List.replicate 5 17000000000000000))).isOk = true := by
    decide +kernel
  obtain ⟨⟨outputs, p'⟩, hrun⟩ := eq_ok_of_isOk hreturns
  exact ⟨hreadings, outputs, p', hrun, createRun_unique hreadings false _ _ hclear hrun⟩

/-! ## A crowded microsecond -/

/-- Eleven stamps fall on one reading and the last meets the next microsecond. -/
def crowdedReadings : List UInt64 :=
  List.replicate 13 17000000000000000 ++ [17000000000000010]

def crowdedRequests : List CreateRequest := List.replicate 12 ⟨Cuuid.zero, 0, 0, none⟩

theorem crowdedReadings_posix : PosixReadings crowdedReadings :=
  posixReadings_of_all (by decide) (by decide)

theorem crowdedRequests_collide : PosixReadings crowdedReadings ∧
    ∃ outputs p', run createStep crowdedRequests (.still crowdedReadings) = .ok (outputs, p') ∧
      ¬ Unique outputs := by
  refine ⟨crowdedReadings_posix, ?_⟩
  have hcollide : (match run createStep crowdedRequests (.still crowdedReadings) with
      | .ok (outputs, _) =>
          decide (outputs.Pairwise fun first second => quidCmp first.2 second.2 = .error)
      | .error _ => true) = false := by
    decide +kernel
  split at hcollide
  · next outputs p' hrun => exact ⟨outputs, p', hrun, fun h => by simp [h.2] at hcollide⟩
  · cases hcollide

end Quid
