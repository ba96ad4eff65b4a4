import Quid.Generator.Calls

/-!
# The conversion to `uint16_t`

`true_random` converts `rand() + get_tick_count()` from `double`.  The tick
count is in milliseconds since 1970, so on every admitted clock the sum lies far
beyond the range of the type.
-/

namespace Quid

open Quid.Foundation

/-- A result of `rand` and a reading `get_system_time` would admit. -/
structure AdmittedDraw (draw : RandomDraw) : Prop where
  rand_le : draw.rand ≤ 2147483647
  status : draw.timeOfDay.status = 0
  usec_nonneg : 0 ≤ draw.timeOfDay.tv.tvUsec
  usec_lt : draw.timeOfDay.tv.tvUsec < 1000000
  reading : 10000000000000000 <
    draw.timeOfDay.tv.tvSec * 10000000 + draw.timeOfDay.tv.tvUsec * 10

def ConversionsDefined (trace : List Event) : Prop :=
  ∀ value, .convert value ∈ trace → 0 ≤ value ∧ value ≤ 65535

def ConversionsBeyond (trace : List Event) : Prop :=
  ∀ value, .convert value ∈ trace → 65535 < value

variable {p p' : Process}

/-! ## One draw -/

theorem AdmittedDraw.sum_beyond {draw : RandomDraw} {ndebug : Bool} {tick : Int}
    (h : AdmittedDraw draw) (htick : getTickCount ndebug draw.timeOfDay = .ok tick) :
    65535 < draw.rand + tick := by
  obtain ⟨-, -, hdone⟩ := bind_eq_ok.mp htick
  have heq : draw.timeOfDay.tv.tvSec * 1000 + draw.timeOfDay.tv.tvUsec.tdiv 1000 = tick := by
    simpa using hdone
  have hdiv : 0 ≤ draw.timeOfDay.tv.tvUsec.tdiv 1000 := Int.tdiv_nonneg h.usec_nonneg (by decide)
  have husec := h.usec_lt
  have hreading := h.reading
  omega

def DrawsBeyond (p : Process) : Prop :=
  (∀ k, AdmittedDraw (p.draws k)) ∧ ConversionsBeyond p.trace

theorem trueRandom_beyond {value : UInt16} (h : DrawsBeyond p)
    (hcall : trueRandom p = .ok (value, p')) : DrawsBeyond p' := by
  constructor
  · rw [trueRandom_frame hcall]
    exact fun k => h.1 (k + 1)
  · obtain ⟨seeding, tick, htick, htrace, hseeding, -⟩ := trueRandom_trace hcall
    intro v hv
    rw [htrace] at hv
    rcases List.mem_append.mp hv with hv | hv
    · exact h.2 v hv
    · rcases List.mem_append.mp hv with hv | hv
      · obtain ⟨seed, heq⟩ := hseeding _ hv
        cases heq
      · obtain rfl : v = (p.draws 0).rand + tick := by simpa using hv
        exact (h.1 0).sum_beyond htick

/-! ## Runs -/

variable {request : CreateRequest} {requests : List CreateRequest}
  {answer : Cresult × Option Cuuid} {outputs : List (Cresult × Option Cuuid)}

theorem createStep_beyond (h : DrawsBeyond p) (hcall : createStep request p = .ok (answer, p')) :
    DrawsBeyond p' := by
  refine quidCreate_preserves DrawsBeyond ?_ ?_ ?_ hcall h
  · intro p t p' h hcall
    rw [getCurrentTime_frame hcall]
    exact h
  · intro p node p' h hcall
    rw [getMemorySeed_frame hcall]
    exact h
  · exact fun p value p' h hcall => trueRandom_beyond h hcall

theorem createStep_event_mem {event : Event} (h : event ∈ p.trace)
    (hcall : createStep request p = .ok (answer, p')) : event ∈ p'.trace := by
  refine quidCreate_preserves (fun q => event ∈ q.trace) ?_ ?_ ?_ hcall h
  · intro p t p' h hcall
    rw [getCurrentTime_frame hcall]
    exact h
  · intro p node p' h hcall
    rw [getMemorySeed_frame hcall]
    exact h
  · intro p value p' h hcall
    obtain ⟨seeding, tick, -, htrace, -, -⟩ := trueRandom_trace hcall
    rw [htrace]
    exact List.mem_append_left _ h

theorem trueRandom_converts {value : UInt16} (hcall : trueRandom p = .ok (value, p')) :
    ∃ v, .convert v ∈ p'.trace := by
  obtain ⟨seeding, tick, -, htrace, -, -⟩ := trueRandom_trace hcall
  exact ⟨(p.draws 0).rand + tick, by simp [htrace]⟩

theorem createStep_converts (hcall : createStep request p = .ok (answer, p')) :
    ∃ v, .convert v ∈ p'.trace := by
  by_cases hversion : request.cuuid.version = quidRev4
  · obtain ⟨_, _, _, _, _, _, _, _, _, -, -, -, -, hlast, -⟩ :=
      (quidCreate_rev4_eq_ok hversion).mp hcall
    exact trueRandom_converts hlast
  · obtain ⟨_, _, _, -, hclock, -, -⟩ := (quidCreate_rev7_eq_ok hversion).mp hcall
    exact trueRandom_converts hclock

/-- Every conversion is out of range, and every run with a call makes one. -/
theorem createRun_conversions_beyond (hrequests : requests ≠ []) (ndebug : Bool)
    (clock : Clock) {draws : Nat → RandomDraw} (files : Nat → RandFile)
    (hdraws : ∀ k, AdmittedDraw (draws k))
    (hrun : run createStep requests (.initial ndebug clock draws files) = .ok (outputs, p')) :
    ¬ ConversionsDefined p'.trace ∧ ConversionsBeyond p'.trace := by
  have hstart : DrawsBeyond (.initial ndebug clock draws files) := by
    refine ⟨hdraws, fun value hmem => ?_⟩
    simp [Process.initial] at hmem
  have hend : DrawsBeyond p' := run_invariant DrawsBeyond
    (fun _ _ _ _ _ h hcall => createStep_beyond h hcall) (throughout_true _ _) hstart hrun
  refine ⟨fun hdefined => ?_, hend.2⟩
  obtain ⟨request, rest, rfl⟩ := List.exists_cons_of_ne_nil hrequests
  obtain ⟨answer, q, later, hfirst, hlater, -⟩ := run_cons_eq_ok.mp hrun
  obtain ⟨v, hv⟩ := createStep_converts hfirst
  have hmem : .convert v ∈ p'.trace := run_invariant (fun q => .convert v ∈ q.trace)
    (fun _ _ _ _ _ h hcall => createStep_event_mem h hcall) (throughout_true _ _) hv hlater
  have hbeyond := hend.2 v hmem
  have hwithin := (hdefined v hmem).2
  omega

theorem stillDraw_admitted : AdmittedDraw stillDraw := by
  constructor <;> decide

theorem stillStart_run :
    ∃ outputs p', run createStep [⟨Cuuid.zero, 0, 0, none⟩] stillStart = .ok (outputs, p') ∧
      .convert 1700000000000 ∈ p'.trace := by
  obtain ⟨q, p', -, -, -, htrace, hcreate⟩ := stillStart_creates 0 0 none
  refine ⟨_, p', run_cons_eq_ok.mpr ⟨_, p', [], hcreate, rfl, rfl⟩, ?_⟩
  simp [htrace]

theorem createRun_conversions_beyond_still :
    ∃ outputs p', run createStep [⟨Cuuid.zero, 0, 0, none⟩] stillStart = .ok (outputs, p') ∧
      ¬ ConversionsDefined p'.trace ∧ ConversionsBeyond p'.trace := by
  obtain ⟨outputs, p', hrun, -⟩ := stillStart_run
  exact ⟨outputs, p', hrun, createRun_conversions_beyond (by simp) false _ _
    (fun _ => stillDraw_admitted) hrun⟩

theorem stillStart_conversion_undefined :
    (∀ k, AdmittedDraw (stillStart.draws k)) ∧
      ∃ outputs p', run createStep [⟨Cuuid.zero, 0, 0, none⟩] stillStart = .ok (outputs, p') ∧
        ¬ ConversionsDefined p'.trace := by
  obtain ⟨outputs, p', hrun, hmem⟩ := stillStart_run
  refine ⟨fun _ => stillDraw_admitted, outputs, p', hrun, fun hdefined => ?_⟩
  exact absurd (hdefined _ hmem).2 (by decide)

end Quid
