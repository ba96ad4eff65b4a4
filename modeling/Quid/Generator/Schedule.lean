import Quid.Generator.Calls

/-!
# When the generator seeds

In a run of `quid_create` the counters of `true_random` and `get_memory_seed`
show how many values have been drawn and how many REV4 identifiers have been
made.  They fix which draws call `srand`, which readings these calls take and
which reading of `.rnd` each REV4 node comes from.
-/

namespace Quid

open Quid.Foundation
open Quid.Foundation.CyclicCounter

/-! ## Draws -/

def RandomDraw.sum (draw : RandomDraw) : Int :=
  draw.rand + (draw.timeOfDay.tv.tvSec * 1000 + draw.timeOfDay.tv.tvUsec.tdiv 1000)

/-- What draw `k` leaves in the trace: one draw in `limit + 1` seeds first. -/
def drawEvents (limit : Nat) (draws : Nat → RandomDraw) (seeds : Nat → UInt64) (k : Nat) :
    List Event :=
  (if k % (limit + 1) = 0 then [.srand (srandSeed (seeds k))] else []) ++
    [.convert (draws k).sum]

def seedingDraws (limit count : Nat) : List Nat :=
  (List.range count).filter fun k => k % (limit + 1) = 0

structure Drawn (start : Process) (limit count : Nat) (p : Process) : Prop where
  cycle : p.maxRndSeed = limit
  counter : p.rndSeedCount = shown limit count
  draws : p.draws = fun k => start.draws (k + count)
  trace : ∃ seeds : Nat → UInt64, ∃ taken, start.clock = taken ++ p.clock ∧
    ((seedingDraws limit count).map fun k => .ok (seeds k)).Sublist taken ∧
    p.trace = start.trace ++ (List.range count).flatMap (drawEvents limit start.draws seeds)

variable {start p p' : Process} {limit count : Nat}

theorem getTickCount_eq_ok {ndebug : Bool} {draw : RandomDraw} {tick : Int}
    (h : getTickCount ndebug draw.timeOfDay = .ok tick) : draw.rand + tick = draw.sum := by
  obtain ⟨-, -, hdone⟩ := bind_eq_ok.mp h
  rw [RandomDraw.sum, pure_eq_ok.mp hdone]

theorem drawEvents_congr {draws : Nat → RandomDraw} {seeds seeds' : Nat → UInt64}
    (hsame : ∀ k < count, seeds k = seeds' k) :
    (List.range count).flatMap (drawEvents limit draws seeds) =
      (List.range count).flatMap (drawEvents limit draws seeds') := by
  refine List.flatMap_congr fun k hk => ?_
  simp only [drawEvents, hsame k (List.mem_range.mp hk)]

theorem seedingDraws_congr {seeds seeds' : Nat → UInt64}
    (hsame : ∀ k < count, seeds k = seeds' k) :
    (seedingDraws limit count).map (fun k => (Except.ok (seeds k) : Except Stop UInt64)) =
      (seedingDraws limit count).map fun k => .ok (seeds' k) := by
  refine List.map_congr_left fun k hk => ?_
  rw [hsame k (List.mem_range.mp (List.mem_filter.mp hk).1)]

theorem seedingDraws_succ (limit count : Nat) :
    seedingDraws limit (count + 1) =
      seedingDraws limit count ++ if count % (limit + 1) = 0 then [count] else [] := by
  by_cases hzero : count % (limit + 1) = 0 <;> simp [seedingDraws, List.range_succ, hzero]

theorem trueRandom_drawn {value : UInt16} (h : Drawn start limit count p)
    (hcall : trueRandom p = .ok (value, p')) : Drawn start limit (count + 1) p' := by
  obtain ⟨q, next, tick, hseed, hnext, htick, -, rfl⟩ := trueRandom_eq_ok.mp hcall
  have hframe := seedRandom_frame hseed
  have hcount : next = shown limit (count + 1) := by
    rw [advanceCount_eq_ok hnext, hframe, h.counter, h.cycle, advance_shown]
  have hdraws : ∀ k, q.draws k = start.draws (k + count) := by
    intro k
    rw [hframe, h.draws]
  have hsum : (q.draws 0).rand + tick = (start.draws count).sum := by
    rw [getTickCount_eq_ok htick, hdraws, Nat.zero_add]
  obtain ⟨seeds, taken, hclock, hreadings, htrace⟩ := h.trace
  refine ⟨by rw [← h.cycle, hframe], hcount, ?_, ?_⟩
  · funext k
    exact (hdraws (k + 1)).trans (congrArg start.draws (Nat.add_right_comm k 1 count))
  rcases seedRandom_eq_ok.mp hseed with ⟨hne, rfl⟩ | ⟨hzero, reading, clock, hnow, rfl⟩
  · rw [h.counter, ne_eq, shown_eq_zero_iff] at hne
    refine ⟨seeds, taken, hclock, ?_, ?_⟩
    · rw [seedingDraws_succ, if_neg hne, List.append_nil]
      exact hreadings
    · simp [List.range_succ, drawEvents, hne, htrace, hsum]
  -- draw `count` seeds with the reading the clock shows now
  · rw [h.counter, shown_eq_zero_iff] at hzero
    let seeds' := Function.update seeds count reading
    have hsame : ∀ k < count, seeds k = seeds' k := fun k hk =>
      (Function.update_of_ne (Nat.ne_of_lt hk) _ _).symm
    have hlast : seeds' count = reading := Function.update_self _ _ _
    refine ⟨seeds', taken ++ [.ok reading], ?_, ?_, ?_⟩
    · rw [hclock, hnow, List.append_assoc]
      rfl
    · rw [seedingDraws_succ, if_pos hzero, List.map_append, ← seedingDraws_congr hsame]
      simpa [hlast] using hreadings
    · simp [List.range_succ, drawEvents, hzero, hlast, htrace, hsum, drawEvents_congr hsame]

/-! ## The memory seed -/

structure Seeded (start : Process) (limit count : Nat) (p : Process) : Prop where
  cycle : p.maxMemSeed = limit
  counter : p.memSeedCount = shown limit count
  files : ∀ k, p.files k = start.files (k + starts limit count)
  node : count ≠ 0 →
    readSeedFile (start.files ((count - 1) / (limit + 1))) = .ok p.savedNode

theorem loadMemorySeed_seeded {q : Process} (h : Seeded start limit count p)
    (hload : loadMemorySeed p = .ok q) :
    readSeedFile (start.files (count / (limit + 1))) = .ok q.savedNode ∧
      ∀ k, q.files k = start.files (k + starts limit (count + 1)) := by
  have hstarts := starts_of_mod limit count
  rw [starts_succ]
  rcases loadMemorySeed_eq_ok.mp hload with ⟨hne, rfl⟩ | ⟨hzero, savedNode, hread, rfl⟩
  · rw [h.counter, ne_eq, shown_eq_zero_iff] at hne
    rw [if_neg hne] at hstarts
    obtain ⟨before, rfl⟩ : ∃ before, count = before + 1 :=
      Nat.exists_eq_succ_of_ne_zero fun hzero => hne (by rw [hzero, Nat.zero_mod])
    have hsame : (before + 1) / (limit + 1) = before / (limit + 1) :=
      Nat.succ_div_of_not_dvd fun hdvd => hne (Nat.mod_eq_zero_of_dvd hdvd)
    constructor
    · rw [hsame]
      exact h.node (Nat.succ_ne_zero before)
    · intro k
      rw [h.files, hstarts]
  · rw [h.counter, shown_eq_zero_iff] at hzero
    rw [if_pos hzero] at hstarts
    constructor
    · rw [h.files, Nat.zero_add, hstarts] at hread
      exact hread
    · intro k
      refine (h.files (k + 1)).trans (congrArg start.files ?_)
      omega

theorem getMemorySeed_seeded {node : CuuidNode} (h : Seeded start limit count p)
    (hcall : getMemorySeed p = .ok (node, p')) :
    Seeded start limit (count + 1) p' ∧
      readSeedFile (start.files (count / (limit + 1))) = .ok node := by
  obtain ⟨q, next, hload, hnext, rfl, rfl⟩ := getMemorySeed_eq_ok.mp hcall
  obtain ⟨hread, hfiles⟩ := loadMemorySeed_seeded h hload
  have hframe := loadMemorySeed_frame hload
  refine ⟨⟨by rw [← h.cycle, hframe], ?_, hfiles, fun _ => hread⟩, hread⟩
  rw [advanceCount_eq_ok hnext, hframe, h.counter, h.cycle, advance_shown]

/-! ## What leaves them alone -/

theorem trueRandom_seeded {value : UInt16} (h : Seeded start limit count p)
    (hcall : trueRandom p = .ok (value, p')) : Seeded start limit count p' := by
  rw [trueRandom_frame hcall]
  exact ⟨h.cycle, h.counter, h.files, h.node⟩

theorem getMemorySeed_drawn {node : CuuidNode} (h : Drawn start limit count p)
    (hcall : getMemorySeed p = .ok (node, p')) : Drawn start limit count p' := by
  rw [getMemorySeed_frame hcall]
  exact ⟨h.cycle, h.counter, h.draws, h.trace⟩

theorem getCurrentTime_seeded {timestamp : UInt64} (h : Seeded start limit count p)
    (hcall : getCurrentTime p = .ok (timestamp, p')) : Seeded start limit count p' := by
  rw [getCurrentTime_frame hcall]
  exact ⟨h.cycle, h.counter, h.files, h.node⟩

theorem getCurrentTime_drawn {timestamp : UInt64} (h : Drawn start limit count p)
    (hcall : getCurrentTime p = .ok (timestamp, p')) : Drawn start limit count p' := by
  obtain ⟨before, reading, hread, -⟩ := getCurrentTime_clock hcall
  obtain ⟨seeds, taken, hclock, hreadings, htrace⟩ := h.trace
  rw [getCurrentTime_frame hcall]
  refine ⟨h.cycle, h.counter, h.draws, seeds, taken ++ (before ++ [.ok reading]), ?_, ?_, htrace⟩
  · rw [hclock, hread]
    simp
  · exact hreadings.trans (List.sublist_append_left taken _)

/-! ## Calls of `quid_create` -/

def CreateRequest.draws (request : CreateRequest) : Nat :=
  if request.cuuid.version = quidRev4 then 3 else 1

def CreateRequest.seeds (request : CreateRequest) : Nat :=
  if request.cuuid.version = quidRev4 then 1 else 0

structure Scheduled (start : Process) (rndSeed memSeed draws seeds : Nat) (p : Process) :
    Prop where
  drawn : Drawn start rndSeed draws p
  seeded : Seeded start memSeed seeds p

variable {rndSeed memSeed draws seeds : Nat} {request : CreateRequest}
  {requests : List CreateRequest} {answer : Cresult × Option Cuuid}
  {outputs : List (Cresult × Option Cuuid)}

/-- A REV4 identifier whose bytes 3 and 4 are those of a reading of `.rnd`. -/
def NodeFrom (file : RandFile) (answer : Cresult × Option Cuuid) : Prop :=
  ∃ u node, answer = (.ok, some u) ∧ readSeedFile file = .ok node ∧
    u.node[3] = node[3] ∧ u.node[4] = node[4]

theorem rev4Node_seed (node : CuuidNode) (first last : UInt16) (flag subc : UInt8) :
    (rev4Node node first last flag subc)[3] = node[3] ∧
      (rev4Node node first last flag subc)[4] = node[4] := by
  simp [rev4Node, CuuidNode.put]

theorem createStep_scheduled (h : Scheduled start rndSeed memSeed draws seeds p)
    (hcall : createStep request p = .ok (answer, p')) :
    Scheduled start rndSeed memSeed (draws + request.draws) (seeds + request.seeds) p' ∧
      (request.cuuid.version = quidRev4 →
        NodeFrom (start.files (seeds / (memSeed + 1))) answer) := by
  by_cases hversion : request.cuuid.version = quidRev4
  · obtain ⟨timestamp, p₁, node, p₂, clockseq, p₃, first, p₄, last, ht, hs, hc, hf, hl, rfl⟩ :=
      (quidCreate_rev4_eq_ok hversion).mp hcall
    have hdrawn := getMemorySeed_drawn (getCurrentTime_drawn h.drawn ht) hs
    obtain ⟨hseeded, hread⟩ := getMemorySeed_seeded (getCurrentTime_seeded h.seeded ht) hs
    have hdrawn' := trueRandom_drawn (trueRandom_drawn (trueRandom_drawn hdrawn hc) hf) hl
    have hseeded' := trueRandom_seeded (trueRandom_seeded (trueRandom_seeded hseeded hc) hf) hl
    simp only [CreateRequest.draws, CreateRequest.seeds, if_pos hversion]
    obtain ⟨hthird, hfourth⟩ := rev4Node_seed node first last request.flag request.subc
    exact ⟨⟨hdrawn', hseeded'⟩, fun _ => ⟨_, node, rfl, hread, hthird, hfourth⟩⟩
  · obtain ⟨timestamp, p₁, clockseq, ht, hc, -, -⟩ :=
      (quidCreate_rev7_eq_ok hversion).mp hcall
    simp only [CreateRequest.draws, CreateRequest.seeds, if_neg hversion]
    exact ⟨⟨trueRandom_drawn (getCurrentTime_drawn h.drawn ht) hc,
      trueRandom_seeded (getCurrentTime_seeded h.seeded ht) hc⟩, fun h => absurd h hversion⟩

/-! ## Runs -/

def drawCount (requests : List CreateRequest) : Nat := (requests.map CreateRequest.draws).sum

def seedCount (requests : List CreateRequest) : Nat := (requests.map CreateRequest.seeds).sum

theorem run_scheduled (h : Scheduled start rndSeed memSeed draws seeds p)
    (hrun : run createStep requests p = .ok (outputs, p')) :
    Scheduled start rndSeed memSeed (draws + drawCount requests) (seeds + seedCount requests)
      p' := by
  induction requests generalizing p outputs draws seeds with
  | nil =>
      cases hrun
      exact h
  | cons request requests ih =>
      obtain ⟨answer, q, rest, hcall, hrest, rfl⟩ := run_cons_eq_ok.mp hrun
      have hlater := ih (createStep_scheduled h hcall).1 hrest
      simp only [drawCount, seedCount, List.map_cons, List.sum_cons, ← Nat.add_assoc]
      exact hlater

def limited (rndSeed memSeed : Nat) (ndebug : Bool) (clock : Clock) (draws : Nat → RandomDraw)
    (files : Nat → RandFile) : Process :=
  quidSetMemSeed memSeed (quidSetRndSeed rndSeed (.initial ndebug clock draws files))

theorem limited_scheduled (rndSeed memSeed : Nat) (ndebug : Bool) (clock : Clock)
    (draws : Nat → RandomDraw) (files : Nat → RandFile) :
    Scheduled (limited rndSeed memSeed ndebug clock draws files) rndSeed memSeed 0 0
      (limited rndSeed memSeed ndebug clock draws files) where
  drawn :=
    { cycle := rfl
      counter := by simp [shown, limited, quidSetMemSeed, quidSetRndSeed, Process.initial]
      draws := rfl
      trace := ⟨fun _ => 0, [], rfl, .slnil, rfl⟩ }
  seeded :=
    { cycle := rfl
      counter := by simp [shown, limited, quidSetMemSeed, quidSetRndSeed, Process.initial]
      files := fun k => by rw [starts, Nat.zero_add, Nat.div_eq_of_lt memSeed.lt_succ_self]; rfl
      node := fun hne => absurd rfl hne }

/--
In every run of `quid_create` draw `k` calls `srand` first exactly when `k` is a
multiple of `rnd_seed + 1`, on a reading of its own, and `.rnd` is read once for
every `mem_seed + 1` REV4 identifiers.
-/
theorem createRun_scheduled {ndebug : Bool} {clock : Clock} {draws : Nat → RandomDraw}
    {files : Nat → RandFile}
    (hrun : run createStep requests (limited rndSeed memSeed ndebug clock draws files) =
      .ok (outputs, p')) :
    Scheduled (limited rndSeed memSeed ndebug clock draws files) rndSeed memSeed
      (drawCount requests) (seedCount requests) p' := by
  have hdone := run_scheduled (limited_scheduled rndSeed memSeed ndebug clock draws files) hrun
  rwa [Nat.zero_add, Nat.zero_add] at hdone

def scheduleRequests : List CreateRequest :=
  [plainRequest, ⟨{ Cuuid.zero with version := quidRev4 }, 1, 2, none⟩, plainRequest]

def scheduleClock : Clock := List.replicate 9 (.ok 17000000000000000)

theorem createRun_scheduled_still : ∃ outputs p',
    run createStep scheduleRequests
        (limited 1 0 false scheduleClock (fun _ => stillDraw) fun _ => stillFile) =
      .ok (outputs, p') ∧
    Scheduled (limited 1 0 false scheduleClock (fun _ => stillDraw) fun _ => stillFile) 1 0
      (drawCount scheduleRequests) (seedCount scheduleRequests) p' := by
  have hreturns : (run createStep scheduleRequests
      (limited 1 0 false scheduleClock (fun _ => stillDraw) fun _ => stillFile)).isOk = true := by
    decide +kernel
  obtain ⟨⟨outputs, p'⟩, hrun⟩ := eq_ok_of_isOk hreturns
  exact ⟨outputs, p', hrun, createRun_scheduled hrun⟩

/--
In every run of `quid_create` bytes 3 and 4 of a REV4 node are those that `.rnd`
gave when it was last read: `mem_seed + 1` REV4 identifiers in a row share them.
-/
theorem createRun_nodes {ndebug : Bool} {clock : Clock} {draws : Nat → RandomDraw}
    {files : Nat → RandFile}
    (hrun : run createStep requests (limited rndSeed memSeed ndebug clock draws files) =
      .ok (outputs, p')) :
    ∀ before request after, requests = before ++ request :: after →
      request.cuuid.version = quidRev4 →
      ∃ answer, outputs[before.length]? = some answer ∧
        NodeFrom (files (seedCount before / (memSeed + 1))) answer := by
  rintro before request after rfl hversion
  obtain ⟨made, q, rest, hbefore, hlater, rfl⟩ := run_append_eq_ok.mp hrun
  obtain ⟨answer, q', later, hcall, -, rfl⟩ := run_cons_eq_ok.mp hlater
  have hq := run_scheduled (limited_scheduled rndSeed memSeed ndebug clock draws files) hbefore
  rw [Nat.zero_add, Nat.zero_add] at hq
  refine ⟨answer, ?_, (createStep_scheduled hq hcall).2 hversion⟩
  rw [← run_output_length hbefore]
  simp

theorem createRun_nodes_still : ∃ outputs p',
    run createStep scheduleRequests
        (limited 1 0 false scheduleClock (fun _ => stillDraw) fun _ => stillFile) =
      .ok (outputs, p') ∧
    ∀ before request after, scheduleRequests = before ++ request :: after →
      request.cuuid.version = quidRev4 →
      ∃ answer, outputs[before.length]? = some answer ∧
        NodeFrom ((fun _ => stillFile) (seedCount before / (0 + 1))) answer := by
  have hreturns : (run createStep scheduleRequests
      (limited 1 0 false scheduleClock (fun _ => stillDraw) fun _ => stillFile)).isOk = true := by
    decide +kernel
  obtain ⟨⟨outputs, p'⟩, hrun⟩ := eq_ok_of_isOk hreturns
  exact ⟨outputs, p', hrun, createRun_nodes hrun⟩

end Quid
