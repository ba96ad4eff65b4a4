import Quid.Create
import Quid.Generator.Ticks
import Quid.Foundation.CyclicCounter

/-!
# What the calls of the generator do

One inversion lemma for each function that draws from the platform: what the
platform gave, what was returned and which fields changed.  Later files take the
functions apart with these and never unfold them.
-/

namespace Quid

open Quid.Foundation
open Quid.Foundation.CyclicCounter
open Quid.Foundation.TickCounter

variable {p p' q : Process}

/-! ## Counters -/

theorem advanceCount_eq_ok {count limit next : Int} (h : advanceCount count limit = .ok next) :
    next = advance count limit := by
  unfold advanceCount intSucc at h
  unfold advance
  split at h
  · next heq => rw [if_pos heq, ← Except.ok.inj h]
  · next hne =>
      rw [if_neg hne]
      split at h
      · cases h
      · exact (Except.ok.inj h).symm

theorem advanceCount_within {count limit : Int} (h : Within count limit)
    (hlimit : limit ≤ intMax) : advanceCount count limit = .ok (advance count limit) := by
  obtain ⟨-, hhigh⟩ := h
  unfold advanceCount intSucc advance
  split
  · rfl
  · rw [if_neg (by omega)]

/-! ## Readings -/

theorem getSystemTime_eq_ok {ndebug : Bool} {answer : TimeOfDay} {reading : UInt64} :
    getSystemTime ndebug answer = .ok reading ↔
      answer.status = 0 ∧ (ndebug = true ∨ squeezeTime answer.tv > 10000000000000000) ∧
        reading = squeezeTime answer.tv := by
  unfold getSystemTime
  split
  · next hstatus => simp [hstatus]
  · next hstatus =>
      simp only [bind_eq_ok, pure_eq_ok, cAssert_eq_ok, decide_eq_true_eq, exists_const,
        not_not.mp hstatus, true_and, @eq_comm _ reading]

/-! ## Random values -/

theorem seedRandom_eq_ok :
    seedRandom p = .ok q ↔
      (p.rndSeedCount ≠ 0 ∧ q = p) ∨
        (p.rndSeedCount = 0 ∧ ∃ reading clock, p.clock = .ok reading :: clock ∧
          q = { p with clock, trace := p.trace ++ [.srand (srandSeed reading)] }) := by
  unfold seedRandom
  split
  · next hcount => simp [hcount, eq_comm]
  · next hcount =>
      simp only [bind_eq_ok, pure_eq_ok, Prod.exists, nextSystemTime_eq_ok]
      constructor
      · rintro ⟨reading, _, ⟨clock, hclock, rfl⟩, rfl⟩
        exact .inr ⟨not_not.mp hcount, reading, clock, hclock, rfl⟩
      · rintro (⟨hne, -⟩ | ⟨-, reading, clock, hclock, rfl⟩)
        · exact absurd hne hcount
        · exact ⟨reading, _, ⟨clock, hclock, rfl⟩, rfl⟩

theorem trueRandom_eq_ok {value : UInt16} :
    trueRandom p = .ok (value, p') ↔
      ∃ q count tick, seedRandom p = .ok q ∧
        advanceCount q.rndSeedCount q.maxRndSeed = .ok count ∧
        getTickCount q.ndebug (q.draws 0).timeOfDay = .ok tick ∧
        value = toUInt16 ((q.draws 0).rand + tick) (q.draws 0).other ∧
        p' = { q with
          rndSeedCount := count
          draws := fun k => q.draws (k + 1)
          trace := q.trace ++ [.convert ((q.draws 0).rand + tick)] } := by
  simp only [trueRandom, bind_eq_ok, pure_eq_ok, Prod.mk.injEq]
  constructor
  · rintro ⟨q, hq, count, hcount, tick, htick, rfl, rfl⟩
    exact ⟨q, count, tick, hq, hcount, htick, rfl, rfl⟩
  · rintro ⟨q, count, tick, hq, hcount, htick, rfl, rfl⟩
    exact ⟨q, hq, count, hcount, tick, htick, rfl, rfl⟩

/-! ## The memory seed -/

theorem getMemorySeed_eq_ok {node : CuuidNode} :
    getMemorySeed p = .ok (node, p') ↔
      ∃ q count, loadMemorySeed p = .ok q ∧
        advanceCount q.memSeedCount q.maxMemSeed = .ok count ∧
        node = q.savedNode ∧ p' = { q with memSeedCount := count } := by
  simp only [getMemorySeed, bind_eq_ok, pure_eq_ok, Prod.mk.injEq]
  constructor
  · rintro ⟨q, hq, count, hcount, rfl, rfl⟩
    exact ⟨q, count, hq, hcount, rfl, rfl⟩
  · rintro ⟨q, count, hq, hcount, rfl, rfl⟩
    exact ⟨q, hq, count, hcount, rfl, rfl⟩

theorem loadMemorySeed_eq_ok :
    loadMemorySeed p = .ok q ↔
      (p.memSeedCount ≠ 0 ∧ q = p) ∨
        (p.memSeedCount = 0 ∧ ∃ savedNode, readSeedFile (p.files 0) = .ok savedNode ∧
          q = { p with savedNode, files := fun k => p.files (k + 1) }) := by
  unfold loadMemorySeed
  split
  · next hcount => simp [hcount, eq_comm]
  · next hcount =>
      simp only [bind_eq_ok, pure_eq_ok]
      constructor
      · rintro ⟨savedNode, hread, rfl⟩
        exact .inr ⟨not_not.mp hcount, savedNode, hread, rfl⟩
      · rintro (⟨hne, -⟩ | ⟨-, savedNode, hread, rfl⟩)
        · exact absurd hne hcount
        · exact ⟨savedNode, hread, rfl⟩

/-! ## What stays the same -/

theorem seedRandom_frame (h : seedRandom p = .ok q) :
    q = { p with clock := q.clock, trace := q.trace } := by
  rcases seedRandom_eq_ok.mp h with ⟨-, rfl⟩ | ⟨-, reading, clock, -, rfl⟩ <;> rfl

theorem trueRandom_frame {value : UInt16} (h : trueRandom p = .ok (value, p')) :
    p' = { p with
      rndSeedCount := advance p.rndSeedCount p.maxRndSeed
      clock := p'.clock
      draws := fun k => p.draws (k + 1)
      trace := p'.trace } := by
  obtain ⟨q, count, tick, hq, hcount, -, -, rfl⟩ := trueRandom_eq_ok.mp h
  rw [seedRandom_frame hq] at hcount ⊢
  rw [advanceCount_eq_ok hcount]

theorem loadMemorySeed_frame (h : loadMemorySeed p = .ok q) :
    q = { p with savedNode := q.savedNode, files := q.files } := by
  rcases loadMemorySeed_eq_ok.mp h with ⟨-, rfl⟩ | ⟨-, savedNode, -, rfl⟩ <;> rfl

theorem getMemorySeed_frame {node : CuuidNode} (h : getMemorySeed p = .ok (node, p')) :
    p' = { p with
      memSeedCount := advance p.memSeedCount p.maxMemSeed
      savedNode := p'.savedNode
      files := p'.files } := by
  obtain ⟨q, count, hq, hcount, -, rfl⟩ := getMemorySeed_eq_ok.mp h
  rw [loadMemorySeed_frame hq] at hcount ⊢
  rw [advanceCount_eq_ok hcount]

theorem getCurrentTime_frame {stamp : UInt64} (h : getCurrentTime p = .ok (stamp, p')) :
    p' = { p with
      inited := true
      timeLast := p'.timeLast
      idsThisTick := p'.idsThisTick
      clock := p'.clock } := by
  obtain ⟨q, skipped, reading, rest, hinit, -, -, rfl, -⟩ := getCurrentTime_eq_ok.mp h
  rcases initCurrentTime_eq_ok.mp hinit with ⟨hp, rfl⟩ | ⟨-, first, clock, -, rfl⟩ <;>
    simp only [takeReading] <;> split <;> simp_all

theorem getCurrentTime_clock {timestamp : UInt64}
    (hcall : getCurrentTime p = .ok (timestamp, p')) :
    ∃ before reading, p.clock = before ++ .ok reading :: p'.clock ∧
      p'.idsThisTick.toNat ≤ uidsPerTick.toNat ∧
      timestamp = reading + p'.idsThisTick.toUInt64 := by
  obtain ⟨q, skipped, reading, rest, hinit, hclock, hstops, rfl, rfl⟩ :=
    getCurrentTime_eq_ok.mp hcall
  have hids := issue_offset_le (takeReading_issue hstops.taken rest)
  rw [takeReading_clock]
  rcases initCurrentTime_eq_ok.mp hinit with ⟨-, rfl⟩ | ⟨-, first, clock, hfirst, rfl⟩
  · exact ⟨skipped, reading, hclock, hids, rfl⟩
  · refine ⟨.ok first :: skipped, reading, ?_, hids, rfl⟩
    rw [hfirst, List.cons_append]
    exact congrArg _ hclock

theorem trueRandom_clock {value : UInt16} (h : trueRandom p = .ok (value, p')) :
    p'.clock = p.clock ∨ ∃ reading, p.clock = .ok reading :: p'.clock := by
  obtain ⟨q, count, tick, hq, -, -, -, rfl⟩ := trueRandom_eq_ok.mp h
  rcases seedRandom_eq_ok.mp hq with ⟨-, rfl⟩ | ⟨-, reading, clock, hclock, rfl⟩
  · exact .inl rfl
  · exact .inr ⟨reading, hclock⟩

theorem trueRandom_trace {value : UInt16} (h : trueRandom p = .ok (value, p')) :
    ∃ seeding tick, getTickCount p.ndebug (p.draws 0).timeOfDay = .ok tick ∧
      p'.trace = p.trace ++ (seeding ++ [.convert ((p.draws 0).rand + tick)]) ∧
      (∀ event ∈ seeding, ∃ seed, event = .srand seed) ∧
      (p.rndSeedCount = 0 → seeding ≠ []) := by
  obtain ⟨q, count, tick, hq, -, htick, -, rfl⟩ := trueRandom_eq_ok.mp h
  rcases seedRandom_eq_ok.mp hq with ⟨hne, rfl⟩ | ⟨-, reading, clock, -, rfl⟩
  · exact ⟨[], tick, htick, by simp, by simp, fun hzero => absurd hzero hne⟩
  · exact ⟨[.srand (srandSeed reading)], tick, htick, by simp, by simp, by simp⟩

/-! ## Created identifiers -/

/-- The node of a REV4 identifier: the seed's bytes 3 and 4 remain. -/
def rev4Node (node : CuuidNode) (first last : UInt16) (flag subc : UInt8) : CuuidNode :=
  let node := (node.put 0 first.toUInt8).put 1 quidRev4
  let node := node.put 5 (last &&& 0xff).toUInt8
  (node.put 1 flag).put 2 subc

def rev4Identifier (timestamp : UInt64) (clockseq : UInt16) (node : CuuidNode)
    (first last : UInt16) (flag subc : UInt8) : Cuuid :=
  { headerRev4 { Cuuid.zero with version := quidRev4 } clockseq timestamp with
    node := rev4Node node first last flag subc }

def rev7Header (timestamp : UInt64) (clockseq : UInt16) : Cuuid :=
  formatQuidRev7 { Cuuid.zero with version := quidRev7 } clockseq timestamp

def rev7Identifier (timestamp : UInt64) (clockseq : UInt16) (flag subc : UInt8)
    (tag : Option TagText) : Cuuid :=
  let uid := rev7Header timestamp clockseq
  let stream := nodeStream uid.timeLow uid.clockSeqHiAndReserved uid.clockSeqLow
  { uid with node := mask (· ^^^ ·) stream (plainNode flag subc tag) }

variable {prior : Cuuid} {flag subc : UInt8} {tag : Option TagText}
  {answer : Cresult × Option Cuuid}

theorem quidCreate_rev4_eq_ok (hversion : prior.version = quidRev4) :
    quidCreate p (some prior) flag subc tag = .ok (answer, p') ↔
      ∃ timestamp p₁ node p₂ clockseq p₃ first p₄ last,
        getCurrentTime p = .ok (timestamp, p₁) ∧ getMemorySeed p₁ = .ok (node, p₂) ∧
        trueRandom p₂ = .ok (clockseq, p₃) ∧ trueRandom p₃ = .ok (first, p₄) ∧
        trueRandom p₄ = .ok (last, p') ∧
        answer = (.ok, some (rev4Identifier timestamp clockseq node first last flag subc)) := by
  simp only [quidCreate, hversion, if_true, quidCreateRev4, memvcmp_zero, cAssert_true,
    ok_bind, formatQuidRev4, bind_eq_ok, pure_eq_ok, Prod.mk.injEq, Prod.exists]
  constructor
  · rintro ⟨timestamp, p₁, htime, node, p₂, hseed, clockseq, p₃, hclock, uid, p₅,
      ⟨first, p₄, hfirst, last, p₆, hlast, rfl, rfl⟩, rfl, rfl⟩
    exact ⟨timestamp, p₁, node, p₂, clockseq, p₃, first, p₄, last, htime, hseed, hclock,
      hfirst, hlast, rfl⟩
  · rintro ⟨timestamp, p₁, node, p₂, clockseq, p₃, first, p₄, last, htime, hseed, hclock,
      hfirst, hlast, rfl⟩
    exact ⟨timestamp, p₁, htime, node, p₂, hseed, clockseq, p₃, hclock, _, _,
      ⟨first, p₄, hfirst, last, _, hlast, rfl, rfl⟩, rfl, rfl⟩

theorem assembleRev7_eq_ok {ndebug : Bool} {timestamp : UInt64} {clockseq : UInt16}
    {uid : Cuuid} :
    assembleRev7 ndebug { Cuuid.zero with version := quidRev7 } clockseq timestamp
        flag subc tag = .ok uid ↔
      (ndebug = true ∨ timestamp &&& 0xffffffff ≠ 0) ∧
        uid = rev7Identifier timestamp clockseq flag subc tag := by
  simp only [assembleRev7, bind_eq_ok, pure_eq_ok, encryptNode_eq_ok]
  constructor
  · rintro ⟨node, ⟨hkey, rfl⟩, rfl⟩
    exact ⟨hkey, rfl⟩
  · rintro ⟨hkey, rfl⟩
    exact ⟨_, ⟨hkey, rfl⟩, rfl⟩

theorem quidCreate_rev7_eq_ok (hversion : prior.version ≠ quidRev4) :
    quidCreate p (some prior) flag subc tag = .ok (answer, p') ↔
      ∃ timestamp p₁ clockseq, getCurrentTime p = .ok (timestamp, p₁) ∧
        trueRandom p₁ = .ok (clockseq, p') ∧
        (p.ndebug = true ∨ timestamp &&& 0xffffffff ≠ 0) ∧
        answer = (.ok, some (rev7Identifier timestamp clockseq flag subc tag)) := by
  have hsame : ∀ {timestamp p₁ clockseq p₂}, getCurrentTime p = .ok (timestamp, p₁) →
      trueRandom p₁ = .ok (clockseq, p₂) → p₂.ndebug = p.ndebug := by
    intro timestamp p₁ clockseq p₂ htime hclock
    rw [trueRandom_frame hclock, getCurrentTime_frame htime]
  simp only [quidCreate, hversion, if_false, quidCreateRev7, memvcmp_zero, cAssert_true,
    ok_bind, bind_eq_ok, pure_eq_ok, Prod.mk.injEq, Prod.exists, assembleRev7_eq_ok]
  constructor
  · rintro ⟨timestamp, p₁, htime, clockseq, p₂, hclock, uid, ⟨hkey, rfl⟩, rfl, rfl⟩
    rw [hsame htime hclock] at hkey
    exact ⟨timestamp, p₁, clockseq, htime, hclock, hkey, rfl⟩
  · rintro ⟨timestamp, p₁, clockseq, htime, hclock, hkey, rfl⟩
    rw [← hsame htime hclock] at hkey
    exact ⟨timestamp, p₁, htime, clockseq, _, hclock, _, ⟨hkey, rfl⟩, rfl, rfl⟩

theorem quidCreate_shape (hcall : quidCreate p (some prior) flag subc tag = .ok (answer, p')) :
    ∃ timestamp q u, getCurrentTime p = .ok (timestamp, q) ∧ answer = (.ok, some u) ∧
      ((prior.version = quidRev4 ∧ ∃ clockseq node first last,
          u = rev4Identifier timestamp clockseq node first last flag subc) ∨
        (prior.version ≠ quidRev4 ∧ ∃ clockseq,
          u = rev7Identifier timestamp clockseq flag subc tag)) := by
  by_cases hversion : prior.version = quidRev4
  · obtain ⟨timestamp, q, node, _, clockseq, _, first, _, last, ht, -, -, -, -, rfl⟩ :=
      (quidCreate_rev4_eq_ok hversion).mp hcall
    exact ⟨timestamp, q, _, ht, rfl, .inl ⟨hversion, clockseq, node, first, last, rfl⟩⟩
  · obtain ⟨timestamp, q, clockseq, ht, -, -, rfl⟩ := (quidCreate_rev7_eq_ok hversion).mp hcall
    exact ⟨timestamp, q, _, ht, rfl, .inr ⟨hversion, clockseq, rfl⟩⟩

theorem quidCreate_rest (Inv : Process → Prop)
    (hseed : ∀ p node p', Inv p → getMemorySeed p = .ok (node, p') → Inv p')
    (hdraw : ∀ p value p', Inv p → trueRandom p = .ok (value, p') → Inv p')
    (hcall : quidCreate p (some prior) flag subc tag = .ok (answer, p')) :
    ∃ timestamp q, getCurrentTime p = .ok (timestamp, q) ∧ (Inv q → Inv p') := by
  by_cases hversion : prior.version = quidRev4
  · obtain ⟨timestamp, p₁, node, p₂, clockseq, p₃, first, p₄, last, ht, hs, hc, hf, hl, -⟩ :=
      (quidCreate_rev4_eq_ok hversion).mp hcall
    refine ⟨timestamp, p₁, ht, fun h₁ => ?_⟩
    have h₃ := hdraw p₂ clockseq p₃ (hseed p₁ node p₂ h₁ hs) hc
    exact hdraw p₄ last p' (hdraw p₃ first p₄ h₃ hf) hl
  · obtain ⟨timestamp, p₁, clockseq, ht, hc, -, -⟩ :=
      (quidCreate_rev7_eq_ok hversion).mp hcall
    exact ⟨timestamp, p₁, ht, fun h₁ => hdraw p₁ clockseq p' h₁ hc⟩

theorem quidCreate_preserves (Inv : Process → Prop)
    (htime : ∀ p t p', Inv p → getCurrentTime p = .ok (t, p') → Inv p')
    (hseed : ∀ p node p', Inv p → getMemorySeed p = .ok (node, p') → Inv p')
    (hdraw : ∀ p value p', Inv p → trueRandom p = .ok (value, p') → Inv p')
    (hcall : quidCreate p (some prior) flag subc tag = .ok (answer, p')) (hinv : Inv p) :
    Inv p' := by
  obtain ⟨timestamp, q, ht, hrest⟩ := quidCreate_rest Inv hseed hdraw hcall
  exact hrest (htime p timestamp q hinv ht)

/-! ## Runs of `quid_create` -/

structure CreateRequest where
  cuuid : Cuuid
  flag : UInt8
  subc : UInt8
  tag : Option TagText
  deriving DecidableEq, Repr

def createStep (request : CreateRequest) (p : Process) :
    Except Stop ((Cresult × Option Cuuid) × Process) :=
  quidCreate p (some request.cuuid) request.flag request.subc request.tag

def plainRequest : CreateRequest := ⟨Cuuid.zero, 0, 0, none⟩

/-! ## The still platform -/

def stillStart : Process := .still (List.replicate 3 17000000000000000)

theorem stillStart_creates (flag subc : UInt8) (tag : Option TagText) :
    ∃ q p', getCurrentTime stillStart = .ok (17000000000000000, q) ∧
      q.clock = [.ok 17000000000000000] ∧ trueRandom q = .ok (0, p') ∧
      p'.trace = [.srand (srandSeed 17000000000000000), .convert 1700000000000] ∧
      quidCreate stillStart (some Cuuid.zero) flag subc tag =
        .ok ((.ok, some (rev7Identifier 17000000000000000 0 flag subc tag)), p') :=
  ⟨_, _, rfl, rfl, rfl, rfl, (quidCreate_rev7_eq_ok (by decide)).mpr
    ⟨17000000000000000, _, 0, rfl, rfl, .inr (by decide), rfl⟩⟩

def stillRev4 (flag subc : UInt8) : Cuuid :=
  rev4Identifier 17000000000000000 0 (Vector.replicate 6 1) 0 0 flag subc

theorem stillStart_creates_rev4 (flag subc : UInt8) : ∃ p',
    quidCreate stillStart (some { Cuuid.zero with version := quidRev4 }) flag subc none =
      .ok ((.ok, some (stillRev4 flag subc)), p') :=
  ⟨_, (quidCreate_rev4_eq_ok rfl).mpr
    ⟨17000000000000000, _, _, _, 0, _, 0, _, 0, rfl, rfl, rfl, rfl, rfl, rfl⟩⟩

end Quid
