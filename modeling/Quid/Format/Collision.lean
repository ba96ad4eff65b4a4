import Quid.Format.Header

/-!
# When identifiers collide

A REV7 identifier is its header and its plain node: the header fixes the stream
the node is masked with, so comparison sees through the encryption.  The version
digit keeps the two revisions apart.
-/

namespace Quid

open Quid.Foundation

def BuiltRev7 (u : Cuuid) (timestamp : UInt64) (clockseq : UInt16) (flag subc : UInt8)
    (tag : Option TagText) : Prop :=
  ∃ p p₁ p' prior, prior.version ≠ quidRev4 ∧ getCurrentTime p = .ok (timestamp, p₁) ∧
    trueRandom p₁ = .ok (clockseq, p') ∧
    quidCreate p (some prior) flag subc tag = .ok ((.ok, some u), p')

def BuiltRev4 (u : Cuuid) : Prop :=
  ∃ p p' prior flag subc tag, prior.version = quidRev4 ∧
    quidCreate p (some prior) flag subc tag = .ok ((.ok, some u), p')

variable {timestamp timestamp' : UInt64} {clockseq clockseq' : UInt16}
  {flag flag' subc subc' : UInt8} {tag tag' : Option TagText} {u u' v : Cuuid}

/-! ## Headers and nodes -/

theorem rev7Header_carries : Carries (rev7Header timestamp clockseq) versionRev7 timestamp :=
  ⟨rfl, rfl, rfl⟩

theorem rev7Header_eq_iff :
    rev7Header timestamp clockseq = rev7Header timestamp' clockseq' ↔
      timestamp.toNat % 2 ^ 60 = timestamp'.toNat % 2 ^ 60 ∧
        clockseq &&& 0x4eff = clockseq' &&& 0x4eff := by
  constructor
  · intro h
    constructor
    · have htime := congrArg Cuuid.wireTime h
      rwa [rev7Header_carries.wireTime versionRev7_low,
        rev7Header_carries.wireTime versionRev7_low] at htime
    · exact clockFields_eq_iff.mp
        ⟨congrArg Cuuid.clockSeqLow h, congrArg Cuuid.clockSeqHiAndReserved h⟩
  · rintro ⟨htime, hclock⟩
    obtain ⟨hlow, hmid, htop⟩ := timeWords_congr htime
    obtain ⟨hseqLow, hseqHigh⟩ := clockFields_eq_iff.mpr hclock
    unfold topWord at htop
    simp only [rev7Header, formatQuidRev7, formatHeader, hlow, hmid, htop, hseqLow, hseqHigh]

theorem plainNode_eq_iff :
    plainNode flag subc tag = plainNode flag' subc' tag' ↔
      flag = flag' ∧ subc = subc' ∧ effectiveTag tag = effectiveTag tag' := by
  constructor
  · intro h
    have hcell : ∀ i : Fin 6,
        (plainNode flag subc tag).get i = (plainNode flag' subc' tag').get i :=
      fun i => by rw [h]
    refine ⟨hcell 1, hcell 2, Vector.ext fun i hi => ?_⟩
    interval_cases i
    · exact hcell 3
    · exact hcell 4
    · exact hcell 5
  · rintro ⟨rfl, rfl, htag⟩
    simp only [plainNode, htag]

theorem rev7Identifier_sameWire_iff :
    (rev7Identifier timestamp clockseq flag subc tag).SameWire
        (rev7Identifier timestamp' clockseq' flag' subc' tag') ↔
      rev7Header timestamp clockseq = rev7Header timestamp' clockseq' ∧
        plainNode flag subc tag = plainNode flag' subc' tag' := by
  constructor
  · rintro ⟨hlow, hmid, htop, hhigh, hseq, hnode⟩
    have hheader : rev7Header timestamp clockseq = rev7Header timestamp' clockseq' := by
      simp only [rev7Identifier, rev7Header, formatQuidRev7, formatHeader, Cuuid.mk.injEq]
        at hlow hmid htop hhigh hseq ⊢
      simp only [hlow, hmid, htop, hhigh, hseq, and_self]
    refine ⟨hheader, ?_⟩
    simp only [rev7Identifier, hheader] at hnode
    exact mask_injective _ xor_back _ hnode
  · rintro ⟨hheader, hnode⟩
    simp only [rev7Identifier, hheader, hnode]
    exact ⟨rfl, rfl, rfl, rfl, rfl, rfl⟩

/-! ## Comparison -/

theorem BuiltRev7.eq (h : BuiltRev7 u timestamp clockseq flag subc tag) :
    u = rev7Identifier timestamp clockseq flag subc tag := by
  obtain ⟨p, p₁, p', prior, hversion, htime, hclock, hcreate⟩ := h
  obtain ⟨t, q, c, ht, hc, -, hanswer⟩ := (quidCreate_rev7_eq_ok hversion).mp hcreate
  rw [htime] at ht
  cases ht
  rw [hclock] at hc
  cases hc
  simpa using hanswer

theorem BuiltRev4.wireVersion (h : BuiltRev4 u) :
    u.wireVersion = versionRev4.toNat / 2 ^ 12 := by
  obtain ⟨p, p', prior, flag, subc, tag, hversion, hcreate⟩ := h
  obtain ⟨_, _, _, -, hanswer, hshape⟩ := quidCreate_shape hcreate
  cases hanswer
  rcases hshape with ⟨-, _, _, _, _, rfl⟩ | ⟨hother, -⟩
  · exact rev4Identifier_carries.wireVersion versionRev4_low
  · exact absurd hversion hother

theorem builtRev7_still (flag subc : UInt8) (tag : Option TagText) :
    BuiltRev7 (rev7Identifier 17000000000000000 0 flag subc tag) 17000000000000000 0 flag subc
      tag := by
  obtain ⟨q, p', htime, -, hdraw, -, hcreate⟩ := stillStart_creates flag subc tag
  exact ⟨stillStart, q, p', Cuuid.zero, by decide, htime, hdraw, hcreate⟩

/-- The collision law: what `quid_cmp` sees of two built identifiers. -/
theorem quidCmp_built_iff (h : BuiltRev7 u timestamp clockseq flag subc tag)
    (h' : BuiltRev7 u' timestamp' clockseq' flag' subc' tag') :
    (quidCmp (some u) (some u') = .ok ↔
      timestamp.toNat % 2 ^ 60 = timestamp'.toNat % 2 ^ 60 ∧
        clockseq &&& 0x4eff = clockseq' &&& 0x4eff ∧ flag = flag' ∧ subc = subc' ∧
        effectiveTag tag = effectiveTag tag') ∧
      ∀ v, BuiltRev4 v →
        quidCmp (some v) (some u) ≠ .ok ∧ quidCmp (some u) (some v) ≠ .ok := by
  rw [h.eq, h'.eq]
  refine ⟨?_, fun v hv => ?_⟩
  · rw [quidCmp_some_ok_iff, rev7Identifier_sameWire_iff, rev7Header_eq_iff, plainNode_eq_iff,
      and_assoc]
  · have hold := hv.wireVersion
    have hnew : (rev7Identifier timestamp clockseq flag subc tag).wireVersion = 11 :=
      rev7Identifier_carries.wireVersion versionRev7_low
    have hne : v.wireVersion ≠ (rev7Identifier timestamp clockseq flag subc tag).wireVersion := by
      rw [hold, hnew]
      decide
    simp only [ne_eq, quidCmp_some_ok_iff]
    exact ⟨fun hsame => hne hsame.wireVersion, fun hsame => hne hsame.wireVersion.symm⟩

theorem quidCmp_built_still :
    BuiltRev7 (rev7Identifier 17000000000000000 0 1 2 none) 17000000000000000 0 1 2 none ∧
      BuiltRev7 (rev7Identifier 17000000000000000 0 3 2 none) 17000000000000000 0 3 2 none ∧
      (quidCmp (some (rev7Identifier 17000000000000000 0 1 2 none))
          (some (rev7Identifier 17000000000000000 0 3 2 none)) = .ok ↔
        (17000000000000000 : UInt64).toNat % 2 ^ 60 = (17000000000000000 : UInt64).toNat % 2 ^ 60 ∧
          (0 : UInt16) &&& 0x4eff = 0 &&& 0x4eff ∧ (1 : UInt8) = 3 ∧ (2 : UInt8) = 2 ∧
          effectiveTag none = effectiveTag none) := by
  have hfirst := builtRev7_still 1 2 none
  have hsecond := builtRev7_still 3 2 none
  exact ⟨hfirst, hsecond, (quidCmp_built_iff hfirst hsecond).1⟩

end Quid
