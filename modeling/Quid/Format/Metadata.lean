import Quid.Access
import Quid.Format.Collision

/-!
# The metadata of created identifiers

Flag and category stand in the node, plain in REV4 and under the cipher in REV7.
The REV7 node holds the tag as well, or three padding bytes when there is none.
-/

namespace Quid

open Quid.Foundation

variable {p p' q : Process} {prior u v : Cuuid} {flag subc flag' subc' : UInt8}
  {tag tag' : Option TagText} {timestamp timestamp' : UInt64}
  {clockseq clockseq' first last : UInt16} {node : CuuidNode}

/-! ## Flag and category -/

theorem rev4Identifier_metadata (ndebug : Bool) :
    let u := rev4Identifier timestamp clockseq node first last flag subc
    quidFlag ndebug (some u) = .ok flag ∧ quidCategory ndebug (some u) = .ok subc := by
  have hbytes : (rev4Node node first last flag subc).get 1 = flag ∧
      (rev4Node node first last flag subc).get 2 = subc := by
    simp [rev4Node]
  exact ⟨(metadataByte_rev4 rfl 1 ndebug).trans (congrArg Except.ok hbytes.1),
    (metadataByte_rev4 rfl 2 ndebug).trans (congrArg Except.ok hbytes.2)⟩

theorem rev7Identifier_decryptNode (hlow : timestamp &&& 0xffffffff ≠ 0) (ndebug : Bool) :
    decryptNode ndebug (rev7Identifier timestamp clockseq flag subc tag) =
      .ok (plainNode flag subc tag) :=
  encryptNode_eq_ok.mpr ⟨.inr hlow, (mask_mask _ xor_back _ _).symm⟩

theorem rev7Identifier_metadata (hlow : timestamp &&& 0xffffffff ≠ 0) (ndebug : Bool) :
    let u := rev7Identifier timestamp clockseq flag subc tag
    quidFlag ndebug (some u) = .ok flag ∧ quidCategory ndebug (some u) = .ok subc := by
  have hnode : decryptNode ndebug (rev7Identifier timestamp clockseq flag subc tag) =
      .ok (plainNode flag subc tag) := rev7Identifier_decryptNode hlow ndebug
  exact ⟨metadataByte_rev7 rfl hnode 1, metadataByte_rev7 rfl hnode 2⟩

theorem quidCreate_metadata
    (hcall : quidCreate p (some prior) flag subc tag = .ok ((.ok, some u), p'))
    (htime : getCurrentTime p = .ok (timestamp, q)) (hlow : timestamp &&& 0xffffffff ≠ 0)
    (ndebug : Bool) :
    quidFlag ndebug (some u) = .ok flag ∧ quidCategory ndebug (some u) = .ok subc := by
  obtain ⟨_, _, _, htime', hanswer, hshape⟩ := quidCreate_shape hcall
  rw [htime] at htime'
  cases htime'
  cases hanswer
  rcases hshape with ⟨-, _, _, _, _, rfl⟩ | ⟨-, _, rfl⟩
  · exact rev4Identifier_metadata ndebug
  · exact rev7Identifier_metadata hlow ndebug

/-! ## Tag -/

/-- A tag that `quid_create_rev7` takes: three bytes, none of them zero. -/
def FullTag (tag : TagText) : Prop := tag.get 0 ≠ 0 ∧ tag.get 1 ≠ 0 ∧ tag.get 2 ≠ 0

instance : DecidablePred FullTag := fun tag =>
  inferInstanceAs (Decidable (tag.get 0 ≠ 0 ∧ tag.get 1 ≠ 0 ∧ tag.get 2 ≠ 0))

def expectedTag : Option TagText → TagResult
  | none => .literal "None"
  | some tag => if FullTag tag then .tag tag else .literal "None"

theorem tag_ext_iff {first second : TagText} :
    first = second ↔
      first.get 0 = second.get 0 ∧ first.get 1 = second.get 1 ∧ first.get 2 = second.get 2 := by
  constructor
  · rintro rfl
    simp
  · rintro ⟨h₀, h₁, h₂⟩
    apply Vector.ext
    intro i hi
    interval_cases i <;> assumption

theorem effectiveTag_some (tag : TagText) :
    effectiveTag (some tag) = if FullTag tag then tag else padding := rfl

theorem rev7Identifier_tag (hlow : timestamp &&& 0xffffffff ≠ 0) (ndebug : Bool) :
    quidTag ndebug (some (rev7Identifier timestamp clockseq flag subc tag)) =
      .ok (if effectiveTag tag = padding then .literal "None" else .tag (effectiveTag tag)) := by
  have hversion : ¬ (rev7Identifier timestamp clockseq flag subc tag).version ≠ quidRev7 :=
    not_not.mpr rfl
  have hmarker : ¬ (plainNode flag subc tag).get 0 ≠ quidRev7 := not_not.mpr rfl
  have hcells : (plainNode flag subc tag).get 3 = (effectiveTag tag).get 0 ∧
      (plainNode flag subc tag).get 4 = (effectiveTag tag).get 1 ∧
      (plainNode flag subc tag).get 5 = (effectiveTag tag).get 2 := ⟨rfl, rfl, rfl⟩
  have hself : (#v[(effectiveTag tag).get 0, (effectiveTag tag).get 1, (effectiveTag tag).get 2] :
      TagText) = effectiveTag tag := tag_ext_iff.mpr ⟨rfl, rfl, rfl⟩
  simp only [quidTag, hversion, if_false, rev7Identifier_decryptNode hlow, ok_bind, hmarker,
    hcells, hself, ← tag_ext_iff]
  split <;> rfl

theorem rev7Identifier_tag_iff (hlow : timestamp &&& 0xffffffff ≠ 0) (ndebug : Bool) :
    quidTag ndebug (some (rev7Identifier timestamp clockseq flag subc tag)) =
      .ok (expectedTag tag) ↔ tag ≠ some padding := by
  rw [rev7Identifier_tag hlow]
  cases tag with
  | none => simp [expectedTag, effectiveTag]
  | some tag =>
      by_cases hfull : FullTag tag
      · rw [effectiveTag_some, expectedTag, if_pos hfull, if_pos hfull]
        by_cases hpadding : tag = padding
        · simp [hpadding]
        · simp [hpadding]
      · have hother : tag ≠ padding := by
          rintro rfl
          exact hfull (by decide)
        simp [effectiveTag_some, expectedTag, hfull, hother]

/--
A tag is kept, and told apart from the absence of a tag, exactly when it is not
the three padding bytes that stand for its absence.
-/
theorem quidTag_kept_iff (hu : BuiltRev7 u timestamp clockseq flag subc tag)
    (hv : BuiltRev7 v timestamp' clockseq' flag' subc' tag')
    (hlow : timestamp &&& 0xffffffff ≠ 0) (hlow' : timestamp' &&& 0xffffffff ≠ 0)
    (habsent : ∀ text ∈ tag', ¬ FullTag text) (ndebug : Bool) :
    (quidTag ndebug (some u) = .ok (expectedTag tag) ∧
      ((∃ text ∈ tag, FullTag text) → quidTag ndebug (some u) ≠ quidTag ndebug (some v))) ↔
      tag ≠ some padding := by
  have hnone : quidTag ndebug (some v) = .ok (.literal "None") := by
    have hother : tag' ≠ some padding := fun hpadding => habsent padding hpadding (by decide)
    have hexpected : expectedTag tag' = .literal "None" := by
      cases tag' with
      | none => rfl
      | some text => exact if_neg (habsent text rfl)
    rw [hv.eq, (rev7Identifier_tag_iff hlow' ndebug).mpr hother, hexpected]
  rw [hu.eq, rev7Identifier_tag_iff hlow ndebug]
  refine and_iff_left_of_imp fun hkept => ?_
  rintro ⟨text, rfl, hfull⟩
  rw [hnone, (rev7Identifier_tag_iff hlow ndebug).mpr hkept, expectedTag, if_pos hfull]
  simp

theorem quidTag_kept_iff_still :
    let tag : TagText := #v[67, 72, 75]
    let u := rev7Identifier 17000000000000000 0 1 2 (some tag)
    let v := rev7Identifier 17000000000000000 0 1 2 none
    (quidTag false (some u) = .ok (expectedTag (some tag)) ∧
      ((∃ text ∈ some tag, FullTag text) → quidTag false (some u) ≠ quidTag false (some v))) ↔
      some tag ≠ some padding :=
  quidTag_kept_iff (builtRev7_still 1 2 _) (builtRev7_still 1 2 none) (by decide) (by decide)
    (by simp) false

theorem padding_tag_lost :
    let u := rev7Identifier 17000000000000000 0 1 2 (some padding)
    let v := rev7Identifier 17000000000000000 0 1 2 none
    BuiltRev7 u 17000000000000000 0 1 2 (some padding) ∧
      BuiltRev7 v 17000000000000000 0 1 2 none ∧ FullTag padding ∧
      quidTag false (some u) = .ok (.literal "None") ∧
      quidTag false (some u) ≠ .ok (expectedTag (some padding)) ∧
      quidTag false (some u) = quidTag false (some v) := by
  have hanswer : ∀ tag, effectiveTag tag = padding →
      quidTag false (some (rev7Identifier 17000000000000000 0 1 2 tag)) =
        .ok (.literal "None") := by
    intro tag hpadding
    rw [rev7Identifier_tag (by decide), if_pos hpadding]
  refine ⟨builtRev7_still 1 2 _, builtRev7_still 1 2 none, by decide, hanswer _ rfl, ?_, ?_⟩
  · rw [hanswer _ rfl]
    decide
  · rw [hanswer _ rfl, hanswer _ rfl]

end Quid
