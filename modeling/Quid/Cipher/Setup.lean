import Quid.Cipher.Keystream

/-!
# The cipher set-up of a header

`encrypt_node` derives key and IV from the time and clock fields of a header, and
some of the 24 bytes lose bits of them.  But each byte of these fields also
stands in the key or the IV as it is, and the initial state of the cipher
determines its key and IV, so headers share a set-up only when they agree.
-/

namespace Quid

open Quid.Foundation Quid.Foundation.Reference

variable {prekey prekey' : UInt64} {preiv1 preiv2 preiv1' preiv2' : UInt8}

/-! ## Key and IV -/

theorem keyBytes_eq_iff :
    (prekey.toUInt8 = prekey'.toUInt8 ∧ (prekey >>> 8).toUInt8 = (prekey' >>> 8).toUInt8 ∧
      (prekey >>> 16).toUInt8 = (prekey' >>> 16).toUInt8 ∧
      (prekey >>> 24).toUInt8 = (prekey' >>> 24).toUInt8) ↔
      prekey.toNat % 2 ^ 32 = prekey'.toNat % 2 ^ 32 := by
  simp only [← UInt8.toNat_inj, UInt64.toNat_toUInt8, UInt64.toNat_shiftRight,
    Nat.shiftRight_eq_div_pow, UInt64.reduceToNat, Nat.reduceMod, Nat.reducePow]
  omega

theorem stretchKey_eq_iff :
    stretchKey prekey = stretchKey prekey' ↔
      prekey.toNat % 2 ^ 32 = prekey'.toNat % 2 ^ 32 := by
  rw [← keyBytes_eq_iff]
  constructor
  · intro h
    have hbyte : ∀ i : Fin 16, (stretchKey prekey).get i = (stretchKey prekey').get i :=
      fun i => by rw [h]
    exact ⟨hbyte 3, hbyte 7, hbyte 11, hbyte 15⟩
  · rintro ⟨h₀, h₁, h₂, h₃⟩
    simp only [stretchKey, h₀, h₁, h₂, h₃]

theorem deriveIv_eq_iff :
    deriveIv preiv1 preiv2 = deriveIv preiv1' preiv2' ↔ preiv1 = preiv1' ∧ preiv2 = preiv2' := by
  constructor
  · intro h
    have hbyte : ∀ i : Fin 8, (deriveIv preiv1 preiv2).get i = (deriveIv preiv1' preiv2').get i :=
      fun i => by rw [h]
    exact ⟨hbyte 3, hbyte 7⟩
  · rintro ⟨rfl, rfl⟩
    rfl

/-! ## The context -/

theorem words_injective : Function.Injective words := by
  intro x y h
  refine Quad.ext_get fun row => Quad.ext_get fun column => ?_
  rw [← words_get, h, words_get]

theorem stateOf_injective : Function.Injective stateOf := by
  have hword : Function.Injective UInt32.ofBitVec := fun _ _ h => congrArg UInt32.toBitVec h
  exact words_injective.comp (Quad.map_injective (Quad.map_injective hword))

def nodeKey (prekey : UInt64) : Reference.Key := ⟨(stretchKey prekey).toList, .inl (by simp)⟩

theorem nodeCtx_eq (prekey : UInt64) (preiv1 preiv2 : UInt8) :
    nodeCtx prekey preiv1 preiv2 =
      .ok (streamCtx (nodeKey prekey) (deriveIv preiv1 preiv2) 4 0) := by
  have hbits : (nodeKey prekey).bits = 128 := by
    rw [Key.bits, nodeKey, Vector.length_toList]
  have hsetup := chachaInit_streamCtx (nodeKey prekey) (deriveIv preiv1 preiv2)
    (by decide : 2 ≤ (4 : UInt8).toNat) 0
  rw [hbits] at hsetup
  exact hsetup

/-- The prepared states are equal exactly when the fields they are derived from are. -/
theorem nodeCtx_state_eq_iff (prekey prekey' : UInt64) (preiv1 preiv2 preiv1' preiv2' : UInt8) :
    ∃ ctx ctx', nodeCtx prekey preiv1 preiv2 = .ok ctx ∧
      nodeCtx prekey' preiv1' preiv2' = .ok ctx' ∧
      (ctx.state = ctx'.state ↔
        prekey.toNat % 2 ^ 32 = prekey'.toNat % 2 ^ 32 ∧ preiv1 = preiv1' ∧ preiv2 = preiv2') := by
  refine ⟨_, _, nodeCtx_eq prekey preiv1 preiv2, nodeCtx_eq prekey' preiv1' preiv2', ?_⟩
  simp only [streamCtx]
  rw [stateOf_injective.eq_iff, initialState_eq_iff, nodeKey, nodeKey, Vector.toList_inj,
    stretchKey_eq_iff, deriveIv_eq_iff]
  exact and_congr_right fun _ => and_iff_left rfl

end Quid
