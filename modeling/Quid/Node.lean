import Quid.Chacha
import Quid.Cuuid

/-!
# Node encryption

`encrypt_node` stretches the time and clock fields of an identifier into a
ChaCha key and IV and combines the node with the stream.  The same call
encrypts and decrypts.
-/

namespace Quid

open Quid.Foundation

def stretchKey (prekey : UInt64) : Vector UInt8 16 :=
  let byte₀ := prekey.toUInt8
  let byte₁ := (prekey >>> 8).toUInt8
  let byte₂ := (prekey >>> 16).toUInt8
  let byte₃ := (prekey >>> 24).toUInt8
  #v[0x0, byte₀ ||| byte₂, byte₀ ^^^ byte₁, byte₀,
    0x1, byte₁ ||| byte₃, byte₁ ^^^ byte₂, byte₁,
    0x2, byte₂ ||| byte₀, byte₂ ^^^ byte₃, byte₂,
    0x3, byte₃ ||| byte₁, byte₃ ^^^ byte₀, byte₃]

def deriveIv (preiv1 preiv2 : UInt8) : Vector UInt8 8 :=
  #v[0x0, 0x1, preiv1 ^^^ preiv2, preiv1, 0x4, 0x5, preiv2 &&& preiv1, preiv2]

def nodeCtx (prekey : UInt64) (preiv1 preiv2 : UInt8) : Except Stop ChachaCtx := do
  let ctx ← chachaInitCtx 4
  chachaInit ctx (stretchKey prekey).toList 128 (deriveIv preiv1 preiv2) 0

def encryptNode (ndebug : Bool) (prekey : UInt64) (preiv1 preiv2 : UInt8)
    (node : CuuidNode) : Except Stop CuuidNode := do
  cAssert ndebug (prekey ≠ 0)
  let ctx ← nodeCtx prekey preiv1 preiv2
  let (node, _) ← chachaXor ctx node
  return node

def nodeStream (prekey : UInt64) (preiv1 preiv2 : UInt8) : Vector UInt8 6 :=
  match nodeCtx prekey preiv1 preiv2 with
  | .ok ctx => ctx.stream (by decide)
  | .error _ => Vector.replicate 6 0

theorem nodeCtx_ok (prekey : UInt64) (preiv1 preiv2 : UInt8) :
    ∃ ctx, nodeCtx prekey preiv1 preiv2 = .ok ctx :=
  ⟨_, rfl⟩

theorem encryptNode_eq_ok {ndebug : Bool} {prekey : UInt64} {preiv1 preiv2 : UInt8}
    {node node' : CuuidNode} :
    encryptNode ndebug prekey preiv1 preiv2 node = .ok node' ↔
      (ndebug = true ∨ prekey ≠ 0) ∧
        node' = mask (· ^^^ ·) (nodeStream prekey preiv1 preiv2) node := by
  obtain ⟨ctx, hctx⟩ := nodeCtx_ok prekey preiv1 preiv2
  obtain ⟨ctx', hxor⟩ := chachaXor_mask (by decide) ctx node
  simp [encryptNode, nodeStream, hctx, hxor, bind_eq_ok, @eq_comm _ node']

theorem xor_back (cell key : UInt8) : cell ^^^ key ^^^ key = cell := by
  rw [UInt8.xor_assoc, UInt8.xor_self, UInt8.xor_zero]

end Quid
