import Quid.Platform
import Quid.Foundation.Mask

/-!
# The ChaCha stream cipher of `chacha.c`

A little-endian machine is assumed, as the source does, and the extension
`Y_EXT` is not defined.
-/

namespace Quid

open Quid.Foundation

def rotate (v c : UInt32) : UInt32 := (v <<< c) ||| (v >>> (32 - c))

def u8To32Little (b₀ b₁ b₂ b₃ : UInt8) : UInt32 :=
  b₀.toUInt32 ||| (b₁.toUInt32 <<< 8) ||| (b₂.toUInt32 <<< 16) ||| (b₃.toUInt32 <<< 24)

def u32To8Little (v : UInt32) (i : Fin 4) : UInt8 :=
  (v >>> (8 * UInt32.ofNat i.val)).toUInt8

abbrev Words := Vector UInt32 16

def quarterRound (a b c d : Fin 16) (x : Words) : Words :=
  let x := x.set a (x[a] + x[b])
  let x := x.set d (rotate (x[d] ^^^ x[a]) 16)
  let x := x.set c (x[c] + x[d])
  let x := x.set b (rotate (x[b] ^^^ x[c]) 12)
  let x := x.set a (x[a] + x[b])
  let x := x.set d (rotate (x[d] ^^^ x[a]) 8)
  let x := x.set c (x[c] + x[d])
  x.set b (rotate (x[b] ^^^ x[c]) 7)

def doubleRound (x : Words) : Words :=
  let x := quarterRound 0 4 8 12 x
  let x := quarterRound 1 5 9 13 x
  let x := quarterRound 2 6 10 14 x
  let x := quarterRound 3 7 11 15 x
  let x := quarterRound 0 5 10 15 x
  let x := quarterRound 1 6 11 12 x
  let x := quarterRound 2 7 8 13 x
  quarterRound 3 4 9 14 x

/-- `for (i = rounds; i > 0; i -= 2)`: an odd count runs one body more. -/
def scramble : Nat → Words → Words
  | 0, x => x
  | 1, x => doubleRound x
  | i + 2, x => scramble i (doubleRound x)

def doublerounds (input : Words) (rounds : UInt8) : Vector UInt8 64 :=
  let x := scramble rounds.toNat input
  let x := Vector.zipWith (· + ·) x input
  Vector.ofFn fun i : Fin 64 => u32To8Little x[i.val / 4] ⟨i.val % 4, by omega⟩

structure ChachaCtx where
  state : Words
  rounds : UInt8
  deriving DecidableEq, Repr

def sigma : Vector UInt8 16 :=
  #v[101, 120, 112, 97, 110, 100, 32, 51, 50, 45, 98, 121, 116, 101, 32, 107]

def tau : Vector UInt8 16 :=
  #v[101, 120, 112, 97, 110, 100, 32, 49, 54, 45, 98, 121, 116, 101, 32, 107]

/-- `U8TO32_LITTLE(bytes + offset)`. -/
def wordAt (bytes : List UInt8) (offset : Nat) : UInt32 :=
  u8To32Little (bytes.getD offset 0) (bytes.getD (offset + 1) 0)
    (bytes.getD (offset + 2) 0) (bytes.getD (offset + 3) 0)

def chachaInitCtx (rounds : UInt8) : Except Stop ChachaCtx :=
  if rounds < 2 then .error .abort
  else .ok ⟨Vector.replicate 16 0, rounds⟩

def chachaInit (ctx : ChachaCtx) (key : List UInt8) (keylen : UInt32)
    (iv : Vector UInt8 8) (counter : UInt32) : Except Stop ChachaCtx :=
  let iv := iv.toList
  if keylen = 256 then
    let sigma := sigma.toList
    .ok { ctx with state := #v[
      wordAt sigma 0, wordAt sigma 4, wordAt sigma 8, wordAt sigma 12,
      wordAt key 0, wordAt key 4, wordAt key 8, wordAt key 12,
      wordAt key 16, wordAt key 20, wordAt key 24, wordAt key 28,
      counter, 0, wordAt iv 0, wordAt iv 4] }
  else if keylen = 128 then
    let tau := tau.toList
    .ok { ctx with state := #v[
      wordAt tau 0, wordAt tau 4, wordAt tau 8, wordAt tau 12,
      wordAt key 0, wordAt key 4, wordAt key 8, wordAt key 12,
      wordAt key 0, wordAt key 4, wordAt key 8, wordAt key 12,
      counter, 0, wordAt iv 0, wordAt iv 4] }
  else .error .abort

def chachaNext (ctx : ChachaCtx) (m : Vector UInt8 64) :
    Vector UInt8 64 × ChachaCtx :=
  let x := doublerounds ctx.state ctx.rounds
  let state := ctx.state.set 12 (ctx.state[12] + 1)
  let state := if state[12] = 0 then state.set 13 (state[13] + 1) else state
  (Vector.ofFn fun i : Fin 64 => m[i] ^^^ x[i], { ctx with state })

/-- `input` holds the `len` bytes that are changed in place. -/
def chachaXor {len : Nat} (ctx : ChachaCtx) (input : Vector UInt8 len) :
    Except Stop (Vector UInt8 len × ChachaCtx) :=
  if h : len > 64 then .error .abort
  else
    let block := doublerounds ctx.state ctx.rounds
    let state := ctx.state.set 12 (ctx.state[12] + 1)
    let state := if state[12] = 0 then state.set 13 (state[13] + 1) else state
    .ok (Vector.ofFn fun i : Fin len => input[i] ^^^ block[i.val],
      { ctx with state })

def ChachaCtx.stream (ctx : ChachaCtx) {len : Nat} (h : len ≤ 64) : Vector UInt8 len :=
  Vector.ofFn fun i : Fin len => (doublerounds ctx.state ctx.rounds)[i.val]

theorem chachaXor_mask {len : Nat} (h : len ≤ 64) (ctx : ChachaCtx)
    (input : Vector UInt8 len) :
    ∃ ctx', chachaXor ctx input = .ok (mask (· ^^^ ·) (ctx.stream h) input, ctx') := by
  have hlen : ¬ len > 64 := by omega
  simp only [chachaXor, hlen, dite_false]
  refine ⟨_, congrArg Except.ok (Prod.ext ?_ rfl)⟩
  apply Vector.ext
  intro i hi
  simp [mask, ChachaCtx.stream]

end Quid
