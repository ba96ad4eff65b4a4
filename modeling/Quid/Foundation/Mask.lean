import Mathlib.Data.Vector.Basic
import Mathlib.Tactic

/-!
# Masking a block with a stream

A stream cipher combines every cell of a block with the cell of the stream at
the same place.  When combining twice with one stream cell gives the cell back,
masking is its own inverse, so blocks that were masked with one stream are equal
exactly when the plain blocks are.
-/

namespace Quid.Foundation

variable {α : Type} {n : Nat} (combine : α → α → α)

def mask (stream block : Vector α n) : Vector α n :=
  Vector.zipWith combine block stream

variable (hback : ∀ cell key, combine (combine cell key) key = cell)

include hback in
theorem mask_mask (stream block : Vector α n) :
    mask combine stream (mask combine stream block) = block := by
  apply Vector.ext
  intro i hi
  simp [mask, hback]

include hback in
theorem mask_injective (stream : Vector α n) :
    Function.Injective (mask combine stream) := by
  intro first second h
  have hmask := congrArg (mask combine stream) h
  rwa [mask_mask combine hback, mask_mask combine hback] at hmask

end Quid.Foundation
