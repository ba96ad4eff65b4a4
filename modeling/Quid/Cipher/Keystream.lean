import Quid.Node
import Quid.Foundation.BitField
import Quid.Foundation.ReferenceChacha

/-!
# The keystream of `chacha.c`

The sixteen words of a context are the square of the specification, row by row.
On it the rounds of the source are the rounds of the specification, the two
counter words are the halves of the block number, and both calls that consume a
block combine their input with the bytes the specification gives for it.
-/

namespace Quid

open Quid.Foundation Quid.Foundation.Reference

/-! ## The two calls -/

def ChachaCtx.advance (ctx : ChachaCtx) : ChachaCtx :=
  (chachaNext ctx (Vector.replicate 64 0)).2

theorem chachaNext_eq (ctx : ChachaCtx) (m : Vector UInt8 64) :
    chachaNext ctx m = (mask (· ^^^ ·) (ctx.stream le_rfl) m, ctx.advance) := by
  refine Prod.ext ?_ rfl
  apply Vector.ext
  intro i hi
  simp [chachaNext, mask, ChachaCtx.stream]

theorem chachaXor_eq {len : Nat} (h : len ≤ 64) (ctx : ChachaCtx) (input : Vector UInt8 len) :
    chachaXor ctx input = .ok (mask (· ^^^ ·) (ctx.stream h) input, ctx.advance) := by
  have hlen : ¬ len > 64 := by omega
  simp only [chachaXor, hlen, dite_false]
  refine congrArg Except.ok (Prod.ext ?_ rfl)
  apply Vector.ext
  intro i hi
  simp [mask, ChachaCtx.stream]

def leading {len : Nat} (h : len ≤ 64) (m : Vector UInt8 64) : Vector UInt8 len :=
  (m.take len).cast (Nat.min_eq_left h)

theorem leading_mask {len : Nat} (h : len ≤ 64) (ctx : ChachaCtx) (m : Vector UInt8 64) :
    leading h (mask (· ^^^ ·) (ctx.stream le_rfl) m) =
      mask (· ^^^ ·) (ctx.stream h) (leading h m) := by
  apply Vector.ext
  intro i hi
  simp only [leading, mask, ChachaCtx.stream, Vector.getElem_cast, Vector.getElem_take,
    Vector.getElem_zipWith, Vector.getElem_ofFn]

/-- `chacha_xor` agrees with `chacha_next`, and from one context it undoes itself. -/
theorem chachaXor_agrees (ctx : ChachaCtx) (len : Nat) (h : len ≤ 64) :
    (∀ m : Vector UInt8 64,
      chachaXor ctx (leading h m) =
        .ok (leading h (chachaNext ctx m).1, (chachaNext ctx m).2)) ∧
    ∀ input : Vector UInt8 len, ∃ output ctx',
      chachaXor ctx input = .ok (output, ctx') ∧ chachaXor ctx output = .ok (input, ctx') := by
  constructor
  · intro m
    rw [chachaXor_eq h, chachaNext_eq, leading_mask]
  · intro input
    refine ⟨_, _, chachaXor_eq h ctx input, ?_⟩
    rw [chachaXor_eq h, mask_mask _ xor_back]

theorem chachaXor_agrees_node :
    let ctx : ChachaCtx := ⟨Vector.replicate 16 0xffffffff, 4⟩
    (∀ m : Vector UInt8 64,
      chachaXor ctx (leading (show 6 ≤ 64 by decide) m) =
        .ok (leading (by decide) (chachaNext ctx m).1, (chachaNext ctx m).2)) ∧
    ∀ input : Vector UInt8 6, ∃ output ctx',
      chachaXor ctx input = .ok (output, ctx') ∧ chachaXor ctx output = .ok (input, ctx') :=
  chachaXor_agrees _ 6 (by decide)

/-! ## The square of a context -/

def words (x : Square UInt32) : Words :=
  #v[x.a.a, x.a.b, x.a.c, x.a.d, x.b.a, x.b.b, x.b.c, x.b.d,
    x.c.a, x.c.b, x.c.c, x.c.d, x.d.a, x.d.b, x.d.c, x.d.d]

def placeNumber : Place → Nat
  | .a => 0
  | .b => 1
  | .c => 2
  | .d => 3

theorem placeNumber_lt (place : Place) : placeNumber place < 4 := by
  cases place <;> decide

def wordIndex (row column : Place) : Fin 16 :=
  ⟨4 * placeNumber row + placeNumber column, by
    have := placeNumber_lt row
    have := placeNumber_lt column
    omega⟩

theorem words_get (x : Square UInt32) (row column : Place) :
    (words x)[wordIndex row column] = (x.get row).get column := by
  cases row <;> cases column <;> rfl

theorem words_set (x : Square UInt32) (row column : Place) (value : UInt32) :
    (words x).set (wordIndex row column) value =
      words (x.set row ((x.get row).set column value)) := by
  cases row <;> cases column <;> rfl

/-! ## Rounds -/

def quarterWords (q : Quad UInt32) : Quad UInt32 :=
  let a := q.a + q.b
  let d := rotate (q.d ^^^ a) 16
  let c := q.c + d
  let b := rotate (q.b ^^^ c) 12
  let a := a + b
  let d := rotate (d ^^^ a) 8
  let c := c + d
  let b := rotate (b ^^^ c) 7
  ⟨a, b, c, d⟩

theorem quarterWords_semiconj :
    Function.Semiconj (Quad.map UInt32.ofBitVec) Reference.quarterRound quarterWords :=
  fun _ => rfl

def quarterAt (i j k l : Place) : Words → Words :=
  quarterRound (wordIndex .a i) (wordIndex .b j) (wordIndex .c k) (wordIndex .d l)

theorem quarterAt_words (x : Square UInt32) (i j k l : Place) :
    quarterAt i j k l (words x) =
      let q := quarterWords ⟨x.a.get i, x.b.get j, x.c.get k, x.d.get l⟩
      words ⟨x.a.set i q.a, x.b.set j q.b, x.c.set k q.c, x.d.set l q.d⟩ := by
  simp only [quarterAt, quarterRound, words_get, words_set, Quad.get_a, Quad.get_b, Quad.get_c,
    Quad.get_d, Quad.set_a, Quad.set_b, Quad.set_c, Quad.set_d, Quad.get_set_self, Quad.set_set,
    quarterWords]

theorem columnRound_words (x : Square UInt32) :
    quarterAt .d .d .d .d (quarterAt .c .c .c .c (quarterAt .b .b .b .b
      (quarterAt .a .a .a .a (words x)))) = words (columnRound quarterWords x) := by
  simp only [quarterAt_words]
  rfl

theorem diagonalRound_words (x : Square UInt32) :
    quarterAt .d .a .b .c (quarterAt .c .d .a .b (quarterAt .b .c .d .a
      (quarterAt .a .b .c .d (words x)))) = words (diagonalRound quarterWords x) := by
  simp only [quarterAt_words]
  rfl

theorem doubleRound_words (x : Square UInt32) :
    doubleRound (words x) =
      words (diagonalRound quarterWords (columnRound quarterWords x)) := by
  rw [← diagonalRound_words, ← columnRound_words]
  rfl

theorem scramble_words (x : Square UInt32) (half : Nat) :
    scramble (2 * half) (words x) = words (permute quarterWords (2 * half) x) := by
  have hhalf : 2 * half / 2 = half := by omega
  rw [permute, hhalf]
  induction half generalizing x with
  | zero => rfl
  | succ half ih =>
      rw [Function.iterate_succ_apply, ← ih _ (by omega), ← doubleRound_words]
      rfl

/-! ## Bytes -/

def bytesOf (word : UInt32) : List UInt8 :=
  [u32To8Little word 0, u32To8Little word 1, u32To8Little word 2, u32To8Little word 3]

theorem bytesOf_ofBitVec (word : Reference.Word) :
    bytesOf (UInt32.ofBitVec word) = writeWord word := by
  have hbyte : ∀ i : Fin 4, u32To8Little (UInt32.ofBitVec word) i =
      UInt8.ofNat (word.toNat / 256 ^ i.val) := by
    intro i
    apply UInt8.toNat_inj.mp
    fin_cases i <;> simp [u32To8Little, Nat.shiftRight_eq_div_pow]
  simp [bytesOf, writeWord, hbyte]

theorem u8To32Little_toNat (b₀ b₁ b₂ b₃ : UInt8) :
    (u8To32Little b₀ b₁ b₂ b₃).toNat =
      Nat.ofDigits 256 [b₀.toNat, b₁.toNat, b₂.toNat, b₃.toNat] := by
  have h₀ := b₀.toNat_lt
  have h₁ := b₁.toNat_lt
  have h₂ := b₂.toNat_lt
  have h₃ := b₃.toNat_lt
  have hlow : b₀.toNat ||| b₁.toNat * 2 ^ 8 = b₁.toNat * 2 ^ 8 + b₀.toNat := by
    rw [Nat.or_comm, BitField.or_eq_add (k := 8) (by omega) (by omega)]
  have hmiddle : b₁.toNat * 2 ^ 8 + b₀.toNat ||| b₂.toNat * 2 ^ 16 =
      b₂.toNat * 2 ^ 16 + (b₁.toNat * 2 ^ 8 + b₀.toNat) := by
    rw [Nat.or_comm, BitField.or_eq_add (k := 16) (by omega) (by omega)]
  have hhigh : b₂.toNat * 2 ^ 16 + (b₁.toNat * 2 ^ 8 + b₀.toNat) ||| b₃.toNat * 2 ^ 24 =
      b₃.toNat * 2 ^ 24 + (b₂.toNat * 2 ^ 16 + (b₁.toNat * 2 ^ 8 + b₀.toNat)) := by
    rw [Nat.or_comm, BitField.or_eq_add (k := 24) (by omega) (by omega)]
  have hvalue : (u8To32Little b₀ b₁ b₂ b₃).toNat =
      b₀.toNat ||| b₁.toNat * 2 ^ 8 ||| b₂.toNat * 2 ^ 16 ||| b₃.toNat * 2 ^ 24 := by
    simp only [u8To32Little, UInt32.toNat_or, UInt32.toNat_shiftLeft, UInt8.toNat_toUInt32,
      Nat.shiftLeft_eq]
    simp only [UInt32.reduceToNat, Nat.reduceMod, Nat.reducePow]
    rw [Nat.mod_eq_of_lt (by omega), Nat.mod_eq_of_lt (by omega), Nat.mod_eq_of_lt (by omega)]
  rw [hvalue, hlow, hmiddle, hhigh]
  simp only [Nat.ofDigits_cons, Nat.ofDigits_nil]
  omega

theorem wordAt_eq {bytes : List UInt8} {i : Nat} (h : 4 * i + 4 ≤ bytes.length) :
    wordAt bytes (4 * i) = UInt32.ofBitVec (readWord bytes i) := by
  have hfour : ((bytes.drop (4 * i)).take 4) = [bytes.getD (4 * i) 0, bytes.getD (4 * i + 1) 0,
      bytes.getD (4 * i + 2) 0, bytes.getD (4 * i + 3) 0] := by
    obtain ⟨first, rest, rfl, hlength⟩ : ∃ first rest, bytes = first ++ rest ∧
        first.length = 4 * i := ⟨_, _, (List.take_append_drop (4 * i) bytes).symm, by simp; omega⟩
    rw [← hlength] at h ⊢
    match rest with
    | b₀ :: b₁ :: b₂ :: b₃ :: rest => simp [List.getD_eq_getElem?_getD]
    | [] | [_] | [_, _] | [_, _, _] => simp at h
  rw [readWord, hfour]
  apply UInt32.toNat_inj.mp
  rw [wordAt, u8To32Little_toNat]
  exact (Nat.mod_eq_of_lt (by rw [← u8To32Little_toNat]; exact UInt32.toNat_lt _)).symm

theorem doublerounds_toList {input : Words} {rounds : UInt8} {z : Square UInt32}
    (hsum : Vector.zipWith (· + ·) (scramble rounds.toNat input) input = words z) :
    (doublerounds input rounds).toList =
      z.toList.flatMap fun row => row.toList.flatMap bytesOf := by
  simp only [doublerounds, hsum, Vector.toList_ofFn]
  rfl

theorem add_words (x y : Square UInt32) :
    Vector.zipWith (· + ·) (words y) (words x) =
      words ⟨y.a.add x.a, y.b.add x.b, y.c.add x.c, y.d.add x.d⟩ := by
  simp [words, Quad.add]

def stateOf (x : Square Reference.Word) : Words :=
  words (x.map (Quad.map UInt32.ofBitVec))

theorem doublerounds_stateOf (x : Square Reference.Word) {rounds : UInt8}
    (heven : rounds.toNat % 2 = 0) :
    (doublerounds (stateOf x) rounds).toList = expand rounds.toNat x := by
  have hrounds : rounds.toNat = 2 * (rounds.toNat / 2) := by omega
  have hscramble : scramble rounds.toNat (stateOf x) =
      stateOf (permute Reference.quarterRound rounds.toNat x) := by
    rw [stateOf, stateOf, permute_semiconj quarterWords_semiconj, hrounds, scramble_words]
  have hbytes : bytesOf ∘ UInt32.ofBitVec = writeWord := funext bytesOf_ofBitVec
  have hsum := add_words (x.map (Quad.map UInt32.ofBitVec))
    ((permute Reference.quarterRound rounds.toNat x).map (Quad.map UInt32.ofBitVec))
  rw [← stateOf, ← stateOf, ← hscramble] at hsum
  rw [doublerounds_toList hsum, expand, serialize, ← hbytes]
  generalize permute Reference.quarterRound rounds.toNat x = y
  rfl

/-! ## Setting up a context -/

theorem readRow_words {bytes : List UInt8} {i : Nat} (h : 16 * i + 16 ≤ bytes.length) :
    (readRow bytes i).map UInt32.ofBitVec =
      ⟨wordAt bytes (16 * i), wordAt bytes (16 * i + 4), wordAt bytes (16 * i + 8),
        wordAt bytes (16 * i + 12)⟩ := by
  have hword : ∀ j, j < 4 → UInt32.ofBitVec (readWord bytes (4 * i + j)) =
      wordAt bytes (16 * i + 4 * j) := by
    intro j hj
    rw [← wordAt_eq (by omega), Nat.mul_add, ← Nat.mul_assoc]
  have hfirst := hword 0 (by decide)
  rw [Nat.add_zero] at hfirst
  simp only [readRow, Quad.map, hfirst, hword 1 (by decide), hword 2 (by decide),
    hword 3 (by decide), Nat.mul_zero, Nat.mul_one, Nat.add_zero, Nat.reduceMul]

theorem stateOf_initialState (key : Reference.Key) (iv : Vector UInt8 8) (counter : UInt32) :
    stateOf (initialState key iv (BitVec.ofNat 64 counter.toNat)) =
      words ⟨(readRow key.constants 0).map UInt32.ofBitVec,
        (readRow key.expanded 0).map UInt32.ofBitVec,
        (readRow key.expanded 1).map UInt32.ofBitVec,
        ⟨counter, 0, wordAt iv.toList 0, wordAt iv.toList 4⟩⟩ := by
  have hlow : UInt32.ofBitVec ((BitVec.ofNat 64 counter.toNat).setWidth 32) = counter := by
    apply UInt32.toNat_inj.mp
    simp
  have hhigh : UInt32.ofBitVec (((BitVec.ofNat 64 counter.toNat) >>> 32).setWidth 32) = 0 := by
    apply UInt32.toNat_inj.mp
    have := counter.toNat_lt
    simp [Nat.shiftRight_eq_div_pow]
    omega
  have hiv : ∀ i, i < 2 → UInt32.ofBitVec (readWord iv.toList i) = wordAt iv.toList (4 * i) :=
    fun i hi => (wordAt_eq (by simp; omega)).symm
  simp only [stateOf, initialState, Quad.map, hlow, hhigh, hiv 0 (by decide), hiv 1 (by decide),
    Nat.mul_zero, Nat.mul_one]

theorem chachaInit_stateOf (ctx : ChachaCtx) (key : Reference.Key) (iv : Vector UInt8 8)
    (counter : UInt32) :
    chachaInit ctx key.bytes (UInt32.ofNat key.bits) iv counter =
      .ok { ctx with state := stateOf (initialState key iv (BitVec.ofNat 64 counter.toNat)) } := by
  rw [stateOf_initialState]
  rcases key.length_bytes with hshort | hlong
  · have hconstants : key.constants = tau.toList := by
      rw [Key.constants, if_pos hshort]
      decide
    obtain ⟨hfirst, hsecond⟩ := Key.expanded_short hshort
    rw [hfirst, hsecond, hconstants, readRow_words (by simp), readRow_words (by omega), Key.bits,
      hshort]
    rfl
  · have hconstants : key.constants = sigma.toList := by
      rw [Key.constants, if_neg (by omega)]
      decide
    rw [Key.expanded_long hlong, hconstants, readRow_words (by simp), readRow_words (by omega),
      readRow_words (by omega), Key.bits, hlong]
    rfl

/-! ## Runs of calls -/

inductive CipherCall where
  | next (m : Vector UInt8 64)
  | xor {len : Nat} (input : Vector UInt8 len)

def CipherCall.input : CipherCall → List UInt8
  | .next m => m.toList
  | .xor input => input.toList

def cipherStep : CipherCall → ChachaCtx → Except Stop (List UInt8 × ChachaCtx)
  | .next m, ctx =>
      let (c, ctx) := chachaNext ctx m
      .ok (c.toList, ctx)
  | .xor input, ctx => do
      let (output, ctx) ← chachaXor ctx input
      return (output.toList, ctx)

theorem mask_toList (ctx : ChachaCtx) {len : Nat} (h : len ≤ 64) (input : Vector UInt8 len) :
    (mask (· ^^^ ·) (ctx.stream h) input).toList =
      input.toList.zipWith (· ^^^ ·) (doublerounds ctx.state ctx.rounds).toList := by
  apply List.ext_getElem
  · simp [h]
  · intro i hleft hright
    simp [mask, ChachaCtx.stream]

theorem cipherStep_eq {call : CipherCall} (h : call.input.length ≤ 64) (ctx : ChachaCtx) :
    cipherStep call ctx =
      .ok (call.input.zipWith (· ^^^ ·) (doublerounds ctx.state ctx.rounds).toList,
        ctx.advance) := by
  cases call with
  | next m =>
      simp only [cipherStep, chachaNext_eq, mask_toList, CipherCall.input]
  | xor input =>
      rw [CipherCall.input, Vector.length_toList] at h
      simp only [cipherStep, chachaXor_eq h, ok_bind, mask_toList, CipherCall.input]
      rfl

theorem halves_succ (number : BitVec 64) :
    (number + 1).setWidth 32 = number.setWidth 32 + 1 ∧
      ((number + 1) >>> 32).setWidth 32 =
        if number.setWidth 32 + 1 = 0#32 then (number >>> 32).setWidth 32 + 1
        else (number >>> 32).setWidth 32 := by
  have hbound := number.isLt
  constructor
  · apply BitVec.eq_of_toNat_eq
    simp
  · split
    next hcarry =>
      have hcarry := congrArg BitVec.toNat hcarry
      apply BitVec.eq_of_toNat_eq
      simp [Nat.shiftRight_eq_div_pow] at hcarry ⊢
      omega
    next hcarry =>
      have hcarry := mt BitVec.eq_of_toNat_eq hcarry
      apply BitVec.eq_of_toNat_eq
      simp [Nat.shiftRight_eq_div_pow] at hcarry ⊢
      omega

theorem advance_words (x : Square UInt32) (rounds : UInt8) :
    ChachaCtx.advance ⟨words x, rounds⟩ =
      ⟨words { x with d := { x.d with
        a := x.d.a + 1
        b := if x.d.a + 1 = 0 then x.d.b + 1 else x.d.b } }, rounds⟩ := by
  change ChachaCtx.mk (if x.d.a + 1 = 0
      then words { x with d := { x.d with a := x.d.a + 1, b := x.d.b + 1 } }
      else words { x with d := { x.d with a := x.d.a + 1 } }) rounds = _
  split <;> rfl

def streamCtx (key : Reference.Key) (iv : Vector UInt8 8) (rounds : UInt8) (number : Nat) :
    ChachaCtx :=
  ⟨stateOf (initialState key iv (BitVec.ofNat 64 number)), rounds⟩

section

variable (key : Reference.Key) (iv : Vector UInt8 8) (rounds : UInt8)

theorem streamCtx_advance (number : Nat) :
    (streamCtx key iv rounds number).advance = streamCtx key iv rounds (number + 1) := by
  obtain ⟨hlow, hhigh⟩ := halves_succ (BitVec.ofNat 64 number)
  have hnumber : BitVec.ofNat 64 (number + 1) = BitVec.ofNat 64 number + 1 := BitVec.ofNat_add ..
  have hcarry : ∀ low : BitVec 32, UInt32.ofBitVec low + 1 = 0 ↔ low + 1 = 0#32 :=
    fun low => UInt32.toBitVec_inj.symm
  rw [streamCtx, stateOf, advance_words, streamCtx, stateOf, hnumber, initialState, initialState,
    hlow, hhigh]
  simp only [Quad.map, hcarry]
  split <;> rfl

theorem cipherStep_streamCtx (heven : rounds.toNat % 2 = 0) {call : CipherCall}
    (hcall : call.input.length ≤ 64) (number : Nat) :
    cipherStep call (streamCtx key iv rounds number) =
      .ok (call.input.zipWith (· ^^^ ·) (block key iv rounds.toNat (BitVec.ofNat 64 number)),
        streamCtx key iv rounds (number + 1)) := by
  rw [cipherStep_eq hcall, streamCtx_advance, block, ← doublerounds_stateOf _ heven]
  rfl

theorem streamCtx_frame (first second : Nat) (i : Fin 16) (hlow : i.val ≠ 12) (hhigh : i.val ≠ 13) :
    (streamCtx key iv rounds first).state.get i =
      (streamCtx key iv rounds second).state.get i := by
  fin_cases i <;> first | rfl | contradiction

end

theorem chachaInit_streamCtx (key : Reference.Key) (iv : Vector UInt8 8) {rounds : UInt8}
    (hrounds : 2 ≤ rounds.toNat) (counter : UInt32) :
    (do
      let ctx ← chachaInitCtx rounds
      chachaInit ctx key.bytes (UInt32.ofNat key.bits) iv counter) =
      .ok (streamCtx key iv rounds counter.toNat) := by
  have hsetup : ¬ rounds < 2 := by
    rw [UInt8.lt_iff_toNat_lt]
    exact Nat.not_lt.mpr hrounds
  rw [chachaInitCtx, if_neg hsetup, ok_bind, chachaInit_stateOf]
  rfl

/--
Whatever calls consume the blocks, the `k`-th one combines its input with the
block of the specification at the `k`-th number from the starting counter.
-/
theorem keystream_correct (key : Reference.Key) (iv : Vector UInt8 8) (counter : UInt32)
    (rounds : UInt8) (hrounds : 2 ≤ rounds.toNat) (heven : rounds.toNat % 2 = 0)
    (calls : List CipherCall) (hfit : ∀ call ∈ calls, call.input.length ≤ 64) :
    ∃ ctx ctx',
      (do
        let ctx ← chachaInitCtx rounds
        chachaInit ctx key.bytes (UInt32.ofNat key.bits) iv counter) = .ok ctx ∧
      run cipherStep calls ctx =
        .ok (calls.mapIdx fun k call => call.input.zipWith (· ^^^ ·)
          (block key iv rounds.toNat (BitVec.ofNat 64 (counter.toNat + k))), ctx') ∧
      ctx'.rounds = ctx.rounds ∧
      ∀ i : Fin 16, i.val ≠ 12 → i.val ≠ 13 → ctx'.state.get i = ctx.state.get i := by
  have hstep : ∀ k call ctx, call.input.length ≤ 64 →
      ctx = streamCtx key iv rounds (counter.toNat + k) →
      ∃ ctx', cipherStep call ctx = .ok (call.input.zipWith (· ^^^ ·)
          (block key iv rounds.toNat (BitVec.ofNat 64 (counter.toNat + k))), ctx') ∧
        ctx' = streamCtx key iv rounds (counter.toNat + (k + 1)) := by
    rintro k call ctx hcall rfl
    exact ⟨_, cipherStep_streamCtx key iv rounds heven hcall _, rfl⟩
  obtain ⟨ctx', hrun, hstands⟩ := run_eq_mapIdx (k := 0)
    (fun k ctx => ctx = streamCtx key iv rounds (counter.toNat + k)) _ hstep hfit rfl
  refine ⟨_, ctx', chachaInit_streamCtx key iv hrounds counter, ?_, ?_, ?_⟩
  · simpa using hrun
  · rw [hstands]
    rfl
  · intro i hlow hhigh
    rw [hstands]
    exact streamCtx_frame key iv rounds _ _ i hlow hhigh

theorem keystream_correct_carry :
    let key : Reference.Key := ⟨List.replicate 16 7, by decide⟩
    let iv : Vector UInt8 8 := Vector.replicate 8 1
    let calls : List CipherCall := [.next (Vector.replicate 64 0), .xor (Vector.replicate 6 9)]
    ∃ ctx ctx',
      (do
        let ctx ← chachaInitCtx 4
        chachaInit ctx key.bytes (UInt32.ofNat key.bits) iv 0xffffffff) = .ok ctx ∧
      run cipherStep calls ctx =
        .ok (calls.mapIdx fun k call => call.input.zipWith (· ^^^ ·)
          (block key iv 4 (BitVec.ofNat 64 (0xffffffff + k))), ctx') ∧
      ctx'.rounds = ctx.rounds ∧
      ∀ i : Fin 16, i.val ≠ 12 → i.val ≠ 13 → ctx'.state.get i = ctx.state.get i :=
  keystream_correct _ _ 0xffffffff 4 (by decide) (by decide) _ (by simp [CipherCall.input])

end Quid
