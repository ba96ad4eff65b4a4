import Mathlib.Data.Nat.Digits.Defs
import Mathlib.Tactic

/-!
# ChaCha, as it is specified

A cipher whose state is a square of four rows of four words.  One quarter round
changes four words; a column round applies it to the four columns, and a
diagonal round to the diagonals, which are the columns once row `i` has been
turned by `i` places.  The rounds are stated for any word type and any quarter
round; ChaCha is the case of 32-bit words.
-/

namespace Quid.Foundation.Reference

structure Quad (α : Type) where
  a : α
  b : α
  c : α
  d : α
  deriving DecidableEq, Repr

inductive Place where
  | a
  | b
  | c
  | d
  deriving DecidableEq, Repr

abbrev Square (α : Type) := Quad (Quad α)

namespace Quad

variable {α β : Type}

def map (f : α → β) (q : Quad α) : Quad β := ⟨f q.a, f q.b, f q.c, f q.d⟩

def get (q : Quad α) : Place → α
  | .a => q.a
  | .b => q.b
  | .c => q.c
  | .d => q.d

def set (q : Quad α) (place : Place) (value : α) : Quad α :=
  match place with
  | .a => { q with a := value }
  | .b => { q with b := value }
  | .c => { q with c := value }
  | .d => { q with d := value }

@[simp] theorem get_a (q : Quad α) : q.get .a = q.a := rfl

@[simp] theorem get_b (q : Quad α) : q.get .b = q.b := rfl

@[simp] theorem get_c (q : Quad α) : q.get .c = q.c := rfl

@[simp] theorem get_d (q : Quad α) : q.get .d = q.d := rfl

@[simp] theorem set_a (q : Quad α) (value : α) : q.set .a value = { q with a := value } := rfl

@[simp] theorem set_b (q : Quad α) (value : α) : q.set .b value = { q with b := value } := rfl

@[simp] theorem set_c (q : Quad α) (value : α) : q.set .c value = { q with c := value } := rfl

@[simp] theorem set_d (q : Quad α) (value : α) : q.set .d value = { q with d := value } := rfl

@[simp] theorem get_set_self (q : Quad α) (place : Place) (value : α) :
    (q.set place value).get place = value := by
  cases place <;> rfl

@[simp] theorem set_set (q : Quad α) (place : Place) (first second : α) :
    (q.set place first).set place second = q.set place second := by
  cases place <;> rfl

theorem ext_get {first second : Quad α} (h : ∀ place, first.get place = second.get place) :
    first = second := by
  obtain ⟨ha, hb, hc, hd⟩ : first.a = second.a ∧ first.b = second.b ∧ first.c = second.c ∧
      first.d = second.d := ⟨h .a, h .b, h .c, h .d⟩
  cases first
  cases second
  simp only at ha hb hc hd
  rw [ha, hb, hc, hd]

theorem get_map (f : α → β) (q : Quad α) (place : Place) :
    (q.map f).get place = f (q.get place) := by
  cases place <;> rfl

theorem map_injective {f : α → β} (hf : Function.Injective f) :
    Function.Injective (map f) := by
  intro first second h
  refine ext_get fun place => hf ?_
  rw [← get_map f, h, get_map]

def turn (q : Quad α) : Quad α := ⟨q.b, q.c, q.d, q.a⟩

def toList (q : Quad α) : List α := [q.a, q.b, q.c, q.d]

def add [Add α] (first second : Quad α) : Quad α :=
  ⟨first.a + second.a, first.b + second.b, first.c + second.c, first.d + second.d⟩

end Quad

/-! ## Rounds over any words -/

section Rounds

variable {α β : Type}

def transpose (x : Square α) : Square α :=
  ⟨x.map Quad.a, x.map Quad.b, x.map Quad.c, x.map Quad.d⟩

def skew (x : Square α) : Square α :=
  ⟨x.a, x.b.turn, x.c.turn.turn, x.d.turn.turn.turn⟩

def unskew (x : Square α) : Square α :=
  ⟨x.a, x.b.turn.turn.turn, x.c.turn.turn, x.d.turn⟩

def columnRound (quarter : Quad α → Quad α) (x : Square α) : Square α :=
  transpose ((transpose x).map quarter)

def diagonalRound (quarter : Quad α → Quad α) (x : Square α) : Square α :=
  unskew (columnRound quarter (skew x))

/-- A column round and a diagonal round, `rounds / 2` times. -/
def permute (quarter : Quad α → Quad α) (rounds : Nat) (x : Square α) : Square α :=
  (fun x => diagonalRound quarter (columnRound quarter x))^[rounds / 2] x

/-! A map of words that respects the quarter round respects every round. -/

variable {first : Quad α → Quad α} {second : Quad β → Quad β} {f : α → β}

theorem columnRound_semiconj (hquarter : Function.Semiconj (Quad.map f) first second) :
    Function.Semiconj (Quad.map (Quad.map f)) (columnRound first) (columnRound second) := by
  intro x
  change transpose ((transpose x).map fun q => (first q).map f) =
    transpose ((transpose x).map fun q => second (q.map f))
  rw [funext hquarter.eq]

theorem diagonalRound_semiconj (hquarter : Function.Semiconj (Quad.map f) first second) :
    Function.Semiconj (Quad.map (Quad.map f)) (diagonalRound first) (diagonalRound second) := by
  intro x
  change unskew ((columnRound first (skew x)).map (Quad.map f)) =
    unskew (columnRound second ((skew x).map (Quad.map f)))
  rw [columnRound_semiconj hquarter]

theorem permute_semiconj (hquarter : Function.Semiconj (Quad.map f) first second)
    (rounds : Nat) :
    Function.Semiconj (Quad.map (Quad.map f)) (permute first rounds) (permute second rounds) := by
  have hdouble := (diagonalRound_semiconj hquarter).comp_right (columnRound_semiconj hquarter)
  exact hdouble.iterate_right (rounds / 2)

end Rounds

/-! ## The cipher -/

abbrev Word := BitVec 32

def quarterRound (q : Quad Word) : Quad Word :=
  let a := q.a + q.b
  let d := (q.d ^^^ a).rotateLeft 16
  let c := q.c + d
  let b := (q.b ^^^ c).rotateLeft 12
  let a := a + b
  let d := (d ^^^ a).rotateLeft 8
  let c := c + d
  let b := (b ^^^ c).rotateLeft 7
  ⟨a, b, c, d⟩

def readWord (bytes : List UInt8) (i : Nat) : Word :=
  BitVec.ofNat 32 (Nat.ofDigits 256 (((bytes.drop (4 * i)).take 4).map UInt8.toNat))

def readRow (bytes : List UInt8) (i : Nat) : Quad Word :=
  ⟨readWord bytes (4 * i), readWord bytes (4 * i + 1), readWord bytes (4 * i + 2),
    readWord bytes (4 * i + 3)⟩

theorem readRow_append_left {first : List UInt8} {i : Nat} (h : 16 * i + 16 ≤ first.length)
    (second : List UInt8) : readRow (first ++ second) i = readRow first i := by
  have hword : ∀ j, j < 4 →
      readWord (first ++ second) (4 * i + j) = readWord first (4 * i + j) := by
    intro j hj
    rw [readWord, readWord, List.drop_append_of_le_length (by omega),
      List.take_append_of_le_length (by rw [List.length_drop]; omega)]
  simp only [readRow, hword 1 (by decide), hword 2 (by decide), hword 3 (by decide)]
  rw [← Nat.add_zero (4 * i), hword 0 (by decide)]

theorem readRow_append_right {first : List UInt8} {n : Nat} (h : first.length = 16 * n)
    (second : List UInt8) (i : Nat) : readRow (first ++ second) (n + i) = readRow second i := by
  have hword : ∀ j, readWord (first ++ second) (4 * (n + i) + j) = readWord second (4 * i + j) := by
    intro j
    have hplace : 4 * (4 * (n + i) + j) = first.length + 4 * (4 * i + j) := by omega
    rw [readWord, readWord, hplace, List.drop_length_add_append]
  simp only [readRow, hword]
  rw [← Nat.add_zero (4 * (n + i)), hword, Nat.add_zero]

def writeWord (word : Word) : List UInt8 :=
  [word.toNat, word.toNat / 256, word.toNat / 256 ^ 2, word.toNat / 256 ^ 3].map UInt8.ofNat

structure Key where
  bytes : List UInt8
  length_bytes : bytes.length = 16 ∨ bytes.length = 32

def Key.bits (key : Key) : Nat := 8 * key.bytes.length

def Key.expanded (key : Key) : List UInt8 :=
  if key.bytes.length = 16 then key.bytes ++ key.bytes else key.bytes

theorem Key.expanded_short {key : Key} (h : key.bytes.length = 16) :
    readRow key.expanded 0 = readRow key.bytes 0 ∧
      readRow key.expanded 1 = readRow key.bytes 0 := by
  rw [Key.expanded, if_pos h]
  exact ⟨readRow_append_left (by omega) _, readRow_append_right (n := 1) (by omega) _ 0⟩

theorem Key.expanded_long {key : Key} (h : key.bytes.length = 32) :
    key.expanded = key.bytes := by
  rw [Key.expanded, if_neg (by omega)]

def Key.constants (key : Key) : List UInt8 :=
  (if key.bytes.length = 16 then "expand 16-byte k" else "expand 32-byte k").toList.map
    fun c => UInt8.ofNat c.toNat

def initialState (key : Key) (iv : Vector UInt8 8) (number : BitVec 64) : Square Word :=
  ⟨readRow key.constants 0, readRow key.expanded 0, readRow key.expanded 1,
    ⟨number.setWidth 32, (number >>> 32).setWidth 32, readWord iv.toList 0, readWord iv.toList 1⟩⟩

def feedForward (x y : Square Word) : Square Word :=
  ⟨y.a.add x.a, y.b.add x.b, y.c.add x.c, y.d.add x.d⟩

def serialize (x : Square Word) : List UInt8 :=
  x.toList.flatMap fun row => row.toList.flatMap writeWord

def expand (rounds : Nat) (x : Square Word) : List UInt8 :=
  serialize (feedForward x (permute quarterRound rounds x))

def block (key : Key) (iv : Vector UInt8 8) (rounds : Nat) (number : BitVec 64) : List UInt8 :=
  expand rounds (initialState key iv number)

/-! ## What the initial state holds -/

theorem writeWord_readWord {bytes : List UInt8} {i : Nat} (h : 4 * i + 4 ≤ bytes.length) :
    writeWord (readWord bytes i) = (bytes.drop (4 * i)).take 4 := by
  have hlength : ((bytes.drop (4 * i)).take 4).length = 4 := by
    rw [List.length_take, List.length_drop]
    omega
  rw [readWord]
  generalize (bytes.drop (4 * i)).take 4 = four at hlength ⊢
  match four with
  | [b₀, b₁, b₂, b₃] =>
      have h₀ := b₀.toNat_lt
      have h₁ := b₁.toNat_lt
      have h₂ := b₂.toNat_lt
      have h₃ := b₃.toNat_lt
      simp only [writeWord, List.map_cons, List.map_nil, BitVec.toNat_ofNat, Nat.ofDigits_cons,
        Nat.ofDigits_nil, List.cons.injEq, ← UInt8.toNat_inj, UInt8.toNat_ofNat', Nat.reducePow]
      refine ⟨?_, ?_, ?_, ?_, trivial⟩ <;> omega

def writeRow (row : Quad Word) : List UInt8 := row.toList.flatMap writeWord

theorem writeRow_readRow {bytes : List UInt8} {i : Nat} (h : 16 * i + 16 ≤ bytes.length) :
    writeRow (readRow bytes i) = (bytes.drop (16 * i)).take 16 := by
  have hword : ∀ j, j < 4 → writeWord (readWord bytes (4 * i + j)) =
      ((bytes.drop (16 * i)).drop (4 * j)).take 4 := by
    intro j hj
    have hplace : 4 * (4 * i + j) = 16 * i + 4 * j := by omega
    rw [writeWord_readWord (by omega), List.drop_drop, hplace]
  have hfirst := hword 0 (by decide)
  rw [Nat.add_zero] at hfirst
  have hsplit : (bytes.drop (16 * i)).take (4 + (4 + (4 + 4))) =
      (bytes.drop (16 * i)).take 4 ++ (((bytes.drop (16 * i)).drop 4).take 4 ++
        (((bytes.drop (16 * i)).drop 8).take 4 ++ ((bytes.drop (16 * i)).drop 12).take 4)) := by
    rw [List.take_add, List.take_add, List.take_add]
    simp only [List.drop_drop, Nat.add_assoc, Nat.reduceAdd]
  simp only [writeRow, readRow, Quad.toList, List.flatMap_cons, List.flatMap_nil, hfirst,
    hword 1 (by decide), hword 2 (by decide), hword 3 (by decide), List.append_nil]
  exact hsplit.symm

theorem writeRow_whole {bytes : List UInt8} (h : bytes.length = 16) :
    writeRow (readRow bytes 0) = bytes := by
  rw [writeRow_readRow (by omega), Nat.mul_zero, List.drop_zero, List.take_of_length_le h.le]

theorem take_append_rest {bytes : List UInt8} {n : Nat} (h : bytes.length = n + n) :
    bytes.take n ++ (bytes.drop n).take n = bytes := by
  have hrest : (bytes.drop n).take n = bytes.drop n :=
    List.take_of_length_le (by rw [List.length_drop]; omega)
  rw [hrest, List.take_append_drop]

theorem writeRows_whole {bytes : List UInt8} (h : bytes.length = 32) :
    writeRow (readRow bytes 0) ++ writeRow (readRow bytes 1) = bytes := by
  rw [writeRow_readRow (by omega), writeRow_readRow (by omega), Nat.mul_zero, List.drop_zero,
    Nat.mul_one, take_append_rest h]

theorem writeWords_whole {bytes : List UInt8} (h : bytes.length = 8) :
    writeWord (readWord bytes 0) ++ writeWord (readWord bytes 1) = bytes := by
  rw [writeWord_readWord (by omega), writeWord_readWord (by omega), Nat.mul_zero, List.drop_zero,
    Nat.mul_one, take_append_rest h]

theorem Key.length_constants (key : Key) : key.constants.length = 16 := by
  rw [Key.constants]
  split <;> rfl

theorem Key.length_expanded (key : Key) : key.expanded.length = 32 := by
  rw [Key.expanded]
  split
  · next hshort => rw [List.length_append, hshort]
  · next hlong => exact key.length_bytes.resolve_left hlong

theorem Key.length_eq_of_constants {key key' : Key} (h : key.constants = key'.constants) :
    key.bytes.length = key'.bytes.length := by
  rcases key.length_bytes with hkey | hkey <;> rcases key'.length_bytes with hkey' | hkey' <;>
    simp [Key.constants, hkey, hkey'] at h ⊢

theorem Key.bytes_eq_of_expanded {key key' : Key} (hlength : key.bytes.length = key'.bytes.length)
    (h : key.expanded = key'.expanded) : key.bytes = key'.bytes := by
  rw [Key.expanded, Key.expanded, ← hlength] at h
  split at h
  · exact List.append_inj_left h hlength
  · exact h

theorem halves_inj {first second : BitVec 64} (hlow : first.setWidth 32 = second.setWidth 32)
    (hhigh : (first >>> 32).setWidth 32 = (second >>> 32).setWidth 32) : first = second := by
  have hlow := congrArg BitVec.toNat hlow
  have hhigh := congrArg BitVec.toNat hhigh
  have hfirst := first.isLt
  have hsecond := second.isLt
  apply BitVec.eq_of_toNat_eq
  simp [Nat.shiftRight_eq_div_pow] at hlow hhigh
  omega

theorem initialState_eq_iff {key key' : Key} {iv iv' : Vector UInt8 8}
    {number number' : BitVec 64} :
    initialState key iv number = initialState key' iv' number' ↔
      key.bytes = key'.bytes ∧ iv = iv' ∧ number = number' := by
  constructor
  · intro h
    simp only [initialState, Quad.mk.injEq] at h
    obtain ⟨hconstants, hfirst, hsecond, hlow, hhigh, hiv, hiv'⟩ := h
    have hnames : key.constants = key'.constants := by
      rw [← writeRow_whole key.length_constants, hconstants, writeRow_whole key'.length_constants]
    have hexpanded : key.expanded = key'.expanded := by
      rw [← writeRows_whole key.length_expanded, hfirst, hsecond,
        writeRows_whole key'.length_expanded]
    have hbytes : iv.toList = iv'.toList := by
      rw [← writeWords_whole iv.length_toList, hiv, hiv', writeWords_whole iv'.length_toList]
    exact ⟨Key.bytes_eq_of_expanded (Key.length_eq_of_constants hnames) hexpanded,
      Vector.toList_inj.mp hbytes, halves_inj hlow hhigh⟩
  · rintro ⟨hkey, rfl, rfl⟩
    simp only [initialState, Key.constants, Key.expanded, hkey]

end Quid.Foundation.Reference
