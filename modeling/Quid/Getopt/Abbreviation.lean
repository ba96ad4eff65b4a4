import Quid.Getopt

/-!
# Abbreviated long options

One pass over the table decides between an exact name, an abbreviation and an
ambiguity.  An exact name wins wherever it stands; an abbreviation stands for the
first option it begins, unless two that it begins are told apart by what they do.
-/

namespace Quid

open Quid.Foundation
open Quid.Foundation.CString

def FirstAt (P : LongOption → Prop) (table : List LongOption) (m : Nat) (o : LongOption) : Prop :=
  table[m]? = some o ∧ P o ∧ ∀ j < m, ∀ x, table[j]? = some x → ¬P x

/-- A single character that is a short option as well abbreviates nothing. -/
def Abbreviates (name : Bytes) (shortToo : Bool) (o : LongOption) : Prop :=
  name <+: o.name ∧ ¬(shortToo = true ∧ name.length = 1)

theorem identicalInterpretation_iff {x y : LongOption} :
    identicalInterpretation x y = true ↔
      x.hasArg = y.hasArg ∧ x.flag = y.flag ∧ x.val = y.val := by
  simp [identicalInterpretation, and_assoc]

section

variable {P : LongOption → Prop} {table seen : List LongOption} {m : Nat} {o x : LongOption}

theorem FirstAt.append (h : FirstAt P seen m o) (rest : List LongOption) :
    FirstAt P (seen ++ rest) m o := by
  obtain ⟨hat, hP, hbefore⟩ := h
  have hm : m < seen.length := (List.getElem?_eq_some_iff.mp hat).1
  refine ⟨by rwa [List.getElem?_append_left hm], hP, fun j hj x hx => hbefore j hj x ?_⟩
  rwa [List.getElem?_append_left (hj.trans hm)] at hx

theorem firstAt_length (hnone : ∀ x ∈ seen, ¬P x) (hP : P o) (rest : List LongOption) :
    FirstAt P (seen ++ o :: rest) seen.length o := by
  refine ⟨by simp, hP, fun j hj x hx => hnone x ?_⟩
  rw [List.getElem?_append_left hj] at hx
  exact List.mem_of_getElem? hx

theorem FirstAt.unique {m' : Nat} {o' : LongOption} (h : FirstAt P table m o)
    (h' : FirstAt P table m' o') : m = m' ∧ o = o' := by
  have hm : m = m' := by
    rcases Nat.lt_trichotomy m m' with hlt | heq | hlt
    · exact absurd h.2.1 (h'.2.2 m hlt o h.1)
    · exact heq
    · exact absurd h'.2.1 (h.2.2 m' hlt o' h'.1)
  subst hm
  exact ⟨rfl, Option.some_inj.mp (h.1.symm.trans h'.1)⟩

end

/-- What the pass holds after the options `seen`, none of which has the exact name. -/
def Partial (P : LongOption → Prop) (seen : List LongOption) : Matched → Prop
  | (none, ambiguous) => ambiguous = false ∧ ∀ x ∈ seen, ¬P x
  | (some (m, o), ambiguous) => FirstAt P seen m o ∧
      (ambiguous = true ↔ ∃ x ∈ seen, P x ∧ identicalInterpretation x o = false)

section

variable {P : LongOption → Prop} {seen : List LongOption} {o : LongOption} {matched : Matched}

theorem Partial.skip (h : Partial P seen matched) (ho : ¬P o) :
    Partial P (seen ++ [o]) matched := by
  obtain ⟨_ | ⟨m, first⟩, ambiguous⟩ := matched
  · obtain ⟨hambiguous, hnone⟩ := h
    refine ⟨hambiguous, fun x hx => ?_⟩
    rcases List.mem_append.mp hx with hx | hx
    · exact hnone x hx
    · rwa [List.mem_singleton.mp hx]
  · obtain ⟨hfirst, hambiguous⟩ := h
    refine ⟨hfirst.append [o], hambiguous.trans ?_⟩
    constructor
    · rintro ⟨x, hx, hP⟩
      exact ⟨x, List.mem_append_left _ hx, hP⟩
    · rintro ⟨x, hx, hP, hdiffers⟩
      rcases List.mem_append.mp hx with hx | hx
      · exact ⟨x, hx, hP, hdiffers⟩
      · rw [List.mem_singleton.mp hx] at hP
        exact absurd hP ho

theorem Partial.partialMatch (h : Partial P seen matched) (ho : P o) :
    Partial P (seen ++ [o]) (partialMatch seen.length o matched) := by
  obtain ⟨_ | ⟨m, first⟩, ambiguous⟩ := matched
  · obtain ⟨rfl, hnone⟩ := h
    refine ⟨firstAt_length hnone ho [], ?_⟩
    simp only [Bool.false_eq_true, false_iff, not_exists]
    rintro x ⟨hx, hP, hdiffers⟩
    rcases List.mem_append.mp hx with hx | hx
    · exact hnone x hx hP
    · rw [List.mem_singleton.mp hx] at hdiffers
      simp [identicalInterpretation] at hdiffers
  · obtain ⟨hfirst, hambiguous⟩ := h
    refine ⟨hfirst.append [o], ?_⟩
    have hmore : (∃ x ∈ seen ++ [o], P x ∧ identicalInterpretation x first = false) ↔
        (∃ x ∈ seen, P x ∧ identicalInterpretation x first = false) ∨
          identicalInterpretation o first = false := by
      simp [or_and_right, exists_or, ho]
    rw [hmore, ← hambiguous]
    cases identicalInterpretation o first <;> simp

end

variable {name : Bytes} {shortToo : Bool} {table : List LongOption}

theorem matchLoop_from {name : Bytes} {seen : List LongOption} (rest : List LongOption)
    {matched : Matched}
    (hexact : ∀ x ∈ seen, x.name ≠ name) (h : Partial (Abbreviates name shortToo) seen matched) :
    (∃ m o, matchLoop name shortToo seen.length rest matched = (some (m, o), false) ∧
        FirstAt (·.name = name) (seen ++ rest) m o) ∨
      (∀ x ∈ seen ++ rest, x.name ≠ name) ∧
        Partial (Abbreviates name shortToo) (seen ++ rest)
          (matchLoop name shortToo seen.length rest matched) := by
  induction rest generalizing seen matched with
  | nil => exact .inr ⟨by simpa using hexact, by simpa [matchLoop] using h⟩
  | cons o rest ih =>
      have hlater : ∀ {matched'}, o.name ≠ name →
          Partial (Abbreviates name shortToo) (seen ++ [o]) matched' →
          (∃ m x, matchLoop name shortToo (seen.length + 1) rest matched' = (some (m, x), false) ∧
              FirstAt (·.name = name) (seen ++ o :: rest) m x) ∨
            (∀ x ∈ seen ++ o :: rest, x.name ≠ name) ∧
              Partial (Abbreviates name shortToo) (seen ++ o :: rest)
                (matchLoop name shortToo (seen.length + 1) rest matched') := by
        intro matched' ho h'
        have hboth : ∀ x ∈ seen ++ [o], x.name ≠ name := by
          simpa [or_imp, forall_and] using ⟨hexact, ho⟩
        simpa using ih hboth h'
      rw [matchLoop]
      by_cases hstarts : name <+: o.name
      · have hbool : name.isPrefixOf o.name = true := List.isPrefixOf_iff_prefix.mpr hstarts
        simp only [hbool, Bool.not_true, Bool.false_eq_true, if_false]
        by_cases hlength : o.name.length = name.length
        · have hsame : o.name = name := (hstarts.eq_of_length hlength.symm).symm
          rw [if_pos hlength]
          exact .inl ⟨_, _, rfl, firstAt_length hexact hsame rest⟩
        have hname : o.name ≠ name := fun h => hlength (by rw [h])
        rw [if_neg hlength]
        by_cases hshort : shortToo = true ∧ name.length = 1
        · rw [if_pos (by simpa using hshort)]
          exact hlater hname (h.skip fun ho => ho.2 hshort)
        · rw [if_neg (by simpa using hshort)]
          exact hlater hname (h.partialMatch ⟨hstarts, hshort⟩)
      · have hbool : name.isPrefixOf o.name = false := by
          rw [← Bool.not_eq_true, List.isPrefixOf_iff_prefix]
          exact hstarts
        simp only [hbool, Bool.not_false, if_true]
        exact hlater (fun h => hstarts (by rw [h])) (h.skip fun ho => hstarts ho.1)

theorem differ_iff {P : LongOption → Prop} {table : List LongOption} {o : LongOption}
    (ho : o ∈ table) (hP : P o) :
    (∃ x ∈ table, P x ∧ identicalInterpretation x o = false) ↔
      ∃ x ∈ table, ∃ y ∈ table, P x ∧ P y ∧ identicalInterpretation x y = false := by
  constructor
  · rintro ⟨x, hx, hPx, hdiffers⟩
    exact ⟨x, hx, o, ho, hPx, hP, hdiffers⟩
  · rintro ⟨x, hx, y, hy, hPx, hPy, hdiffers⟩
    by_contra hsame
    push Not at hsame
    have hxo := identicalInterpretation_iff.mp (by simpa using hsame x hx hPx)
    have hyo := identicalInterpretation_iff.mp (by simpa using hsame y hy hPy)
    have hxy : identicalInterpretation x y = true := identicalInterpretation_iff.mpr
      ⟨hxo.1.trans hyo.1.symm, hxo.2.1.trans hyo.2.1.symm, hxo.2.2.trans hyo.2.2.symm⟩
    simp [hxy] at hdiffers

theorem FirstAt.mem {P : LongOption → Prop} {table : List LongOption} {m : Nat} {o : LongOption}
    (h : FirstAt P table m o) : o ∈ table :=
  List.mem_of_getElem? h.1

/--
The pass selects the exact name, or else the first option abbreviated when all
that are abbreviated do the same; it is ambiguous when two of these differ.
-/
theorem matchLoop_iff (name : Bytes) (shortToo : Bool) (table : List LongOption) :
    (∀ m o, matchLoop name shortToo 0 table (none, false) = (some (m, o), false) ↔
      FirstAt (·.name = name) table m o ∨
        (∀ x ∈ table, x.name ≠ name) ∧ FirstAt (Abbreviates name shortToo) table m o ∧
          ∀ x ∈ table, Abbreviates name shortToo x → identicalInterpretation x o = true) ∧
    ((matchLoop name shortToo 0 table (none, false)).2 = true ↔
      (∀ x ∈ table, x.name ≠ name) ∧ ∃ x ∈ table, ∃ y ∈ table, Abbreviates name shortToo x ∧
        Abbreviates name shortToo y ∧ identicalInterpretation x y = false) := by
  have hstart : Partial (Abbreviates name shortToo) [] (none, false) := ⟨rfl, by simp⟩
  rcases matchLoop_from table (by simp) hstart with
    ⟨m, o, hloop, hfirst⟩ | ⟨hexact, hpartial⟩
  · simp only [List.length_nil, List.nil_append] at hloop hfirst
    have hnot : ¬∀ x ∈ table, x.name ≠ name := fun h => h o hfirst.mem hfirst.2.1
    simp only [hloop, hnot, false_and, or_false, Bool.false_eq_true, and_true]
    intro m' o'
    constructor
    · rintro ⟨⟩
      exact hfirst
    · intro h
      obtain ⟨rfl, rfl⟩ := hfirst.unique h
      rfl
  · simp only [List.length_nil, List.nil_append] at hexact hpartial
    have hnone : ∀ m o, ¬FirstAt (·.name = name) table m o := fun m o h => hexact o h.mem h.2.1
    simp only [hnone, false_or]
    rcases hloop : matchLoop name shortToo 0 table (none, false) with ⟨_ | ⟨m, o⟩, ambiguous⟩
    · rw [hloop] at hpartial
      obtain ⟨rfl, habsent⟩ := hpartial
      refine ⟨fun m o => ?_, ?_⟩
      · simp only [Prod.mk.injEq, reduceCtorEq, false_and, false_iff]
        exact fun h => habsent o h.2.1.mem h.2.1.2.1
      · simp only [Bool.false_eq_true, false_iff]
        rintro ⟨-, x, hx, y, hy, hPx, -⟩
        exact habsent x hx hPx
    · rw [hloop] at hpartial
      obtain ⟨hfirst, hambiguous⟩ := hpartial
      refine ⟨fun m' o' => ?_, ?_⟩
      · have hclear : ambiguous = false ↔
            ∀ x ∈ table, Abbreviates name shortToo x → identicalInterpretation x o = true := by
          rw [← Bool.not_eq_true, hambiguous]
          push Not
          simp
        simp only [Prod.mk.injEq, Option.some.injEq]
        constructor
        · rintro ⟨⟨rfl, rfl⟩, rfl⟩
          exact ⟨hexact, hfirst, hclear.mp rfl⟩
        · rintro ⟨-, hfirst', hsame⟩
          obtain ⟨rfl, rfl⟩ := hfirst.unique hfirst'
          exact ⟨⟨rfl, rfl⟩, hclear.mpr hsame⟩
      · rw [hambiguous, differ_iff hfirst.mem hfirst.2.1]
        exact ⟨fun h => ⟨hexact, h⟩, fun h => h.2⟩

/-! ## The answer -/

section

variable {call : Call} {options : Bytes} {hasEqual : Option Bytes} {s : Getopt}

theorem parseLongOptions_ambiguous (hsplit : splitEqual s.place.text = (name, hasEqual))
    (hsearch : (matchLoop name shortToo 0 table (none, false)).2 = true) :
    parseLongOptions call options table shortToo s = .ok (badch,
      { s with
        optind := s.optind + 1
        report := { warnx call options (ambig name) s.report with optopt := 0 } }) := by
  simp only [parseLongOptions, hsplit, hsearch, if_true]
  rfl

/-- The option has the argument it asks for: behind `=`, or as the next word. -/
def Argued (o : LongOption) (hasEqual : Option Bytes) (s : Getopt) : Prop :=
  match o.hasArg with
  | .noArgument => hasEqual = none
  | .requiredArgument => hasEqual ≠ none ∨ s.optind + 1 < s.nargv.length
  | .optionalArgument => True

theorem takeLongArgument_argued {o : LongOption} (h : Argued o hasEqual s) :
    ∃ s', takeLongArgument o hasEqual { s with optind := s.optind + 1 } = .ok s' ∧
      ¬(o.hasArg = .noArgument ∧ hasEqual.isSome = true) ∧
      ¬(o.hasArg = .requiredArgument ∧ s'.report.optarg = none) ∧
      s'.report.idx = s.report.idx := by
  unfold Argued at h
  unfold takeLongArgument
  cases harg : o.hasArg <;> cases hequal : hasEqual <;> rw [harg, hequal] at h
  case requiredArgument.none =>
    have hnext : s.optind + 1 < s.nargv.length := h.resolve_left (by simp)
    have hread : { s with optind := s.optind + 1 }.readArg (s.optind + 1) =
        .ok (some s.nargv[s.optind + 1]) := by
      simp [Getopt.readArg, hnext, hnext.le]
    simp only [hread, ok_bind]
    exact ⟨_, rfl, by simp, by simp, rfl⟩
  all_goals simp_all

theorem parseLongOptions_matched {m : Nat} {o : LongOption}
    (hsplit : splitEqual s.place.text = (name, hasEqual))
    (hsearch : matchLoop name shortToo 0 table (none, false) = (some (m, o), false))
    (hargued : Argued o hasEqual s) :
    ∃ s', parseLongOptions call options table shortToo s = .ok (answerMatch o, s') ∧
      s'.report.idx = s.report.idx.map fun _ => m := by
  obtain ⟨s₁, htake, hnone, hrequired, hidx⟩ := takeLongArgument_argued hargued
  refine ⟨{ s₁ with report := reportMatch m o s₁.report }, ?_, ?_⟩
  · simp only [parseLongOptions, hsplit, hsearch, Bool.false_eq_true, if_false, hnone, htake,
      ok_bind, hrequired]
    rfl
  · rw [← hidx]
    cases hflag : o.flag <;> simp [reportMatch, hflag]

end

end Quid
