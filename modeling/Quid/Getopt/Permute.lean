import Quid.Getopt.Option

/-!
# The permuted argument vector

The parser keeps the operands it has skipped as one block of the vector and moves
the block behind the options it has found since, when it meets another operand or
the end.
-/

namespace Quid

open Quid.Foundation
open Quid.Foundation.CString
open Quid.Foundation.Exchange

/-! ## The exchange -/

theorem gcdLoop_eq {fuel a b : Nat} (hb : 0 < b) (hfuel : b ≤ fuel) :
    gcdLoop fuel a b = Nat.gcd a b := by
  induction fuel generalizing a b with
  | zero => omega
  | succ fuel ih =>
      rw [gcdLoop, Nat.gcd_comm, Nat.gcd_rec]
      split
      · next hmod => rw [hmod, Nat.gcd_zero_left]
      · next hmod =>
          have hlt := Nat.mod_lt a hb
          rw [ih (by omega) (by omega), Nat.gcd_comm]

theorem permuteArgs_eq (front skipped found words : List Bytes) (hfound : found ≠ []) :
    permuteArgs front.length (front.length + skipped.length)
        (front.length + skipped.length + found.length) (front ++ skipped ++ found ++ words) =
      .ok (front ++ found ++ skipped ++ words) := by
  have hb : 0 < found.length := List.length_pos_of_ne_nil hfound
  have hnonopts : front.length + skipped.length - front.length = skipped.length := by omega
  have hopts : front.length + skipped.length + found.length - (front.length + skipped.length) =
      found.length := by omega
  have hboth : front.length + skipped.length + found.length - front.length =
      skipped.length + found.length := by omega
  have hexchange := cyclesLoop_exchange front skipped found words hfound
  unfold shift at hexchange
  simp only [permuteArgs, hnonopts, hopts, hboth, gcd, hb.ne', if_false, gcdLoop_eq hb le_rfl,
    ok_bind, ge_iff_le, hexchange]

/-! ## The vector between two calls -/

/--
Where the vector holds the option words `read`, the operands `skipped` and the
arguments to come, `words`: without operands, with the operands last, or with
the operands between option words.
-/
inductive Layout (words : List Bytes) (s : Getopt) : List Bytes → List Bytes → Prop
  | plain {read : List Bytes} (hargv : s.nargv = read ++ words) (hind : s.optind = read.length)
      (hstart : s.nonoptStart = none) (hend : s.nonoptEnd = none) : Layout words s read []
  | last {read skipped : List Bytes} (hargv : s.nargv = read ++ skipped ++ words)
      (hind : s.optind = read.length + skipped.length) (hstart : s.nonoptStart = some read.length)
      (hend : s.nonoptEnd = none) : Layout words s read skipped
  | between {front skipped found : List Bytes}
      (hargv : s.nargv = front ++ skipped ++ found ++ words)
      (hind : s.optind = front.length + skipped.length + found.length)
      (hstart : s.nonoptStart = some front.length)
      (hend : s.nonoptEnd = some (front.length + skipped.length)) :
      Layout words s (front ++ found) skipped

def Settled (s : Getopt) : Prop := ∀ nonoptEnd, s.nonoptEnd = some nonoptEnd → nonoptEnd < s.optind

variable {words read skipped : List Bytes} {s : Getopt}

theorem Settled.of_none (h : s.nonoptEnd = none) : Settled s := fun nonoptEnd hend => by
  rw [h] at hend
  cases hend

theorem permuteSkipped_eq {front found : List Bytes} (hfound : found ≠ [])
    (hargv : s.nargv = front ++ skipped ++ found ++ words)
    (hind : s.optind = front.length + skipped.length + found.length)
    (hstart : s.nonoptStart = some front.length) :
    s.permuteSkipped (front.length + skipped.length) =
      .ok (skipped.length, { s with nargv := front ++ found ++ skipped ++ words }) := by
  simp only [Getopt.permuteSkipped, hstart, hargv, hind, permuteArgs_eq _ _ _ _ hfound, ok_bind,
    Nat.add_sub_cancel_left]
  rfl

theorem found_ne_nil {front found : List Bytes} (hsettled : Settled s)
    (hind : s.optind = front.length + skipped.length + found.length)
    (hend : s.nonoptEnd = some (front.length + skipped.length)) : found ≠ [] := by
  rintro rfl
  have := hsettled _ hend
  simp at hind
  omega

structure SameCall (s s' : Getopt) : Prop where
  optreset : s'.optreset = s.optreset
  posixlyCorrect : s'.posixlyCorrect = s.posixlyCorrect
  report : s'.report = s.report

theorem SameCall.trans {s s' s'' : Getopt} (h : SameCall s s') (h' : SameCall s' s'') :
    SameCall s s'' :=
  ⟨h'.optreset.trans h.optreset, h'.posixlyCorrect.trans h.posixlyCorrect,
    h'.report.trans h.report⟩

theorem scanOperand_layout {flags : Flags} {w : Bytes} (hpermute : flags.permute = true)
    (hallargs : flags.allargs = false) (h : Layout (w :: words) s read skipped)
    (hsettled : Settled s) :
    ∃ s', scanOperand flags w s = .ok (.again s') ∧ Layout words s' read (skipped ++ [w]) ∧
      Settled s' ∧ s'.place = emsg ∧ SameCall s s' := by
  cases h with
  | plain hargv hind hstart hend =>
      refine ⟨{ s with place := emsg, nonoptStart := some s.optind, optind := s.optind + 1 }, ?_,
        .last (by simpa using hargv) (by simp [hind]) (by simp [hind]) hend,
        .of_none hend, rfl, rfl, rfl, rfl⟩
      simp [scanOperand, hallargs, hpermute, hstart]
  | last hargv hind hstart hend =>
      refine ⟨{ s with place := emsg, optind := s.optind + 1 }, ?_,
        .last (by simpa using hargv) (by simp [hind]; omega) hstart hend,
        .of_none hend, rfl, rfl, rfl, rfl⟩
      simp [scanOperand, hallargs, hpermute, hstart, hend]
  | @between front skipped found hargv hind hstart hend =>
      have hfound := found_ne_nil hsettled hind hend
      have hmove := permuteSkipped_eq (s := { s with place := emsg }) hfound hargv hind hstart
      have hform : scanOperand flags w s =
          { s with place := emsg }.permuteSkipped (front.length + skipped.length) >>= fun moved =>
            .ok (.again { moved.2 with
              nonoptStart := some (moved.2.optind - moved.1), nonoptEnd := none,
              optind := moved.2.optind + 1 }) := by
        unfold scanOperand
        simp only [hallargs, hpermute, hstart, hend]
        rfl
      refine ⟨{ s with
          place := emsg, nargv := front ++ found ++ skipped ++ w :: words,
          nonoptStart := some (s.optind - skipped.length), nonoptEnd := none,
          optind := s.optind + 1 }, ?_, .last (by simp) (by simp [hind]; omega) ?_ rfl,
        .of_none rfl, rfl, rfl, rfl, rfl⟩
      · rw [hform, hmove]
        rfl
      · simp [hind]
        omega

def Opened (s : Getopt) : Prop := s.nonoptStart ≠ none → s.nonoptEnd ≠ none

theorem Layout.opened (h : Layout words s read skipped) :
    Layout words s.opened read skipped ∧ Opened s.opened ∧
      (∀ nonoptEnd, s.opened.nonoptEnd = some nonoptEnd → nonoptEnd ≤ s.optind) ∧
      s.opened.optind = s.optind ∧ SameCall s s.opened := by
  cases h with
  | plain hargv hind hstart hend =>
      have hsame : s.opened = s := by simp [Getopt.opened, hstart]
      rw [hsame]
      exact ⟨.plain hargv hind hstart hend, fun h => absurd hstart h,
        by simp [hend], rfl, rfl, rfl, rfl⟩
  | last hargv hind hstart hend =>
      have hnew : s.opened = { s with nonoptEnd := some s.optind } := by
        simp [Getopt.opened, hstart, hend]
      rw [hnew]
      refine ⟨?_, fun _ => by simp, by simp, rfl, rfl, rfl, rfl⟩
      have hlayout : Layout words { s with nonoptEnd := some s.optind } (read ++ []) skipped :=
        .between (by simpa using hargv) (by simpa using hind) hstart (by simp [hind])
      simpa using hlayout
  | @between front skipped found hargv hind hstart hend =>
      have hsame : s.opened = s := by simp [Getopt.opened, hend]
      rw [hsame]
      refine ⟨.between hargv hind hstart hend, fun _ => by simp [hend], ?_, rfl, rfl, rfl, rfl⟩
      simp [hend, hind]

theorem Layout.take (s' : Getopt) {count : Nat} (h : Layout words s read skipped)
    (hopened : Opened s) (hcount : count ≤ words.length) (hargv' : s'.nargv = s.nargv)
    (hind' : s'.optind = s.optind + count) (hstart' : s'.nonoptStart = s.nonoptStart)
    (hend' : s'.nonoptEnd = s.nonoptEnd) :
    Layout (words.drop count) s' (read ++ words.take count) skipped := by
  have htake : (words.take count).length = count := by simpa using hcount
  cases h with
  | plain hargv hind hstart hend =>
      exact .plain (by simp [hargv', hargv]) (by rw [List.length_append, htake, hind', hind])
        (hstart'.trans hstart) (hend'.trans hend)
  | last hargv hind hstart hend => exact absurd hend (hopened (by simp [hstart]))
  | @between front skipped found hargv hind hstart hend =>
      rw [List.append_assoc front]
      refine .between (by simp [hargv', hargv]) ?_ (hstart'.trans hstart) (hend'.trans hend)
      rw [List.length_append, htake, hind', hind]
      omega

structure Finished (read operands : List Bytes) (s' : Getopt) : Prop where
  nargv : s'.nargv = read ++ operands
  optind : s'.optind = read.length
  nonoptStart : s'.nonoptStart = none
  nonoptEnd : s'.nonoptEnd = none
  place : s'.place = emsg

theorem finishScan_layout (h : Layout words s read skipped) (hopened : Opened s)
    (hsettled : Settled s) (hplace : s.place = emsg) :
    ∃ s', finishScan s = .ok (.answer (-1) s') ∧ Finished read (skipped ++ words) s' ∧
      SameCall s s' := by
  cases h with
  | plain hargv hind hstart hend =>
      refine ⟨{ s with nonoptStart := none, nonoptEnd := none }, by simp [finishScan, hend],
        ⟨by simpa using hargv, hind, rfl, rfl, hplace⟩, rfl, rfl, rfl⟩
  | last hargv hind hstart hend => exact absurd hend (hopened (by simp [hstart]))
  | @between front skipped found hargv hind hstart hend =>
      have hfound := found_ne_nil hsettled hind hend
      refine ⟨{ s with
          nargv := front ++ found ++ skipped ++ words, optind := s.optind - skipped.length,
          nonoptStart := none, nonoptEnd := none }, ?_,
        ⟨by simp, by simp [hind]; omega, rfl, rfl, hplace⟩, rfl, rfl, rfl⟩
      simp only [finishScan, hend, permuteSkipped_eq hfound hargv hind hstart, ok_bind]
      rfl

/-! ## Up to the next option -/

def startPlace (w : Bytes) : Cursor := if w.length = 1 then ⟨w, true⟩ else ⟨w.drop 1, false⟩

variable {options : Bytes} {flags : Flags} {nargc : Nat}

theorem Layout.split (h : Layout words s read skipped) :
    ∃ front, s.nargv = front ++ words ∧ s.optind = front.length := by
  cases h with
  | plain hargv hind => exact ⟨_, hargv, hind⟩
  | last hargv hind => exact ⟨_, hargv, by simpa using hind⟩
  | between hargv hind => exact ⟨_, hargv, by simp [hind]; omega⟩

theorem Layout.length (h : Layout words s read skipped) :
    s.nargv.length = read.length + skipped.length + words.length := by
  cases h with
  | plain hargv => simp [hargv]
  | last hargv => simp [hargv]; omega
  | between hargv => simp [hargv]; omega

theorem Layout.optind_eq (h : Layout words s read skipped) :
    s.optind = read.length + skipped.length := by
  cases h with
  | plain _ hind => simpa using hind
  | last _ hind => exact hind
  | between _ hind => simp [hind]; omega

theorem Layout.congr (s' : Getopt) (h : Layout words s read skipped)
    (hargv' : s'.nargv = s.nargv) (hind' : s'.optind = s.optind)
    (hstart' : s'.nonoptStart = s.nonoptStart) (hend' : s'.nonoptEnd = s.nonoptEnd) :
    Layout words s' read skipped := by
  cases h with
  | plain hargv hind hstart hend =>
      exact .plain (hargv'.trans hargv) (hind'.trans hind) (hstart'.trans hstart)
        (hend'.trans hend)
  | last hargv hind hstart hend =>
      exact .last (hargv'.trans hargv) (hind'.trans hind) (hstart'.trans hstart)
        (hend'.trans hend)
  | between hargv hind hstart hend =>
      exact .between (hargv'.trans hargv) (hind'.trans hind) (hstart'.trans hstart)
        (hend'.trans hend)

structure Between (nargc : Nat) (s : Getopt) : Prop where
  settled : Settled s
  place : s.place = emsg
  optreset : s.optreset = false
  nargc : s.nargv.length = nargc

theorem scanPass_end (options : Bytes) (flags : Flags) (h : Layout [] s read skipped)
    (hs : Between nargc s) :
    ∃ s', scanPass options flags nargc s = .ok (.answer (-1) s') ∧ Finished read skipped s' ∧
      SameCall s s' := by
  obtain ⟨front, hargv, hind⟩ := h.split
  have hlast : s.optind ≥ nargc := by rw [← hs.nargc, hargv, hind]; simp
  have hrescan : s.optreset = true ∨ s.place.text = [] := .inr (by rw [hs.place]; rfl)
  have hsame : { s with optreset := false, place := emsg } = s := by
    rw [← hs.optreset, ← hs.place]
  simp only [scanPass, hrescan, if_true, hlast, hsame]
  cases hstart : s.nonoptStart with
  | none =>
      obtain ⟨s', hfinish, hdone, hcall⟩ :=
        finishScan_layout h (fun h => absurd hstart h) hs.settled hs.place
      exact ⟨s', hfinish, by simpa using hdone, hcall⟩
  | some start =>
      cases hend : s.nonoptEnd with
      | none =>
          cases h with
          | plain hargv hind hstart' => cases hstart.symm.trans hstart'
          | last hargv hind hstart' =>
              cases hstart.symm.trans hstart'
              refine ⟨{ s with optind := read.length, nonoptStart := none, nonoptEnd := none },
                ?_, ⟨by simpa using hargv, rfl, rfl, rfl, hs.place⟩, rfl, rfl, rfl⟩
              simp only [finishScan, ← hs.optreset, ← hs.place]
          | between hargv hind hstart' hend' => cases hend.symm.trans hend'
      | some stop =>
          obtain ⟨s', hfinish, hdone, hcall⟩ :=
            finishScan_layout h (fun _ => by simp [hend]) hs.settled hs.place
          exact ⟨s', hfinish, by simpa using hdone, hcall⟩

theorem scanPass_word {w : Bytes} (h : Layout (w :: words) s read skipped)
    (hs : Between nargc s) :
    scanPass options flags nargc s =
      if isOperand options w then scanOperand flags w s else scanOption w s := by
  obtain ⟨front, hargv, hind⟩ := h.split
  have hinside : ¬s.optind ≥ nargc := by rw [← hs.nargc, hargv, hind]; simp
  have hrescan : s.optreset = true ∨ s.place.text = [] := .inr (by rw [hs.place]; rfl)
  have hsame : { s with optreset := false } = s := by rw [← hs.optreset]
  have hread : s.readArg s.optind = .ok (some w) := by
    have := readArg_append hargv (i := 0) (by simp)
    simpa [hind] using this
  simp only [scanPass, hrescan, if_true, hsame, hinside, if_false, hread, ok_bind]

theorem scan_operands {ops : List Bytes} (hpermute : flags.permute = true)
    (hallargs : flags.allargs = false) (hops : ∀ w ∈ ops, isOperand options w = true)
    (h : Layout (ops ++ words) s read skipped) (hs : Between nargc s) (fuel : Nat) :
    ∃ s', scan options flags nargc (ops.length + fuel) s = scan options flags nargc fuel s' ∧
      Layout words s' read (skipped ++ ops) ∧ Between nargc s' ∧ SameCall s s' := by
  induction ops generalizing s skipped with
  | nil => exact ⟨s, by simp, by simpa using h, hs, rfl, rfl, rfl⟩
  | cons w ops ih =>
      obtain ⟨hw, hops⟩ := List.forall_mem_cons.mp hops
      obtain ⟨s₁, hscan, hlayout, hsettled, hplace, hcall⟩ :=
        scanOperand_layout hpermute hallargs h hs.settled
      have hlength : s₁.nargv.length = nargc := by
        rw [← hs.nargc, h.length, hlayout.length]
        simp
        omega
      obtain ⟨s', hloop, hlayout', hs', hcall'⟩ := ih hops hlayout
        ⟨hsettled, hplace, hcall.optreset.trans hs.optreset, hlength⟩
      refine ⟨s', ?_, by simpa using hlayout', hs', hcall.trans hcall'⟩
      rw [List.length_cons, Nat.add_right_comm, scan, scanPass_word h hs, if_pos hw, hscan, ← hloop]
      rfl

structure Inside (nargc : Nat) (s : Getopt) : Prop where
  opened : Opened s
  nonoptEnd_le : ∀ nonoptEnd, s.nonoptEnd = some nonoptEnd → nonoptEnd ≤ s.optind
  optreset : s.optreset = false
  nargc : s.nargv.length = nargc

theorem scanOption_dashes (h : Layout (dashes :: words) s read skipped) :
    ∃ s', scanOption dashes s = .ok (.answer (-1) s') ∧
      Finished (read ++ [dashes]) (skipped ++ words) s' ∧ SameCall s s' := by
  obtain ⟨hlayout, hopened, hle, hind, hcall⟩ := h.opened
  have htaken := hlayout.take { s.opened with optind := s.opened.optind + 1, place := emsg }
    hopened (by simp : 1 ≤ (dashes :: words).length) rfl rfl rfl rfl
  obtain ⟨s', hfinish, hdone, hcall'⟩ := finishScan_layout htaken hopened (fun nonoptEnd hend => by
    have := hle nonoptEnd hend
    simp only
    omega) rfl
  refine ⟨s', ?_, hdone, hcall.trans ⟨hcall'.optreset, hcall'.posixlyCorrect, hcall'.report⟩⟩
  rw [scanOption, if_pos rfl]
  exact hfinish

theorem scanOption_word {w : Bytes} (hw : w ≠ dashes) (h : Layout (w :: words) s read skipped)
    (hs : Between nargc s) :
    ∃ s', scanOption w s = .ok (.option s') ∧ Layout (w :: words) s' read skipped ∧
      Inside nargc s' ∧ s'.place = startPlace w ∧ SameCall s s' := by
  obtain ⟨hlayout, hopened, hle, hind, hcall⟩ := h.opened
  refine ⟨{ s.opened with place := startPlace w }, ?_, hlayout.congr _ rfl rfl rfl rfl,
    ⟨hopened, by simpa [hind] using hle, hcall.optreset.trans hs.optreset, ?_⟩, rfl,
    ⟨hcall.optreset, hcall.posixlyCorrect, hcall.report⟩⟩
  · unfold scanOption startPlace
    rw [if_neg hw]
    split <;> rfl
  · rw [hlayout.length, ← hs.nargc, h.length]

/-! ## The scan of one call -/

section

variable {ops : List Bytes}

theorem scan_passes {flags : Flags} (hpermute : flags.permute = true)
    (hallargs : flags.allargs = false) (hops : ∀ w ∈ ops, isOperand options w = true)
    (h : Layout (ops ++ words) s read skipped) (hs : Between nargc s) :
    ∃ s₁ fuel, scan options flags nargc (nargc + 1) s = scan options flags nargc (fuel + 1) s₁ ∧
      Layout words s₁ read (skipped ++ ops) ∧ Between nargc s₁ ∧ SameCall s s₁ := by
  obtain ⟨s₁, hscan, hlayout, hbetween, hcall⟩ :=
    scan_operands hpermute hallargs hops h hs (nargc - ops.length + 1)
  refine ⟨s₁, nargc - ops.length, ?_, hlayout, hbetween, hcall⟩
  have hlength := h.length
  rw [hs.nargc, List.length_append] at hlength
  rw [← hscan]
  congr 1
  omega

theorem scan_done (flags : Flags) (hpermute : flags.permute = true)
    (hallargs : flags.allargs = false) (hops : ∀ w ∈ ops, isOperand options w = true)
    (h : Layout ops s read skipped) (hs : Between nargc s) :
    ∃ s', scan options flags nargc (nargc + 1) s = .ok (.answer (-1) s') ∧
      Finished read (skipped ++ ops) s' ∧ SameCall s s' := by
  obtain ⟨s₁, fuel, hscan, hlayout, hbetween, hcall⟩ :=
    scan_passes hpermute hallargs hops ((List.append_nil ops).symm ▸ h) hs
  obtain ⟨s', hpass, hdone, hcall'⟩ :=
    scanPass_end options flags hlayout hbetween
  refine ⟨s', ?_, hdone, hcall.trans hcall'⟩
  rw [hscan, scan, hpass]
  rfl

theorem dashes_not_operand : isOperand options dashes = false := by
  simp [isOperand, dashes]

theorem scan_dashes (flags : Flags) (hpermute : flags.permute = true)
    (hallargs : flags.allargs = false) (hops : ∀ w ∈ ops, isOperand options w = true)
    (h : Layout (ops ++ dashes :: words) s read skipped) (hs : Between nargc s) :
    ∃ s', scan options flags nargc (nargc + 1) s = .ok (.answer (-1) s') ∧
      Finished (read ++ [dashes]) (skipped ++ ops ++ words) s' ∧ SameCall s s' := by
  obtain ⟨s₁, fuel, hscan, hlayout, hbetween, hcall⟩ := scan_passes hpermute hallargs hops h hs
  obtain ⟨s', hpass, hdone, hcall'⟩ := scanOption_dashes hlayout
  refine ⟨s', ?_, hdone, hcall.trans hcall'⟩
  rw [hscan, scan, scanPass_word hlayout hbetween, dashes_not_operand]
  simp only [Bool.false_eq_true, if_false, hpass, ok_bind]

theorem scan_word (flags : Flags) {w : Bytes} (hpermute : flags.permute = true)
    (hallargs : flags.allargs = false) (hops : ∀ w ∈ ops, isOperand options w = true)
    (hw : isOperand options w = false) (hdashes : w ≠ dashes)
    (h : Layout (ops ++ w :: words) s read skipped) (hs : Between nargc s) :
    ∃ s', scan options flags nargc (nargc + 1) s = .ok (.option s') ∧
      Layout (w :: words) s' read (skipped ++ ops) ∧ Inside nargc s' ∧
      s'.place = startPlace w ∧ SameCall s s' := by
  obtain ⟨s₁, fuel, hscan, hlayout, hbetween, hcall⟩ := scan_passes hpermute hallargs hops h hs
  obtain ⟨s', hpass, hlayout', hinside, hplace, hcall'⟩ :=
    scanOption_word hdashes hlayout hbetween
  refine ⟨s', ?_, hlayout', hinside, hplace, hcall.trans hcall'⟩
  rw [hscan, scan, scanPass_word hlayout hbetween, hw]
  simp only [Bool.false_eq_true, if_false, hpass, ok_bind]

theorem scan_inside (hplace : s.place.text ≠ []) (hreset : s.optreset = false) (fuel : Nat) :
    scan options flags nargc (fuel + 1) s = .ok (.option s) := by
  have hstay : ¬(s.optreset = true ∨ s.place.text = []) := by simp [hplace, hreset]
  simp only [scan, scanPass, hstay, if_false, ok_bind]

end

end Quid
