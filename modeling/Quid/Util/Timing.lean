import Quid.Util
import Quid.Windows

/-!
# Time in the utility

The delay between two identifiers and, on Windows, the clock that measures a run.
-/

namespace Quid

open Quid.Foundation

/-! ## The delay -/

structure Timespec.Valid (tm : Timespec) : Prop where
  sec : 0 ≤ tm.tvSec
  nsec : 0 ≤ tm.tvNsec
  nsec_le : tm.tvNsec ≤ 999999999

def Timespec.nanoseconds (tm : Timespec) : Int := tm.tvSec * 10 ^ 9 + tm.tvNsec

def Waits (delay : Int) : Prop :=
  (delay = 0 ∧ mainDelay delay = .ok none) ∨
    ∃ tm, mainDelay delay = .ok (some tm) ∧ tm.Valid ∧ tm.nanoseconds = delay * 10 ^ 6

theorem mainDelay_short {delay : Int} (hpos : 0 < delay) (hmax : delay ≤ 2147483) :
    mainDelay delay = .ok (some ⟨0, delay * 10 ^ 6⟩) := by
  have hdelay : delay ≠ 0 := by omega
  have hint : intMin ≤ delay * 1000 ∧ delay * 1000 ≤ intMax := by
    unfold intMin intMax
    omega
  have hint64 : -9223372036854775808 ≤ delay * 1000 * 1000 ∧
      delay * 1000 * 1000 ≤ 9223372036854775807 := by omega
  have hnsec : delay * 1000 * 1000 = delay * 10 ^ 6 := by ring
  rw [mainDelay, if_pos hdelay, intMul, if_pos hint, ok_bind, qusleep, int64Mul, if_pos hint64,
    hnsec]
  rfl

theorem mainDelay_long {delay : Int} (hlong : 2147483 < delay) :
    mainDelay delay = .error .overflow := by
  have hdelay : delay ≠ 0 := by omega
  have hint : ¬ (intMin ≤ delay * 1000 ∧ delay * 1000 ≤ intMax) := by
    unfold intMin intMax
    omega
  rw [mainDelay, if_pos hdelay, intMul, if_neg hint]
  rfl

theorem waits_short_iff {delay : Int} (hpos : 0 < delay) (hmax : delay ≤ 2147483) :
    Waits delay ↔ delay ≤ 999 := by
  have hanswer := mainDelay_short hpos hmax
  constructor
  · rintro (⟨rfl, -⟩ | ⟨tm, htm, hvalid, -⟩)
    · omega
    · rw [hanswer] at htm
      cases htm
      have hbound : delay * 10 ^ 6 ≤ 999999999 := hvalid.nsec_le
      omega
  · intro hle
    refine .inr ⟨_, hanswer, ⟨le_rfl, ?_, ?_⟩, ?_⟩
    · change 0 ≤ delay * 10 ^ 6
      omega
    · change delay * 10 ^ 6 ≤ 999999999
      omega
    · simp [Timespec.nanoseconds]

theorem not_waits_long {delay : Int} (hlong : 2147483 < delay) : ¬ Waits delay := by
  rintro (⟨rfl, -⟩ | ⟨tm, htm, -⟩)
  · omega
  · rw [mainDelay_long hlong] at htm
    cases htm

/-- The delay is kept exactly when its nanoseconds fit the field without a second. -/
theorem waits_iff (delay : Int) (hdelay : 0 ≤ delay) (hint : delay ≤ intMax) :
    Waits delay ↔ delay ≤ 999 := by
  rcases hdelay.eq_or_lt with rfl | hpos
  · exact ⟨fun _ => by decide, fun _ => .inl ⟨rfl, rfl⟩⟩
  rcases lt_or_ge 2147483 delay with hlong | hshort
  · exact iff_of_false (not_waits_long hlong) (by omega)
  · exact waits_short_iff hpos hshort

theorem waits_iff_250 : Waits 250 ↔ (250 : Int) ≤ 999 :=
  waits_iff 250 (by decide) (by decide)

/-- A whole second is refused by `nanosleep`, and beyond 2147483 ms `int` overflows. -/
theorem second_not_waited :
    (mainDelay 1000 = .ok (some ⟨0, 1000000000⟩) ∧ ¬ Waits 1000) ∧
      mainDelay 2147484 = .error .overflow ∧ ¬ Waits 2147484 := by
  refine ⟨⟨rfl, ?_⟩, rfl, not_waits_long (by decide)⟩
  rw [waits_short_iff (by decide) (by decide)]
  decide

/-! ## The Windows clocks -/

section

variable (systemTimeToFileTime : SystemTime → FileTime)

/--
`SystemTimeToFileTime` counts exactly for a system time that lies this many
whole seconds after 1970.
-/
structure Exact (systemTime : SystemTime) (seconds : Nat) : Prop where
  milliseconds : systemTime.wMilliseconds.toNat < 1000
  seconds_lt : seconds < 2 ^ 31
  count :
    (systemTimeToFileTime systemTime).dwLowDateTime.toNat +
        (systemTimeToFileTime systemTime).dwHighDateTime.toNat * 2 ^ 32 =
      116444736000000000 + seconds * 10 ^ 7 + systemTime.wMilliseconds.toNat * 10 ^ 4

variable {systemTimeToFileTime} {systemTime : SystemTime} {seconds : Nat}

theorem Exact.fileTimeCount_toNat (h : Exact systemTimeToFileTime systemTime seconds) :
    (fileTimeCount (systemTimeToFileTime systemTime)).toNat =
      116444736000000000 + seconds * 10 ^ 7 + systemTime.wMilliseconds.toNat * 10 ^ 4 := by
  have hlow := (systemTimeToFileTime systemTime).dwLowDateTime.toNat_lt
  have hhigh := (systemTimeToFileTime systemTime).dwHighDateTime.toNat_lt
  rw [← h.count, fileTimeCount, UInt64.toNat_add, UInt64.toNat_shiftLeft, UInt32.toNat_toUInt64,
    UInt32.toNat_toUInt64, Nat.shiftLeft_eq]
  change (_ + _ * 2 ^ 32 % 2 ^ 64) % 2 ^ 64 = _
  omega

theorem toLong_eq {value : UInt64} {n : Int} (hlow : -2 ^ 31 ≤ n) (hhigh : n < 2 ^ 31)
    (hvalue : (value.toNat : Int) % 2 ^ 32 = n % 2 ^ 32) : toLong value = n := by
  have hbits : toLong value = ((value.toNat % 2 ^ 32 : Nat) : Int).bmod (2 ^ 32) :=
    BitVec.toInt_eq_toNat_bmod _
  rw [hbits, Int.bmod]
  split <;> omega

theorem secondsSince_toNat {time point : UInt64} (h : point.toNat ≤ time.toNat) :
    ((time - point) / 10000000).toNat = (time.toNat - point.toNat) / 10000000 := by
  rw [UInt64.toNat_div, UInt64.toNat_sub_of_le _ _ (UInt64.le_iff_toNat_le.mpr h)]
  rfl

theorem Exact.win32Gettimeofday (h : Exact systemTimeToFileTime systemTime seconds)
    {ndebug : Bool} {answer : TimeOfDay}
    (hcall : win32Gettimeofday systemTimeToFileTime ndebug systemTime = .ok answer) :
    answer.tv = ⟨seconds, systemTime.wMilliseconds.toNat * 1000⟩ := by
  have hms := h.milliseconds
  have hseconds := h.seconds_lt
  have hcount := h.fileTimeCount_toNat
  have hquotient :
      ((fileTimeCount (systemTimeToFileTime systemTime) - epochDiff) / 10000000).toNat =
        seconds := by
    have hpoint : epochDiff.toNat = 116444736000000000 := rfl
    rw [secondsSince_toNat (by omega), hcount, hpoint]
    omega
  have hsec : toLong ((fileTimeCount (systemTimeToFileTime systemTime) - epochDiff) / 10000000) =
      seconds := toLong_eq (by omega) (by omega) (by rw [hquotient])
  simp only [Quid.win32Gettimeofday, hsec, bind_eq_ok, pure_eq_ok] at hcall
  obtain ⟨-, -, rfl⟩ := hcall
  rfl

/--
The utility's clock counts from another point, which is no whole number of
seconds away, so its seconds change in the middle of a second.
-/
theorem Exact.utilGettimeofday (h : Exact systemTimeToFileTime systemTime seconds) :
    (utilGettimeofday systemTimeToFileTime systemTime).tv =
      ⟨seconds - 1240429452 - (if systemTime.wMilliseconds.toNat ≤ 447 then 1 else 0),
        systemTime.wMilliseconds.toNat * 1000⟩ := by
  have hms := h.milliseconds
  have hseconds := h.seconds_lt
  have hcount := h.fileTimeCount_toNat
  have hquotient : ((fileTimeCount (systemTimeToFileTime systemTime) - epoch) / 10000000).toNat =
      11644472436 + seconds - (if systemTime.wMilliseconds.toNat ≤ 447 then 1 else 0) := by
    have hpoint : epoch.toNat = 11644473600 := rfl
    rw [secondsSince_toNat (by omega), hcount, hpoint]
    split <;> omega
  simp only [Quid.utilGettimeofday, Timeval.mk.injEq, and_true]
  refine toLong_eq ?_ ?_ ?_
  · split <;> omega
  · split <;> omega
  · rw [hquotient]
    split <;> omega

def Timeval.microseconds (tv : Timeval) : Int := tv.tvSec * 1000000 + tv.tvUsec

/--
The two clocks measure the same duration between two instants exactly when both
lie in the same part of their second, up to 447 ms or beyond.
-/
theorem windowsClocks_agree_iff {first second : SystemTime} {seconds seconds' : Nat}
    (hfirst : Exact systemTimeToFileTime first seconds)
    (hsecond : Exact systemTimeToFileTime second seconds') {ndebug : Bool}
    {answer answer' : TimeOfDay}
    (hcall : win32Gettimeofday systemTimeToFileTime ndebug first = .ok answer)
    (hcall' : win32Gettimeofday systemTimeToFileTime ndebug second = .ok answer') :
    ((utilGettimeofday systemTimeToFileTime second).tv.microseconds -
          (utilGettimeofday systemTimeToFileTime first).tv.microseconds =
        answer'.tv.microseconds - answer.tv.microseconds ∧
      (seconds * 1000 + first.wMilliseconds.toNat ≤
          seconds' * 1000 + second.wMilliseconds.toNat →
        (utilGettimeofday systemTimeToFileTime first).tv.microseconds ≤
          (utilGettimeofday systemTimeToFileTime second).tv.microseconds)) ↔
      (first.wMilliseconds.toNat ≤ 447 ↔ second.wMilliseconds.toNat ≤ 447) := by
  rw [hfirst.win32Gettimeofday hcall, hsecond.win32Gettimeofday hcall', hfirst.utilGettimeofday,
    hsecond.utilGettimeofday]
  simp only [Timeval.microseconds]
  split <;> split <;> omega

end

/-! ## One minute of a Windows machine -/

def minuteTime (second milliseconds : UInt16) : SystemTime :=
  ⟨2023, 11, 2, 14, 22, 13, second, milliseconds⟩

def minuteFileTime (systemTime : SystemTime) : FileTime :=
  let count := 133444735800000000 + systemTime.wSecond.toNat * 10 ^ 7 +
    systemTime.wMilliseconds.toNat * 10 ^ 4
  ⟨UInt32.ofNat (count % 2 ^ 32), UInt32.ofNat (count / 2 ^ 32)⟩

theorem windowsClocks_agree_iff_minute :
    let first := minuteTime 20 100
    let second := minuteTime 25 200
    ((utilGettimeofday minuteFileTime second).tv.microseconds -
          (utilGettimeofday minuteFileTime first).tv.microseconds =
        1700000005200000 - 1700000000100000 ∧
      (1700000000 * 1000 + first.wMilliseconds.toNat ≤
          1700000005 * 1000 + second.wMilliseconds.toNat →
        (utilGettimeofday minuteFileTime first).tv.microseconds ≤
          (utilGettimeofday minuteFileTime second).tv.microseconds)) ↔
      (first.wMilliseconds.toNat ≤ 447 ↔ second.wMilliseconds.toNat ≤ 447) :=
  windowsClocks_agree_iff
    (⟨by decide, by decide, by decide⟩ : Exact minuteFileTime (minuteTime 20 100) 1700000000)
    (⟨by decide, by decide, by decide⟩ : Exact minuteFileTime (minuteTime 25 200) 1700000005)
    (rfl : win32Gettimeofday minuteFileTime false (minuteTime 20 100) =
      .ok ⟨0, ⟨1700000000, 100000⟩⟩)
    (rfl : win32Gettimeofday minuteFileTime false (minuteTime 25 200) =
      .ok ⟨0, ⟨1700000005, 200000⟩⟩)

/-- A millisecond later the utility shows a time almost a second earlier. -/
theorem later_instant_earlier :
    let first := minuteTime 20 999
    let second := minuteTime 21 0
    Exact minuteFileTime first 1700000000 ∧ Exact minuteFileTime second 1700000001 ∧
      win32Gettimeofday minuteFileTime false first = .ok ⟨0, ⟨1700000000, 999000⟩⟩ ∧
      win32Gettimeofday minuteFileTime false second = .ok ⟨0, ⟨1700000001, 0⟩⟩ ∧
      utilGettimeofday minuteFileTime first = ⟨0, ⟨459570548, 999000⟩⟩ ∧
      utilGettimeofday minuteFileTime second = ⟨0, ⟨459570548, 0⟩⟩ ∧
      (utilGettimeofday minuteFileTime second).tv.microseconds <
        (utilGettimeofday minuteFileTime first).tv.microseconds := by
  refine ⟨⟨by decide, by decide, by decide⟩, ⟨by decide, by decide, by decide⟩, rfl, rfl, rfl, rfl,
    ?_⟩
  decide

end Quid
