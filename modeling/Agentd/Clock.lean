import Mathlib

/-!
# System time

`Duration` and `SystemTime` are the types of the standard library; on the platform the daemon
supports, a system time has signed whole seconds relative to the epoch.  The daemon only reads the
clock through `unixNow`, in whole seconds.
-/

namespace Agentd

/-- The number of nanoseconds in a second. -/
def nanosPerSec : ℕ := 1000000000

/-- A length of time. -/
structure Duration where
  secs : UInt64
  nanos : Fin nanosPerSec
  deriving DecidableEq

/-- `Duration::from_secs`. -/
def Duration.fromSecs (secs : UInt64) : Duration := ⟨secs, ⟨0, by decide⟩⟩

/-- `Duration::as_secs`: the fraction of a second is dropped. -/
def Duration.asSecs (d : Duration) : UInt64 := d.secs

theorem Duration.asSecs_fromSecs (secs : UInt64) : (Duration.fromSecs secs).asSecs = secs := rfl

/-- The length in nanoseconds. -/
def Duration.asNanos (d : Duration) : ℤ := d.secs.toNat * nanosPerSec + d.nanos

/-- A time of the system's clock. -/
structure SystemTime where
  secs : Int64
  nanos : Fin nanosPerSec
  deriving DecidableEq

namespace SystemTime

/-- The nanoseconds since the epoch. -/
def sinceEpoch (t : SystemTime) : ℤ := t.secs.toInt * nanosPerSec + t.nanos

/-- `SystemTime::duration_since` the epoch, an error for a time before it. -/
def durationSinceEpoch (t : SystemTime) : Option Duration :=
  if t.secs < 0 then none else some ⟨t.secs.toUInt64, t.nanos⟩

/-- `unix_now`, when the clock shows the given time. -/
def unixNow (t : SystemTime) : UInt64 := (t.durationSinceEpoch.map Duration.asSecs).getD 0

/-- The clock is read as its whole seconds, and as zero before the epoch. -/
theorem toNat_unixNow (t : SystemTime) : t.unixNow.toNat = t.secs.toInt.toNat := by
  unfold unixNow durationSinceEpoch
  have hzero : (0 : Int64).toInt = 0 := rfl
  split
  · rename_i hneg
    rw [Int64.lt_iff_toInt_lt, hzero] at hneg
    simp only [Option.map_none, Option.getD_none]
    rw [Int.toNat_of_nonpos (by omega)]
    rfl
  · rename_i hpos
    have hle : (0 : Int64) ≤ t.secs := Int64.not_lt.mp hpos
    simp only [Option.map_some, Option.getD_some, Duration.asSecs]
    exact Int64.toNat_toUInt64_of_le hle

/-- A reading of the clock fits into a signed integer. -/
theorem toNat_unixNow_lt (t : SystemTime) : t.unixNow.toNat < 2 ^ 63 := by
  rw [toNat_unixNow]
  have := Int64.toInt_lt t.secs
  omega

/-- A reading of the clock not later than `n` seconds after another is at most `n` larger. -/
theorem toNat_unixNow_le_add {t t' : SystemTime} {n : ℕ}
    (h : t'.sinceEpoch ≤ t.sinceEpoch + n * nanosPerSec) :
    t'.unixNow.toNat ≤ t.unixNow.toNat + n := by
  rw [toNat_unixNow, toNat_unixNow]
  have hnanos := t.nanos.isLt
  simp only [sinceEpoch, nanosPerSec] at h hnanos
  push_cast at h
  omega

/-- A later reading of the clock is not smaller. -/
theorem toNat_unixNow_mono {t t' : SystemTime} (h : t.sinceEpoch ≤ t'.sinceEpoch) :
    t.unixNow.toNat ≤ t'.unixNow.toNat :=
  toNat_unixNow_le_add (n := 0) (by simpa using h)

/-- The reading of the clock `n` seconds after `t`, or the last one that it can show. -/
def readingAfter (t : SystemTime) (n : ℕ) : ℕ := (min (t.secs.toInt + n) (2 ^ 63 - 1)).toNat

theorem readingAfter_le (t : SystemTime) (n : ℕ) : t.readingAfter n ≤ t.unixNow.toNat + n := by
  rw [toNat_unixNow, readingAfter]
  omega

/-- No time up to `n` seconds after `t` has a larger reading. -/
theorem toNat_unixNow_le_readingAfter {t t' : SystemTime} {n : ℕ}
    (h : t'.sinceEpoch ≤ t.sinceEpoch + n * nanosPerSec) :
    t'.unixNow.toNat ≤ t.readingAfter n := by
  rw [toNat_unixNow, readingAfter]
  have hnanos := t.nanos.isLt
  have hlast := Int64.toInt_lt t'.secs
  simp only [sinceEpoch, nanosPerSec] at h hnanos
  push_cast at h
  omega

/-- Some time up to `n` seconds after `t` has that reading, also when it may not be before `t'`. -/
theorem exists_readingAfter {t t' : SystemTime} {n : ℕ}
    (h : t'.sinceEpoch ≤ t.sinceEpoch + n * nanosPerSec) :
    ∃ now : SystemTime, t'.sinceEpoch ≤ now.sinceEpoch ∧
      now.sinceEpoch ≤ t.sinceEpoch + n * nanosPerSec ∧ now.unixNow.toNat = t.readingAfter n := by
  have hfirst := Int64.le_toInt t.secs
  have hlast := Int64.toInt_lt t'.secs
  have hnanos := t.nanos.isLt
  have hnanos' := t'.nanos.isLt
  have hsecs : (Int64.ofInt (min (t.secs.toInt + n) (2 ^ 63 - 1))).toInt =
      min (t.secs.toInt + n) (2 ^ 63 - 1) := Int64.toInt_ofInt_of_le (by omega) (by omega)
  simp only [sinceEpoch, nanosPerSec] at h hnanos hnanos' ⊢
  push_cast at h ⊢
  by_cases hle : t'.secs.toInt * 1000000000 + t'.nanos ≤
      min (t.secs.toInt + n) (2 ^ 63 - 1) * 1000000000 + t.nanos
  · refine ⟨⟨Int64.ofInt (min (t.secs.toInt + n) (2 ^ 63 - 1)), t.nanos⟩, ?_, ?_, ?_⟩
    · rw [hsecs]
      exact hle
    · simp only [hsecs]
      omega
    · rw [toNat_unixNow, hsecs, readingAfter]
  · -- the clock shows its last second
    refine ⟨t', le_rfl, h, ?_⟩
    rw [toNat_unixNow, readingAfter]
    omega

end SystemTime

end Agentd
