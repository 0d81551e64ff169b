import GServer.TimerInvariant
import Mathlib

/-!
# Hooked sleeps

The hooked `sleep`, `usleep` and `nanosleep` arm a timer that schedules the calling
coroutine, and yield.  Each computes the milliseconds of the timer in a type of its
own: `sleep` multiplies in `unsigned int`, `usleep` divides in `unsigned int`, and
`nanosleep` computes in `long` and stores the result in an `int`.  `addTimer` takes
them as a `uint64_t`.
-/

namespace Agent

namespace HookedSleep

variable {Cb : Type}

/-- The hooked `sleep`, up to the yield: the timer is allocated at the unused address
`a`. -/
def sleep (m : TimerManager Cb) (a : Addr) (seconds : UInt32) (cb : Cb) (now : UInt64) :
    Option (Bool × TimerManager Cb) :=
  m.addTimer a (seconds * 1000).toUInt64 (some cb) false now

/-- The hooked `usleep`. -/
def usleep (m : TimerManager Cb) (a : Addr) (usec : UInt32) (cb : Cb) (now : UInt64) :
    Option (Bool × TimerManager Cb) :=
  m.addTimer a (usec / 1000).toUInt64 (some cb) false now

/-- The result of an operation on `long`; `none` where it overflows. -/
def long (x : Int) : Option Int :=
  if -9223372036854775808 ≤ x ∧ x < 9223372036854775808 then some x else none

/-- A `long` stored in an `int`. -/
def int (x : Int) : Int :=
  Int.bmod x 4294967296

/-- `int timeout_ms = req -> tv_sec * 1000 + req -> tv_nsec / 1000 / 1000`. -/
def timeoutMs (sec nsec : Int) : Option Int :=
  (long (sec * 1000)).bind fun ms =>
    (long (ms + (nsec.tdiv 1000).tdiv 1000)).map int

/-- An `int` as a `uint64_t`. -/
def toUInt64 (x : Int) : UInt64 :=
  UInt64.ofNat (x % 18446744073709551616).toNat

/-- The hooked `nanosleep`. -/
def nanosleep (m : TimerManager Cb) (a : Addr) (sec nsec : Int) (cb : Cb) (now : UInt64) :
    Option (Bool × TimerManager Cb) :=
  (timeoutMs sec nsec).bind fun ms => m.addTimer a (toUInt64 ms) (some cb) false now

/-- The milliseconds cover the requested nanoseconds, with less than one to spare. -/
def Covers (ms requested : Nat) : Prop :=
  requested ≤ ms * 1000000 ∧ ms * 1000000 < requested + 1000000

/-- The timer that has been armed at `a` covers the requested nanoseconds. -/
def Lasts (a : Addr) (requested : Nat) (r : Option (Bool × TimerManager Cb)) : Prop :=
  ∃ front m t, r = some (front, m) ∧ m.heap a = some t ∧ Covers t.ms.toNat requested

/-- The timer of `addTimer` has the milliseconds that it was given. -/
theorem lasts_addTimer {m : TimerManager Cb} {a : Addr} (hfree : m.heap a = none)
    (ms : UInt64) (cb : Cb) (now : UInt64) (requested : Nat) :
    Lasts a requested (m.addTimer a ms (some cb) false now) ↔ Covers ms.toNat requested := by
  let t : Timer Cb := { recuring := false, ms := ms, next := now + ms, cb := some cb }
  have hadd : m.addTimer a ms (some cb) false now =
      some ((m.setTimer a t).addLocked a) := by
    simp only [TimerManager.addTimer, hfree]
    rfl
  have hheap : ((m.setTimer a t).addLocked a).2.heap a = some t := by
    rw [TimerManager.addLocked_heap]
    exact Function.update_self ..
  rw [hadd]
  constructor
  · rintro ⟨front, m', t', hr, ht', hcovers⟩
    obtain rfl : ((m.setTimer a t).addLocked a).2 = m' :=
      congrArg Prod.snd (Option.some.inj hr)
    obtain rfl : t = t' := Option.some.inj (hheap.symm.trans ht')
    exact hcovers
  · exact fun hcovers => ⟨_, _, t, rfl, hheap, hcovers⟩

/-- `unsigned int` holds the milliseconds of 4294967 seconds. -/
theorem sleep_covers_iff (seconds : UInt32) :
    Covers (seconds * 1000).toUInt64.toNat (seconds.toNat * 1000000000) ↔
      seconds.toNat ≤ 4294967 := by
  have hlt := seconds.toNat_lt
  have hms : (seconds * 1000).toUInt64.toNat = seconds.toNat * 1000 % 4294967296 := by
    simp
  rw [hms]
  unfold Covers
  omega

/-- The division of `usleep` drops what is left of a millisecond. -/
theorem usleep_covers_iff (usec : UInt32) :
    Covers (usec / 1000).toUInt64.toNat (usec.toNat * 1000) ↔ usec.toNat % 1000 = 0 := by
  have hms : (usec / 1000).toUInt64.toNat = usec.toNat / 1000 := by
    simp
  rw [hms]
  unfold Covers
  omega

/-- The conversion to `uint64_t` wraps. -/
theorem toUInt64_toNat (x : Int) :
    (toUInt64 x).toNat = (x % 18446744073709551616).toNat := by
  unfold toUInt64
  rw [UInt64.toNat_ofNat']
  omega

/-- A number fits a `long` below 2^63. -/
theorem long_natCast (n : Nat) :
    long n = if n < 9223372036854775808 then some (n : Int) else none := by
  unfold long
  by_cases hn : n < 9223372036854775808
  · rw [if_pos hn, if_pos (by omega)]
  · rw [if_neg hn, if_neg (by omega)]

/-- What `nanosleep` computes for a non-negative time. -/
theorem timeoutMs_spec {sec nsec ms : Nat} (hms : ms = sec * 1000 + nsec / 1000000) :
    timeoutMs sec nsec =
      if ms < 9223372036854775808 then some (int ms) else none := by
  have hdiv : ((nsec : Int).tdiv 1000).tdiv 1000 = (nsec / 1000000 : Nat) := by
    have hnonneg : (0 : Int) ≤ nsec := Int.natCast_nonneg nsec
    rw [Int.tdiv_eq_ediv_of_nonneg hnonneg, Int.tdiv_eq_ediv_of_nonneg (by omega)]
    omega
  have hsec : (sec : Int) * 1000 = (sec * 1000 : Nat) := by omega
  have hsum : ((sec * 1000 : Nat) : Int) + (nsec / 1000000 : Nat) = (ms : Nat) := by omega
  unfold timeoutMs
  rw [hsec, long_natCast]
  by_cases hlong : sec * 1000 < 9223372036854775808
  · rw [if_pos hlong, Option.bind_some, hdiv, hsum, long_natCast]
    by_cases hlt : ms < 9223372036854775808
    · rw [if_pos hlt, if_pos hlt, Option.map_some]
    · rw [if_neg hlt, if_neg hlt, Option.map_none]
  · rw [if_neg hlong, if_neg (by omega), Option.bind_none]

/-- The `int` keeps the milliseconds exactly below `2 ^ 31`, and only whole
milliseconds are covered. -/
theorem nanosleep_covers_iff {sec nsec ms : Nat} (hms : ms = sec * 1000 + nsec / 1000000)
    (hlong : ms < 9223372036854775808) :
    Covers (toUInt64 (int ms)).toNat (sec * 1000000000 + nsec) ↔
      nsec % 1000000 = 0 ∧ ms < 2147483648 := by
  rw [toUInt64_toNat]
  by_cases hint : ms < 2147483648
  · have hint' : int ms = ms := by
      unfold int Int.bmod
      dsimp only
      split <;> omega
    have hkeep : ((ms : Int) % 18446744073709551616).toNat = ms := by omega
    rw [hint', hkeep]
    unfold Covers
    omega
  · -- the `int` is negative, or smaller than the milliseconds
    have hwrong : (int ms % 18446744073709551616).toNat < ms ∨
        ms < (int ms % 18446744073709551616).toNat - 1 := by
      unfold int Int.bmod
      dsimp only
      split <;> omega
    unfold Covers
    omega

/-- **Hooked sleeps.**  For every argument the armed timer covers the requested time with
less than a millisecond to spare exactly when `sleep` is asked for at most 4294967
seconds, `usleep` for whole milliseconds, and `nanosleep` for whole milliseconds, fewer
than `2 ^ 31`. -/
theorem sleeps_last_iff (m : TimerManager Cb) (a : Addr) (cb : Cb) (now : UInt64)
    (seconds usec : UInt32) (sec nsec : Nat) (hfree : m.heap a = none) :
    (Lasts a (seconds.toNat * 1000000000) (sleep m a seconds cb now) ↔
      seconds.toNat ≤ 4294967) ∧
    (Lasts a (usec.toNat * 1000) (usleep m a usec cb now) ↔ usec.toNat % 1000 = 0) ∧
    (Lasts a (sec * 1000000000 + nsec) (nanosleep m a sec nsec cb now) ↔
      nsec % 1000000 = 0 ∧ sec * 1000 + nsec / 1000000 < 2147483648) := by
  refine ⟨?_, ?_, ?_⟩
  · rw [sleep, lasts_addTimer hfree, sleep_covers_iff]
  · rw [usleep, lasts_addTimer hfree, usleep_covers_iff]
  · have hspec : timeoutMs sec nsec =
        if sec * 1000 + nsec / 1000000 < 9223372036854775808 then
          some (int (sec * 1000 + nsec / 1000000 : Nat)) else none :=
      timeoutMs_spec rfl
    by_cases hlong : sec * 1000 + nsec / 1000000 < 9223372036854775808
    · rw [if_pos hlong] at hspec
      rw [nanosleep, hspec, Option.bind_some, lasts_addTimer hfree,
        nanosleep_covers_iff rfl hlong]
    · rw [if_neg hlong] at hspec
      rw [nanosleep, hspec, Option.bind_none]
      refine iff_of_false ?_ (by omega)
      rintro ⟨front, m', t, hr, -⟩
      cases hr

/-- A `usleep` of 1999 microseconds is armed with one millisecond. -/
theorem usleep_ends_early :
    ¬ ∀ (m : TimerManager Nat) (a : Addr) (usec : UInt32) (cb : Nat) (now : UInt64),
      m.heap a = none → Lasts a (usec.toNat * 1000) (usleep m a usec cb now) := by
  intro hall
  have hlasts := hall (.new 0) 0 1999 7 0 rfl
  rw [usleep, lasts_addTimer rfl, usleep_covers_iff] at hlasts
  revert hlasts
  decide

/-- `sleep` of 3 seconds, `usleep` of 5000 microseconds and `nanosleep` of 2.25 seconds. -/
theorem sleeps_last :
    let m : TimerManager Nat := .new 0
    Lasts 0 (3 * 1000000000) (sleep m 0 3 7 0) ∧
    Lasts 0 (5000 * 1000) (usleep m 0 5000 7 0) ∧
    Lasts 0 (2 * 1000000000 + 250000000) (nanosleep m 0 2 250000000 7 0) := by
  obtain ⟨hsleep, husleep, hnanosleep⟩ :=
    sleeps_last_iff (.new 0) 0 7 0 3 5000 2 250000000 rfl
  exact ⟨hsleep.mpr (by decide), husleep.mpr (by decide), hnanosleep.mpr (by decide)⟩

end HookedSleep

end Agent
