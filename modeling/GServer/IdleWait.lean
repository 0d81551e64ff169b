import GServer.TimerWakeup
import Mathlib

/-!
# How long an idle worker sleeps

`idle` cuts what `getNextTimer` returned down to at most `MAX_TIMEOUT` and passes
it to `epoll_wait` as an `int`.  A signal restarts the loop with the variable as
the last round left it: cut down already, and counted from the same moment.

The comparison looks at the low 32 bits only, as a signed number, and a timer
that is due is treated like no timer at all.
-/

namespace Agent

namespace Idle

open Wakeup

/-- The return value of `getNextTimer` when there is no timer. -/
def noTimer : UInt64 := 0xffffffffffffffff

/-- `MAX_TIMEOUT`. -/
def maxTimeout : UInt64 := 3000

/-- `(int)next_timeout`. -/
def toInt (nextTimeout : UInt64) : Int :=
  Int.bmod nextTimeout.toNat 4294967296

/-- What a round of the loop makes of `next_timeout`. -/
def clamp (nextTimeout : UInt64) : UInt64 :=
  if nextTimeout ≠ noTimer ∧ 0 < nextTimeout then
    if toInt maxTimeout < toInt nextTimeout then maxTimeout else nextTimeout
  else maxTimeout

/-- The calls of `epoll_wait`, each with the milliseconds since `getNextTimer` and the
timeout it is given; all but the last fail with `EINTR`. -/
def epollWaits (nextTimeout : UInt64) : List Nat → List (Nat × Int)
  | [] => []
  | elapsed :: rest => (elapsed, toInt (clamp nextTimeout)) :: epollWaits (clamp nextTimeout) rest

/-- The timeout `ms` is in range, and the timer, if there is one, is not overslept. -/
structure InTime (nextTimeout : UInt64) (elapsed : Nat) (ms : Int) : Prop where
  nonneg : 0 ≤ ms
  bounded : ms ≤ 3000
  intime : nextTimeout ≠ noTimer → ms ≤ (nextTimeout.toNat - elapsed : Nat)

/-- Every call is in time, the first one at once and the others where a signal
restarts it. -/
def NeverOversleeps (nextTimeout : UInt64) (restarts : List Nat) : Prop :=
  ∀ call ∈ epollWaits nextTimeout (0 :: restarts), InTime nextTimeout call.1 call.2

/-- There is no timer, or it is not due and the low half of the time left is not negative
as an `int`. -/
def Sleepable (nextTimeout : UInt64) : Prop :=
  nextTimeout = noTimer ∨ 0 < nextTimeout ∧ nextTimeout.toNat % 4294967296 < 2147483648

/-- No restart comes so late that what is slept goes past the deadline. -/
def RestartsEarly (nextTimeout : UInt64) (restarts : List Nat) : Prop :=
  nextTimeout ≠ noTimer → ∀ elapsed ∈ restarts,
    min (nextTimeout.toNat % 4294967296) 3000 ≤ nextTimeout.toNat - elapsed

/-! ## The timeout -/

/-- The conversion to `int` takes the low 32 bits with their sign. -/
theorem toInt_eq (t : UInt64) :
    toInt t = if t.toNat % 4294967296 < 2147483648 then (t.toNat % 4294967296 : Int)
      else t.toNat % 4294967296 - 4294967296 := by
  unfold toInt Int.bmod
  dsimp only
  split <;> split <;> omega

theorem toInt_maxTimeout : toInt maxTimeout = 3000 := by
  decide

theorem clamp_noTimer : clamp noTimer = maxTimeout := by
  unfold clamp
  decide

theorem clamp_zero : clamp 0 = maxTimeout := by
  unfold clamp
  decide

/-- A time left that is more than `MAX_TIMEOUT` as an `int` is cut down to it. -/
theorem clamp_of_lt {t : UInt64} (h : 3000 < toInt t) : clamp t = maxTimeout := by
  unfold clamp
  rw [toInt_maxTimeout, if_pos h]
  exact ite_self _

/-- Any other one is kept. -/
theorem clamp_of_le {t : UInt64} (hpos : 0 < t) (hsome : t ≠ noTimer) (h : toInt t ≤ 3000) :
    clamp t = t := by
  unfold clamp
  rw [toInt_maxTimeout, if_pos ⟨hsome, hpos⟩, if_neg (not_lt.mpr h)]

/-- Cutting down once more changes nothing. -/
theorem clamp_clamp (t : UInt64) : clamp (clamp t) = clamp t := by
  have hmax : clamp maxTimeout = maxTimeout := by
    refine clamp_of_le (by decide) (by decide) ?_
    rw [toInt_maxTimeout]
  by_cases hsome : t = noTimer
  · rw [hsome, clamp_noTimer, hmax]
  by_cases hpos : 0 < t
  · by_cases hlong : 3000 < toInt t
    · rw [clamp_of_lt hlong, hmax]
    · rw [clamp_of_le hpos hsome (not_lt.mp hlong)]
      exact clamp_of_le hpos hsome (not_lt.mp hlong)
  · obtain rfl : t = 0 := by
      rw [UInt64.lt_iff_toNat_lt] at hpos
      exact UInt64.toNat_inj.mp (by simpa using hpos)
    rw [clamp_zero, hmax]

/-- **All rounds pass the same timeout.** -/
theorem epollWaits_eq (t : UInt64) (calls : List Nat) :
    epollWaits t calls = calls.map (fun elapsed => (elapsed, toInt (clamp t))) := by
  induction calls generalizing t with
  | nil => rfl
  | cons elapsed rest ih =>
      rw [epollWaits, ih, clamp_clamp]
      rfl

/-- It is the one of `waitMs`. -/
theorem toInt_clamp (t : UInt64) : toInt (clamp t) = waitMs t := by
  unfold clamp waitMs
  rw [toInt_maxTimeout]
  change toInt (if t ≠ noTimer ∧ 0 < t then _ else _) =
    if t ≠ noTimer ∧ 0 < t then (if 3000 < toInt t then 3000 else toInt t) else 3000
  split
  · split
    · exact toInt_maxTimeout
    · rfl
  · exact toInt_maxTimeout

/-- The low half of a time left that is not negative as an `int`, cut down. -/
theorem waitMs_of_sleepable {t : UInt64} (hsome : t ≠ noTimer) (hpos : 0 < t)
    (h : t.toNat % 4294967296 < 2147483648) :
    waitMs t = (min (t.toNat % 4294967296) 3000 : Nat) := by
  have hint : toInt t = (t.toNat % 4294967296 : Int) := by
    rw [toInt_eq, if_pos h]
  rw [← toInt_clamp]
  by_cases hlong : 3000 < toInt t
  · rw [clamp_of_lt hlong, toInt_maxTimeout]
    omega
  · rw [clamp_of_le hpos hsome (not_lt.mp hlong), hint]
    omega

/-- Without a timer the wait is three seconds. -/
theorem waitMs_noTimer : waitMs noTimer = 3000 := by
  rw [← toInt_clamp, clamp_noTimer, toInt_maxTimeout]

/-- For a timer that is due the wait is three seconds. -/
theorem waitMs_zero : waitMs 0 = 3000 := by
  rw [← toInt_clamp, clamp_zero, toInt_maxTimeout]

/-- A low half that is negative as an `int` is passed on as it is. -/
theorem waitMs_neg {t : UInt64} (hsome : t ≠ noTimer) (hpos : 0 < t)
    (h : 2147483648 ≤ t.toNat % 4294967296) : waitMs t < 0 := by
  have hint : toInt t = (t.toNat % 4294967296 : Int) - 4294967296 := by
    rw [toInt_eq, if_neg (not_lt.mpr h)]
  rw [← toInt_clamp, clamp_of_le hpos hsome (by omega)]
  omega

/-- No wait of the loop oversleeps exactly when none does for the time it begins at. -/
theorem neverOversleeps_iff_forall {t : UInt64} {restarts : List Nat} :
    NeverOversleeps t restarts ↔ ∀ elapsed ∈ 0 :: restarts, InTime t elapsed (waitMs t) := by
  unfold NeverOversleeps
  rw [epollWaits_eq, List.forall_mem_map, toInt_clamp]

/-! ## When no call sleeps too long -/

/-- With early restarts all calls are in time. -/
theorem inTime_of_sleepable {t : UInt64} {restarts : List Nat} (h : Sleepable t)
    (hearly : RestartsEarly t restarts) {elapsed : Nat} (hmem : elapsed ∈ 0 :: restarts) :
    InTime t elapsed (waitMs t) := by
  by_cases hsome : t = noTimer
  · rw [hsome, waitMs_noTimer]
    exact ⟨by decide, by decide, fun hne => absurd rfl hne⟩
  · obtain ⟨hpos, hlow⟩ := h.resolve_left hsome
    have hleft : min (t.toNat % 4294967296) 3000 ≤ t.toNat - elapsed := by
      rcases List.mem_cons.mp hmem with rfl | hmem
      · omega
      · exact hearly hsome elapsed hmem
    rw [waitMs_of_sleepable hsome hpos hlow]
    refine ⟨by omega, by omega, fun _ => ?_⟩
    exact_mod_cast hleft

/-- The first call, made at once, is in time only then. -/
theorem sleepable_of_inTime {t : UInt64} (h : InTime t 0 (waitMs t)) : Sleepable t := by
  by_cases hsome : t = noTimer
  · exact Or.inl hsome
  refine Or.inr ?_
  have hpos : 0 < t := by
    by_contra hzero
    obtain rfl : t = 0 := by
      rw [UInt64.lt_iff_toNat_lt] at hzero
      exact UInt64.toNat_inj.mp (by simpa using hzero)
    have hlong := h.intime hsome
    rw [waitMs_zero] at hlong
    revert hlong
    decide
  refine ⟨hpos, ?_⟩
  by_contra hneg
  have hlow := waitMs_neg hsome hpos (not_lt.mp hneg)
  have := h.nonneg
  omega

/-- A restart that is in time is early enough. -/
theorem early_of_inTime {t : UInt64} {elapsed : Nat} (hsleep : Sleepable t)
    (h : InTime t elapsed (waitMs t)) (hsome : t ≠ noTimer) :
    min (t.toNat % 4294967296) 3000 ≤ t.toNat - elapsed := by
  obtain ⟨hpos, hlow⟩ := hsleep.resolve_left hsome
  have hleft := h.intime hsome
  rw [waitMs_of_sleepable hsome hpos hlow] at hleft
  exact_mod_cast hleft

/-- **Idle wait.**  The timeout of every call of `epoll_wait` is between 0 and
`MAX_TIMEOUT` and not longer than the timer has left exactly when there is no timer, or
the timer is not due, the low half of the time it has left is not negative as an `int`,
and no signal restarts the call too near to the deadline. -/
theorem neverOversleeps_iff (nextTimeout : UInt64) (restarts : List Nat) :
    NeverOversleeps nextTimeout restarts ↔
      Sleepable nextTimeout ∧ RestartsEarly nextTimeout restarts := by
  rw [neverOversleeps_iff_forall]
  constructor
  · intro h
    have hsleep := sleepable_of_inTime (h 0 List.mem_cons_self)
    refine ⟨hsleep, fun hsome elapsed hmem => ?_⟩
    exact early_of_inTime hsleep (h elapsed (List.mem_cons_of_mem 0 hmem)) hsome
  · rintro ⟨hsleep, hearly⟩ elapsed hmem
    exact inTime_of_sleepable hsleep hearly hmem

/-- A timer that is due, one that is due in 2147483648 ms, and one with 5000 ms left when
a signal comes after 2500 ms. -/
theorem idle_oversleeps : ¬ NeverOversleeps 0 [] ∧ ¬ NeverOversleeps 2147483648 [] ∧
    ¬ NeverOversleeps 5000 [2500] := by
  refine ⟨fun h => ?_, fun h => ?_, fun h => ?_⟩
  · have hlong := (h (0, 3000) (by decide)).intime (by decide)
    revert hlong
    decide
  · have hneg := (h (0, -2147483648) (by decide)).nonneg
    revert hneg
    decide
  · have hlong := (h (2500, 3000) (by decide)).intime (by decide)
    revert hlong
    decide

/-! ## The timer at the front -/

/-- What `getNextTimer` returns is the time until the deadline of the front. -/
theorem getNextTimer_toNat {Cb : Type} {m : TimerManager Cb} {front : Addr} {rest : List Addr}
    (h : m.timers = front :: rest) (now : UInt64) :
    (m.getNextTimer now).1.toNat = (m.nextOf front).toNat - now.toNat := by
  have hnext : ∀ timers tickled,
      TimerManager.nextOf { m with timers := timers, tickled := tickled } front =
        m.nextOf front := fun _ _ => rfl
  unfold TimerManager.getNextTimer
  simp only [h, hnext]
  split
  · rename_i hdue
    rw [UInt64.le_iff_toNat_le] at hdue
    simp only [UInt64.toNat_zero]
    omega
  · rename_i hleft
    rw [UInt64.le_iff_toNat_le] at hleft
    exact UInt64.toNat_sub_of_le _ _ (UInt64.le_iff_toNat_le.mpr (by omega))

/-- **Up to the deadline.**  A worker that asked `getNextTimer` while a timer was at the
front never sleeps past its deadline, if the time left can be slept and the signals come
early. -/
theorem wakes_by_front {Cb : Type} {m : TimerManager Cb} {front : Addr} {rest : List Addr}
    {now : UInt64} {restarts : List Nat} (h : m.timers = front :: rest)
    (hsome : (m.getNextTimer now).1 ≠ noTimer) (hsleep : Sleepable (m.getNextTimer now).1)
    (hearly : RestartsEarly (m.getNextTimer now).1 restarts) :
    ∀ call ∈ epollWaits (m.getNextTimer now).1 (0 :: restarts),
      call.2 ≤ ((m.nextOf front).toNat - (now.toNat + call.1) : Nat) := by
  rw [epollWaits_eq, List.forall_mem_map, toInt_clamp]
  intro elapsed hmem
  have hleft := (inTime_of_sleepable hsleep hearly hmem).intime hsome
  rw [getNextTimer_toNat h] at hleft
  rwa [Nat.sub_sub] at hleft

end Idle

end Agent
