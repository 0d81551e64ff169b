import GServer.TimerInvariant

/-!
# The period of recurring timers

When a pass of `listExpiredCb` at time `now` collects a recurring timer, its
deadline should become `now + m_ms`.  The source adds that sum to the old
deadline (`m_next += now_ms + m_ms`), so the timer keeps its period exactly
when the old deadline is zero.

`CollectedAgain` says what keeping the period means for the calls to come: the
next pass that collects the timer is the first one at or after its deadline,
for as long as no call is made on the timer itself.
-/

namespace Agent

open Runs

namespace TimerManager

variable {Cb : Type}

/-- In the run of `calls` from `m`, the first pass at or after `d` is the next
to collect the timer at `a`, as long as the passes are at non-decreasing times
from `last` on and no call is made on the timer. -/
def CollectedAgain (a : Addr) (d : UInt64) :
    UInt64 → TimerManager Cb → List (Call Cb) → Prop
  | _, _, [] => True
  | last, m, call :: calls =>
      match call with
      | .listExpiredCb now probe =>
          last ≤ now →
            (a ∈ m.expired now probe ↔ d ≤ now) ∧
            (now < d → CollectedAgain a d now (m.listExpiredCb now probe).2 calls)
      | call =>
          call.target ≠ some a →
            ∀ m', Step m call m' → CollectedAgain a d last m' calls

/-- A pass puts every recurring timer that it collects back with the deadline
`now + m_ms`, and the timer is next collected at that deadline. -/
def KeepsPeriod (m : TimerManager Cb) : Call Cb → Prop
  | .listExpiredCb now probe =>
      ∀ a ∈ m.expired now probe, ∀ t, m.heap a = some t → t.recuring = true →
        let m' := (m.listExpiredCb now probe).2
        a ∈ m'.timers ∧ m'.nextOf a = now + t.ms ∧
          ∀ calls, CollectedAgain a (now + t.ms) now m' calls
  | _ => True

/-- The recurring timers a pass collects have the deadline zero. -/
def CollectsAtZero (m : TimerManager Cb) : Call Cb → Prop
  | .listExpiredCb now probe =>
      ∀ a ∈ m.expired now probe, ∀ t, m.heap a = some t → t.recuring = true → t.next = 0
  | _ => True

/-- A roll-back is seen when the clock has gone back by more than an hour since the last
pass, and when it has gone back at all if that pass was within the first hour: the unsigned
difference wraps there. -/
theorem detectClockRoller_iff {m : TimerManager Cb} {now : UInt64} :
    m.detectClockRoller now = true ↔
      now.toNat + 3600000 < m.previousTime.toNat ∨
        (m.previousTime.toNat < 3600000 ∧ now.toNat < m.previousTime.toNat) := by
  have hprevious := m.previousTime.toNat_lt
  have hnow := now.toNat_lt
  simp only [detectClockRoller, Bool.and_eq_true, decide_eq_true_eq, UInt64.lt_iff_toNat_lt,
    UInt64.toNat_sub]
  have hhour : (60 * 60 * 1000 : UInt64).toNat = 3600000 := rfl
  rw [hhour]
  omega

/-- No roll-back is seen while time does not go backwards. -/
theorem detectClockRoller_of_le {m : TimerManager Cb} {now : UInt64}
    (h : m.previousTime ≤ now) : m.detectClockRoller now = false := by
  rw [← Bool.not_eq_true, detectClockRoller_iff]
  have hle := UInt64.le_iff_toNat_le.mp h
  omega

/-- A deadline depends on the timer only. -/
theorem nextOf_congr {m m' : TimerManager Cb} {a : Addr} (h : m'.heap a = m.heap a) :
    m'.nextOf a = m.nextOf a := by
  simp [nextOf, h]

/-- **Next collection.**  A timer of the set is next collected by the first
pass at or after its deadline. -/
theorem collectedAgain_of_mem (a : Addr) (calls : List (Call Cb)) :
    ∀ m : TimerManager Cb, Inv m → a ∈ m.timers →
      CollectedAgain a (m.nextOf a) m.previousTime m calls := by
  induction calls with
  | nil => intro m _ _; trivial
  | cons call calls ih =>
      intro m h ha
      by_cases hpass : ∃ now probe, call = .listExpiredCb now probe
      · obtain ⟨now, probe, rfl⟩ := hpass
        intro hlast
        have hdue : a ∈ m.expired now probe ↔ m.nextOf a ≤ now := by
          rw [mem_expired h, detectClockRoller_of_le hlast]
          simp [ha]
        refine ⟨hdue, fun hearly => ?_⟩
        have hkept : a ∉ m.expired now probe := by
          rw [hdue]
          grind
        obtain ⟨hinv, hprev, hother, -⟩ := listExpiredCb_spec h now probe
        obtain ⟨hheap, hmem⟩ := hother a hkept
        have hnext := nextOf_congr hheap
        have hnow := hprev (List.ne_nil_of_mem ha)
        have := ih _ hinv (hmem.mpr ha)
        rwa [hnext, hnow] at this
      · have hother : call.target ≠ some a → ∀ m', Step m call m' →
            CollectedAgain a (m.nextOf a) m.previousTime m' calls := by
          intro htarget m' hstep
          obtain ⟨hinv, hprev, hsame⟩ :=
            step_spec h hstep fun now probe heq => hpass ⟨now, probe, heq⟩
          obtain ⟨hheap, hmem⟩ := hsame a htarget
          have := ih m' hinv (hmem.mpr ha)
          rwa [nextOf_congr hheap, hprev] at this
        cases call with
        | listExpiredCb now probe => exact absurd ⟨now, probe, rfl⟩ hpass
        | _ => exact hother

/-- A collected recurring timer goes back into the set with its old deadline
added to `now + m_ms`. -/
theorem nextOf_collected {m : TimerManager Cb} (h : Inv m) {now : UInt64}
    {probe a : Addr} {t : Timer Cb} (ha : a ∈ m.expired now probe)
    (hheap : m.heap a = some t) (hrec : t.recuring = true) :
    a ∈ (m.listExpiredCb now probe).2.timers ∧
      (m.listExpiredCb now probe).2.nextOf a = t.next + (now + t.ms) := by
  obtain ⟨-, -, -, hgone⟩ := listExpiredCb_spec h now probe
  obtain ⟨hheap', hmem⟩ := hgone a ha t hheap
  refine ⟨hmem.mpr hrec, ?_⟩
  simp [nextOf, hheap', collectTimer, hrec]

/-- One call keeps the period exactly when the recurring timers it collects
have the deadline zero. -/
theorem keepsPeriod_iff {m : TimerManager Cb} (h : Inv m) (call : Call Cb) :
    KeepsPeriod m call ↔ CollectsAtZero m call := by
  cases call with
  | listExpiredCb now probe =>
      constructor
      · intro hkeeps a ha t hheap hrec
        obtain ⟨-, hnext, -⟩ := hkeeps a ha t hheap hrec
        have hsum := (nextOf_collected h ha hheap hrec).2.symm.trans hnext
        grind
      · intro hzero a ha t hheap hrec
        obtain ⟨hmem, hnext⟩ := nextOf_collected h ha hheap hrec
        obtain ⟨hinv, hprev, -, -⟩ := listExpiredCb_spec h now probe
        have hnow : (m.listExpiredCb now probe).2.previousTime = now :=
          hprev (List.ne_nil_of_mem ((expired_initial h now probe).subset ha))
        have hdeadline : (m.listExpiredCb now probe).2.nextOf a = now + t.ms := by
          rw [hnext, hzero a ha t hheap hrec]
          grind
        refine ⟨hmem, hdeadline, fun calls => ?_⟩
        have := collectedAgain_of_mem a calls _ hinv hmem
        rwa [hdeadline, hnow] at this
  | _ => exact Iff.rfl

/-- **Recurring timers.**  In a run of calls on a new manager every pass keeps
the period of the recurring timers it collects exactly when every recurring
timer is collected with the deadline zero. -/
theorem keepsPeriod_iff_collectsAtZero (start : UInt64) (calls : List (Call Cb)) :
    Along Step KeepsPeriod (new start) calls ↔
      Along Step CollectsAtZero (new start) calls :=
  along_iff_of_invariant (I := Inv) (V := fun _ => True)
    (fun _ call hinv _ => keepsPeriod_iff hinv call)
    (fun _ _ _ hinv _ _ hstep => step_inv hinv hstep)
    calls (new start) (inv_new start) (fun _ _ => trivial)

/-- A timer of one second, collected on time at 1001000, is put back with the
deadline 2003000 in place of 1002000. -/
theorem recurring_timer_loses_period :
    ¬ Along Step KeepsPeriod (new 1000000 : TimerManager Unit)
      [.addTimer 1 1000 (some ()) true 1000000, .listExpiredCb 1001000 0] := by
  rintro ⟨-, hrest⟩
  let t : Timer Unit := { recuring := true, ms := 1000, next := 1001000, cb := some () }
  let m : TimerManager Unit :=
    { heap := Function.update (fun _ => none) 1 (some t)
      timers := [1], tickled := true, previousTime := 1000000 }
  obtain ⟨hpass, -⟩ := hrest m ⟨.added true, rfl⟩
  obtain ⟨-, hnext, -⟩ := hpass 1 (by decide) t rfl rfl
  have hlate : (m.listExpiredCb 1001000 0).2.nextOf 1 = 2003000 := by decide
  rw [hlate] at hnext
  exact absurd hnext (by decide)

end TimerManager

end Agent
