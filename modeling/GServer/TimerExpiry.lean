import GServer.TimerHandles

/-!
# What an expiry pass collects

A pass of `listExpiredCb` at `now` cuts the set at the lower bound of a probe made
from `now`, moved on over the timers due at that very time; `expired_eq` says that
the cut is the end of the timers that are due.  Here the pass is described from
outside: which callbacks it hands over and in which order, and what it does to
the timers (`CollectsDue`).  A one-shot timer that was collected stays out of the
set in every later run, for as long as it exists.
-/

namespace Agent

open Runs SortedSet

namespace TimerManager

variable {Cb : Type}

/-- The callback of the timer at `a`. -/
def callbackOf (m : TimerManager Cb) (a : Addr) : Option Cb :=
  (m.heap a).bind Timer.cb

/-- The timer is spent: its callback is gone and it is out of the set. -/
structure Spent (m : TimerManager Cb) (a : Addr) : Prop where
  noCallback : ∃ t, m.heap a = some t ∧ t.cb = none
  outside : a ∉ m.timers

/-- What a pass at `now` should do. -/
structure CollectsDue (s : Tracked Cb) (now : UInt64) (probe : Addr) : Prop where
  /-- The callbacks of the pending timers that are due, or of all after a roll-back,
  each once and in the order of the deadlines. -/
  callbacks : ∃ gone : List Addr, gone.Nodup ∧
    (∀ a, a ∈ gone ↔ s.pending a = true ∧
      (s.manager.detectClockRoller now = true ∨ s.manager.nextOf a ≤ now)) ∧
    gone.Pairwise (fun a b => s.manager.nextOf a ≤ s.manager.nextOf b) ∧
    (s.manager.listExpiredCb now probe).1 = gone.map s.manager.callbackOf
  /-- The timers that are not due are left alone. -/
  untouched : s.manager.detectClockRoller now = false →
    ∀ a, s.pending a = true → now < s.manager.nextOf a →
      (s.manager.listExpiredCb now probe).2.heap a = s.manager.heap a ∧
      a ∈ (s.manager.listExpiredCb now probe).2.timers
  /-- A one-shot timer that is collected is spent, and no later pass collects it. -/
  oneShot : ∀ a t, s.pending a = true →
    s.manager.detectClockRoller now = true ∨ s.manager.nextOf a ≤ now →
    s.manager.heap a = some t → t.recuring = false →
      (s.manager.listExpiredCb now probe).2.Spent a ∧
      ∀ m, ReachableUnder (fun m => m = (s.manager.listExpiredCb now probe).2) EventStep
        (fun _ e => e ≠ .free a) m →
        ∀ now' probe', a ∉ m.expired now' probe'

/-! ## The callbacks -/

/-- Collecting one timer leaves the callbacks of the others. -/
theorem callbackOf_collectOne {now : UInt64} {m : TimerManager Cb} {a b : Addr}
    {t : Timer Cb} (hba : b ≠ a) :
    (collectOne now m a t).callbackOf b = m.callbackOf b := by
  unfold collectOne callbackOf
  split
  · rw [insertTimer_heap, setTimer_heap_of_ne hba]
  · rw [setTimer_heap_of_ne hba]

/-- The loop hands over the callbacks of the collected timers, as they were before
the pass. -/
theorem collect_callbacks (now : UInt64) (gone : List Addr) :
    ∀ m : TimerManager Cb, gone.Nodup → (∀ a ∈ gone, (m.heap a).isSome = true) →
      (collect now gone m).1 = gone.map m.callbackOf := by
  induction gone with
  | nil => intro m _ _; rfl
  | cons a rest ih =>
      intro m hnodup hallocated
      obtain ⟨harest, hnodup⟩ := List.nodup_cons.mp hnodup
      obtain ⟨t, ht⟩ := Option.isSome_iff_exists.mp (hallocated a List.mem_cons_self)
      have hother : ∀ b ∈ rest, b ≠ a := fun b hb heq => harest (heq ▸ hb)
      have hrest : ∀ b ∈ rest, ((collectOne now m a t).heap b).isSome = true := by
        intro b hb
        have hb' := hallocated b (List.mem_cons_of_mem a hb)
        unfold collectOne
        split
        · rwa [insertTimer_heap, setTimer_heap_of_ne (hother b hb)]
        · rwa [setTimer_heap_of_ne (hother b hb)]
      have hstep : (collect now (a :: rest) m).1 =
          t.cb :: (collect now rest (collectOne now m a t)).1 := by
        simp only [collect, ht]
        rfl
      have htail : rest.map (collectOne now m a t).callbackOf = rest.map m.callbackOf :=
        List.map_congr_left fun b hb => callbackOf_collectOne (hother b hb)
      have hhead : m.callbackOf a = t.cb := by simp [callbackOf, ht]
      rw [hstep, ih _ hnodup hrest, htail, List.map_cons, hhead]

/-- A pass hands over the callbacks of the timers it collects. -/
theorem listExpiredCb_callbacks {m : TimerManager Cb} (h : Inv m) (now : UInt64)
    (probe : Addr) :
    (m.listExpiredCb now probe).1 = (m.expired now probe).map m.callbackOf := by
  have hsub := (expired_initial h now probe).sublist
  have hnodup : (m.expired now probe).Nodup :=
    (h.sorted.nodup (less_strictLinear m)).sublist hsub
  unfold listExpiredCb
  by_cases hnil : m.timers = []
  · rw [if_pos (by simp [hnil])]
    simp [expired, hnil]
  · rw [if_neg (by simp [hnil])]
    refine collect_callbacks now _ _ hnodup fun a ha => ?_
    exact h.allocated a (hsub.subset ha)

/-- The collected timers are in the order of their deadlines. -/
theorem expired_pairwise {m : TimerManager Cb} (h : Inv m) (now : UInt64) (probe : Addr) :
    (m.expired now probe).Pairwise (fun a b => m.nextOf a ≤ m.nextOf b) := by
  have hsorted : Sorted m.less (m.expired now probe) :=
    h.sorted.sublist (expired_initial h now probe).sublist
  refine List.Pairwise.imp (fun {a b} hab => ?_) hsorted
  simp only [less, keyLess] at hab
  grind

/-! ## Spent timers -/

/-- Whether a timer is spent depends on the timer and the set only. -/
theorem Spent.congr {m m' : TimerManager Cb} {a : Addr} (h : Spent m a)
    (hheap : m'.heap a = m.heap a) (hmem : a ∈ m'.timers ↔ a ∈ m.timers) : Spent m' a :=
  ⟨by rw [hheap]; exact h.noCallback, fun ha => h.outside (hmem.mp ha)⟩

/-- No call changes a spent timer, and its address is not given away while the timer
is not freed. -/
theorem step_spent {m m' : TimerManager Cb} {e : Event Cb} {a : Addr} (hinv : Inv m)
    (h : Spent m a) (hfree : e ≠ .free a) (hstep : EventStep m e m') : Spent m' a := by
  obtain ⟨t, ht, hcb⟩ := h.noCallback
  cases e with
  | free b =>
      obtain ⟨-, rfl⟩ := free_eq hstep
      have hab : a ≠ b := fun heq => hfree (heq ▸ rfl)
      exact h.congr (Function.update_of_ne hab _ _) Iff.rfl
  | call c =>
      replace hstep := step_of_event hstep
      by_cases hpass : ∃ now probe, c = .listExpiredCb now probe
      · obtain ⟨now, probe, rfl⟩ := hpass
        obtain ⟨r, hr⟩ := hstep
        obtain ⟨-, rfl⟩ : _ ∧ (m.listExpiredCb now probe).2 = m' := by simpa [exec] using hr
        obtain ⟨-, -, hother, -⟩ := listExpiredCb_spec hinv now probe
        have hnot : a ∉ m.expired now probe := fun hexp =>
          h.outside ((mem_expired hinv).mp hexp).1
        obtain ⟨hheap, hmem⟩ := hother a hnot
        exact h.congr hheap hmem
      obtain ⟨-, -, hothers⟩ :=
        step_spec hinv hstep fun now probe heq => hpass ⟨now, probe, heq⟩
      by_cases htarget : c.target = some a
      · -- the calls on a timer without its callback change nothing
        have hsame : m' = m := by
          obtain ⟨r, hr⟩ := hstep
          cases c with
          | addTimer b ms cb recuring now =>
              obtain rfl : b = a := Option.some.inj htarget
              simp [exec, addTimer, ht] at hr
          | cancel b =>
              obtain rfl : b = a := Option.some.inj htarget
              obtain ⟨-, rfl⟩ : _ ∧ m = m' := by simpa [exec, cancel, ht, hcb] using hr
              rfl
          | refresh b now =>
              obtain rfl : b = a := Option.some.inj htarget
              obtain ⟨-, rfl⟩ : _ ∧ m = m' := by simpa [exec, refresh, ht, hcb] using hr
              rfl
          | reset b ms fromNow now =>
              obtain rfl : b = a := Option.some.inj htarget
              obtain ⟨-, hrun⟩ | ⟨-, -, hrun⟩ | ⟨-, hcb', -⟩ :=
                reset_cases hinv ht ms fromNow now
              · obtain ⟨-, rfl⟩ : _ ∧ m = m' := by simpa [exec, hrun] using hr
                rfl
              · obtain ⟨-, rfl⟩ : _ ∧ m = m' := by simpa [exec, hrun] using hr
                rfl
              · simp [hcb] at hcb'
          | getNextTimer now => cases htarget
          | hasTimer => cases htarget
          | listExpiredCb now probe => cases htarget
        rw [hsame]
        exact h
      · obtain ⟨hheap, hmem⟩ := hothers a htarget
        exact h.congr hheap hmem

/-- **Spent for good.**  While it exists, a spent timer is not collected again. -/
theorem Spent.never_collected {m m' : TimerManager Cb} {a : Addr} (hinv : Inv m)
    (h : Spent m a)
    (hrun : ReachableUnder (fun s => s = m) EventStep (fun _ e => e ≠ .free a) m')
    (now : UInt64) (probe : Addr) : a ∉ m'.expired now probe := by
  have hboth : Inv m' ∧ Spent m' a := by
    refine hrun.invariant (I := fun m => Inv m ∧ Spent m a) ?_ ?_
    · rintro s rfl
      exact ⟨hinv, h⟩
    · rintro s e s' ⟨hs, hspent⟩ hfree hstep
      exact ⟨eventStep_inv hs hstep, step_spent hs hspent hfree hstep⟩
  intro hexp
  exact hboth.2.outside ((mem_expired hboth.1).mp hexp).1

/-- A pass spends the one-shot timers it collects. -/
theorem spent_of_collected {m : TimerManager Cb} (h : Inv m) {now : UInt64}
    {probe a : Addr} {t : Timer Cb} (ha : a ∈ m.expired now probe)
    (ht : m.heap a = some t) (hrec : t.recuring = false) :
    (m.listExpiredCb now probe).2.Spent a := by
  obtain ⟨-, -, -, hgone⟩ := listExpiredCb_spec h now probe
  obtain ⟨hheap, hmem⟩ := hgone a ha t ht
  refine ⟨⟨_, hheap, by simp [collectTimer, hrec]⟩, fun hin => ?_⟩
  simp [hmem.mp hin] at hrec

/-- **Expiry is exact.**  In every state that a run of the manager reaches, and for
every reading of the clock and address of the probe, a pass collects exactly the
pending timers that are due. -/
theorem listExpiredCb_collects_due {start : UInt64} {s : Tracked Cb}
    (h : Reachable (fun s => s = Tracked.new start) Tracked.Step s) (now : UInt64)
    (probe : Addr) : CollectsDue s now probe := by
  obtain ⟨hinv, hpending⟩ := Tracked.reachable_inv h
  have hdue : ∀ a, a ∈ s.manager.expired now probe ↔ s.pending a = true ∧
      (s.manager.detectClockRoller now = true ∨ s.manager.nextOf a ≤ now) := by
    intro a
    rw [mem_expired hinv, hpending]
  refine ⟨⟨s.manager.expired now probe, ?_, hdue, expired_pairwise hinv now probe,
    listExpiredCb_callbacks hinv now probe⟩, ?_, ?_⟩
  · exact (hinv.sorted.nodup (less_strictLinear _)).sublist
      (expired_initial hinv now probe).sublist
  · intro hroll a ha hlate
    obtain ⟨-, -, hother, -⟩ := listExpiredCb_spec hinv now probe
    have hnot : a ∉ s.manager.expired now probe := by
      rw [hdue, hroll]
      grind
    obtain ⟨hheap, hmem⟩ := hother a hnot
    exact ⟨hheap, hmem.mpr ((hpending a).mp ha)⟩
  · intro a t ha hcut ht hrec
    have hexp : a ∈ s.manager.expired now probe := (hdue a).mpr ⟨ha, hcut⟩
    have hspent := spent_of_collected hinv hexp ht hrec
    refine ⟨hspent, fun m hrun now' probe' => ?_⟩
    exact hspent.never_collected (listExpiredCb_spec hinv now probe).1 hrun now' probe'

/-- Two timers due at the same time at addresses on both sides of the probe, and one
that is due later. -/
theorem collects_due_around_the_probe :
    ∃ s : Tracked Nat, Reachable (fun s => s = Tracked.new 0) Tracked.Step s ∧
      (s.manager.listExpiredCb 15 2).1 = [some 7, some 8] ∧ CollectsDue s 15 2 := by
  let calls : List (Event Nat) := [.call (.addTimer 3 10 (some 8) false 5),
    .call (.addTimer 1 10 (some 7) true 5), .call (.addTimer 4 11 (some 9) false 5)]
  obtain ⟨s, hreach, hcbs⟩ : ∃ s : Tracked Nat,
      Reachable (fun s => s = Tracked.new 0) Tracked.Step s ∧
        (s.manager.listExpiredCb 15 2).1 = [some 7, some 8] :=
    exists_view rfl (fun _ _ _ h => ⟨trivial, h⟩) calls (by decide)
  exact ⟨s, hreach, hcbs, listExpiredCb_collects_due hreach 15 2⟩

end TimerManager

end Agent
