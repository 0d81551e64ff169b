import GServer.Hook

/-!
# A hooked call with a timeout has a way out

The timer's callback sets `cancelled` and then cancels the event.  If the event
is registered by then, that wakes the call; if the call is still on its way to
`addEvent`, nothing is cancelled, the call registers the event and parks, and
every later callback returns at its first test.
-/

namespace Agent

open Runs

namespace Hook

variable {C : Type}

/-- The timer of the call is consumed: `cancelled` is set, and of the timers it has
armed none is pending or has its callback still to end. -/
def TimerConsumed (s : State C) (c : C) : Prop :=
  s.cancelled c = true ∧ ∀ i < s.rounds c, s.timers c i = .over

/-- The call is parked on a registered event with a finite timeout that has been
consumed. -/
def Stuck (io : DoIo C) (s : State C) (c : C) : Prop :=
  (s.phase c).isParked = true ∧ s.timeout c ≠ unlimited ∧ TimerConsumed s c ∧
    s.slot (io.fd c) (io.event c) = some c

/-- The call is between `retry` and the end of `addEvent`. -/
def Phase.onTheWay : Phase → Bool
  | .calling | .arming | .adding _ => true
  | _ => false

/-- A callback's `cancelEvent` does not come while its call is on the way to
`addEvent`, and its `epoll_ctl` does not fail. -/
def CancelsInTime (s : State C) : Act C → Prop
  | .cancelEvent c _ ok => (s.phase c).onTheWay = false ∧ ok = true
  | _ => True

instance (s : State C) : DecidablePred (CancelsInTime s) := fun a => by
  cases a with
  | cancelEvent c i ok => exact inferInstanceAs (Decidable (_ ∧ _))
  | _ => exact inferInstanceAs (Decidable True)

/-- The call tests `cancelled` before it registers its event again, and does not wait
for the event now. -/
def Settled (io : DoIo C) (s : State C) (c : C) : Prop :=
  match s.phase c with
  | .calling | .arming | .adding _ => False
  | .yielding _ | .parked _ => s.slot (io.fd c) (io.event c) ≠ some c
  | _ => True

/-- A call whose timer has gone off is settled, or a callback of it is about to cancel
its event. -/
structure CallInv (io : DoIo C) (s : State C) (c : C) : Prop where
  fresh : ∀ i, s.rounds c ≤ i → s.timers c i = .unarmed
  wayOut : s.cancelled c = true → (∃ i, s.timers c i = .marked) ∨ Settled io s c

/-- A call that has not begun is in order. -/
theorem callInv_start (io : DoIo C) (c : C) : CallInv io start c where
  fresh _ _ := rfl
  wayOut h := by simp [start] at h

/-- A call in order is not stuck. -/
theorem CallInv.not_stuck {io : DoIo C} {s : State C} {c : C} (h : CallInv io s c) :
    ¬ Stuck io s c := by
  intro hstuck
  obtain ⟨hparked, -, ⟨hcancelled, hover⟩, hslot⟩ := hstuck
  rcases h.wayOut hcancelled with ⟨i, hi⟩ | hsettled
  · by_cases hlt : i < s.rounds c
    · simp [hover i hlt] at hi
    · simp [h.fresh i (Nat.le_of_not_lt hlt)] at hi
  · cases hphase : s.phase c with
    | parked timer =>
        rw [Settled, hphase] at hsettled
        exact hsettled hslot
    | _ => simp [hphase, Phase.isParked] at hparked

/-! ## The steps of other calls -/

/-- What a step leaves alone of a call: where it is, its timers and its `cancelled`.
The call may lose its registration but does not get one. -/
structure Keeps (s s' : State C) (c : C) : Prop where
  phase : s'.phase c = s.phase c
  cancelled : s'.cancelled c = s.cancelled c
  rounds : s'.rounds c = s.rounds c
  timers : s'.timers c = s.timers c
  slot : ∀ fd event, s'.slot fd event = some c → s.slot fd event = some c

/-- Nothing has happened. -/
theorem Keeps.refl (s : State C) (c : C) : Keeps s s c :=
  ⟨rfl, rfl, rfl, rfl, fun _ _ h => h⟩

/-- Two steps of others, one after the other. -/
theorem Keeps.trans {s s' s'' : State C} {c : C} (h : Keeps s s' c) (h' : Keeps s' s'' c) :
    Keeps s s'' c where
  phase := h'.phase.trans h.phase
  cancelled := h'.cancelled.trans h.cancelled
  rounds := h'.rounds.trans h.rounds
  timers := h'.timers.trans h.timers
  slot fd event hslot := h.slot fd event (h'.slot fd event hslot)

/-- Another call registers. -/
theorem Keeps.register {io : DoIo C} {s : State C} {c d : C} (hne : c ≠ d) :
    Keeps s (s.register io d) c := by
  refine ⟨rfl, rfl, rfl, rfl, fun fd event h => ?_⟩
  by_cases hfd : fd = io.fd d
  · subst hfd
    by_cases hevent : event = io.event d
    · subst hevent
      simp [State.register, Ne.symm hne] at h
    · simpa [State.register, Function.update_of_ne hevent] using h
  · simpa [State.register, Function.update_of_ne hfd] using h

/-- What happens elsewhere keeps the invariant of a call. -/
theorem CallInv.keeps {io : DoIo C} {s s' : State C} {c : C} (h : CallInv io s c)
    (hkeeps : Keeps s s' c) : CallInv io s' c := by
  refine ⟨fun i hi => ?_, fun hcancelled => ?_⟩
  · rw [hkeeps.rounds] at hi
    rw [hkeeps.timers]
    exact h.fresh i hi
  · rw [hkeeps.cancelled] at hcancelled
    rcases h.wayOut hcancelled with ⟨i, hi⟩ | hsettled
    · exact Or.inl ⟨i, by rw [hkeeps.timers, hi]⟩
    · refine Or.inr ?_
      unfold Settled at hsettled ⊢
      rw [hkeeps.phase]
      cases hphase : s.phase c with
      | yielding timer | parked timer =>
          rw [hphase] at hsettled
          exact fun hslot => hsettled (hkeeps.slot _ _ hslot)
      | calling | arming | adding timer =>
          rw [hphase] at hsettled
          exact hsettled
      | _ => trivial

/-- A call on its way to `addEvent` is not settled. -/
theorem not_settled {io : DoIo C} {s : State C} {c : C} (h : (s.phase c).onTheWay = true) :
    ¬ Settled io s c := by
  intro hsettled
  unfold Settled at hsettled
  cases hphase : s.phase c with
  | calling | arming | adding timer =>
      rw [hphase] at hsettled
      exact hsettled
  | _ => simp [hphase, Phase.onTheWay] at h

section Steps

variable [DecidableEq C]

/-- Another call goes on. -/
theorem Keeps.move {s s' : State C} {c d : C} (h : Keeps s s' c) (hne : c ≠ d)
    (phase : Phase) : Keeps s (s'.move d phase) c :=
  ⟨(Function.update_of_ne hne _ _).trans h.phase, h.cancelled, h.rounds, h.timers, h.slot⟩

/-- The timer of another call changes. -/
theorem Keeps.setTimer {s s' : State C} {c d : C} (h : Keeps s s' c) (hne : c ≠ d)
    (i : Nat) (timer : TimerState) : Keeps s (s'.setTimer d i timer) c :=
  ⟨h.phase, h.cancelled, h.rounds, (Function.update_of_ne hne _ _).trans h.timers, h.slot⟩

/-- Another call cancels its timer. -/
theorem Keeps.cancelTimer {s s' : State C} {c d : C} (h : Keeps s s' c) (hne : c ≠ d)
    (timer : Option Nat) : Keeps s (s'.cancelTimer d timer) c := by
  cases timer with
  | none => exact h
  | some i =>
      by_cases hpending : s'.timers d i = .pending
      · simp only [State.cancelTimer, hpending, if_true]
        exact h.setTimer hne i .over
      · simp only [State.cancelTimer, hpending, if_false]
        exact h

/-- After a trigger nobody is registered for the event. -/
theorem trigger_slot_self (s : State C) (fd : Int) (event : EventType) :
    (s.trigger fd event).slot fd event = none := by
  unfold State.trigger
  split
  · assumption
  · simp

/-- An event is triggered. -/
theorem Keeps.trigger {s s' : State C} {c : C} (h : Keeps s s' c) (fd : Int)
    (event : EventType) : Keeps s (s'.trigger fd event) c := by
  unfold State.trigger
  split
  · exact h
  · refine ⟨h.phase, h.cancelled, h.rounds, h.timers, fun fd' event' hslot => ?_⟩
    refine h.slot fd' event' ?_
    by_cases hfd : fd' = fd
    · subst hfd
      by_cases hevent : event' = event
      · subst hevent
        simp at hslot
      · simpa [Function.update_of_ne hevent] using hslot
    · simpa [Function.update_of_ne hfd] using hslot

/-- All events of a descriptor are cancelled. -/
theorem Keeps.cancelAll {s s' : State C} {c : C} (h : Keeps s s' c) (fd : Int) (ok : Bool) :
    Keeps s (s'.cancelAll fd ok) c := by
  unfold State.cancelAll
  split
  · exact (h.trigger fd .read).trigger fd .write
  · exact h

/-- A descriptor is closed. -/
theorem keeps_close {io : DoIo C} {s s' : State C} {fd : Int} {stat : FdStat}
    {onIOManager ok : Bool} (h : close io s fd stat onIOManager ok = some s') (c : C) :
    Keeps s s' c := by
  obtain ⟨-, -, fds, -, -, rfl | rfl⟩ := close_cases h
  · exact ⟨rfl, rfl, rfl, rfl, fun _ _ h => h⟩
  · have hfds : Keeps s { s with fds := fds } c := ⟨rfl, rfl, rfl, rfl, fun _ _ h => h⟩
    have hall := hfds.cancelAll fd ok
    exact ⟨hall.phase, hall.cancelled, hall.rounds, hall.timers, hall.slot⟩

/-- A step of one call leaves every other call where it is. -/
theorem Own.keeps {io : DoIo C} {s s' : State C} {a : Act C} {c d : C}
    (h : Own io s d a s') (hne : c ≠ d) : Keeps s s' c := by
  have hrefl := Keeps.refl s c
  cases h with
  | enter hphase hchecks =>
      refine Keeps.move ?_ hne _
      exact ⟨rfl, Function.update_of_ne hne _ _, rfl, rfl, fun _ _ h => h⟩
  | pass hphase | call hphase =>
      refine Keeps.move ?_ hne _
      exact ⟨rfl, rfl, rfl, rfl, fun _ _ h => h⟩
  | arm hphase =>
      refine Keeps.move (Keeps.setTimer ?_ hne _ _) hne _
      exact ⟨rfl, rfl, Function.update_of_ne hne _ _, rfl, fun _ _ h => h⟩
  | register hphase hslot => exact (Keeps.register hne).move hne _
  | skipTimer hphase | fail hphase | yield hphase | timedOut hphase hcancelled
  | retry hphase hcancelled => exact hrefl.move hne _
  | undo hphase | cancelTimer hphase => exact (hrefl.cancelTimer hne _).move hne _
  | resume hphase hscheduled =>
      refine Keeps.move ?_ hne _
      exact ⟨rfl, rfl, rfl, rfl, fun _ _ h => h⟩
  | collect htimer | guard htimer => exact hrefl.setTimer hne _ _
  | mark htimer =>
      refine Keeps.setTimer ?_ hne _ _
      exact ⟨rfl, Function.update_of_ne hne _ _, rfl, rfl, fun _ _ h => h⟩
  | @cancelEvent i ok htimer =>
      apply Keeps.setTimer _ hne
      cases ok with
      | false => exact hrefl
      | true => exact hrefl.trigger _ _

/-- A step of another call, or of no call, leaves a call where it is. -/
theorem step_keeps {io : DoIo C} {s s' : State C} {a : Act C} {c : C}
    (hstep : Step io s a s') (hactor : a.actor ≠ some c) : Keeps s s' c := by
  cases hof : a.actor with
  | some d =>
      refine (step_own hstep hof).keeps fun heq => hactor ?_
      rw [hof, heq]
  | none =>
      cases step_elsewhere hstep hof with
      | trigger => exact (Keeps.refl s c).trigger _ _
      | close hclose => exact keeps_close hclose c
      | opened hget => exact ⟨rfl, rfl, rfl, rfl, fun _ _ h => h⟩
      | setTimeout hupdate | setUserNonblock hupdate =>
          exact ⟨rfl, rfl, rfl, rfl, fun _ _ h => h⟩

/-! ## The steps of the call itself -/

omit [DecidableEq C] in
/-- A timer that has been armed is not one of those to come. -/
theorem CallInv.ne_of_armed {io : DoIo C} {s : State C} {c : C} {k i : Nat} (h : CallInv io s c)
    (hk : s.rounds c ≤ k) (harmed : s.timers c i ≠ .unarmed) : k ≠ i := by
  intro heq
  subst heq
  exact harmed (h.fresh k hk)

/-- A timer that is armed and whose callback is not about to cancel the event changes
its state. -/
theorem CallInv.setTimer {io : DoIo C} {s : State C} {c : C} (h : CallInv io s c) {i : Nat}
    (timer : TimerState) (harmed : s.timers c i ≠ .unarmed) (hmarked : s.timers c i ≠ .marked) :
    CallInv io (s.setTimer c i timer) c := by
  have hother : ∀ k, k ≠ i → (s.setTimer c i timer).timers c k = s.timers c k := by
    intro k hk
    simp [State.setTimer, Function.update_of_ne hk]
  refine ⟨fun k hk => ?_, fun hcancelled => ?_⟩
  · rw [hother k (h.ne_of_armed hk harmed)]
    exact h.fresh k hk
  · rcases h.wayOut hcancelled with ⟨k, hk⟩ | hsettled
    · have hne : k ≠ i := by
        intro heq
        subst heq
        exact hmarked hk
      exact Or.inl ⟨k, by rw [hother k hne, hk]⟩
    · exact Or.inr hsettled

/-- Cancelling a timer keeps the call in order. -/
theorem CallInv.cancelTimer {io : DoIo C} {s : State C} {c : C} (h : CallInv io s c)
    (timer : Option Nat) : CallInv io (s.cancelTimer c timer) c := by
  cases timer with
  | none => exact h
  | some i =>
      by_cases hpending : s.timers c i = .pending
      · simp only [State.cancelTimer, hpending, if_true]
        apply h.setTimer .over <;> simp [hpending]
      · simp only [State.cancelTimer, hpending, if_false]
        exact h

/-- The call moves on; on its way to `addEvent` it was not settled. -/
theorem CallInv.move {io : DoIo C} {s : State C} {c : C} (h : CallInv io s c) (phase : Phase)
    (hmove : Settled io s c → Settled io (s.move c phase) c) : CallInv io (s.move c phase) c :=
  ⟨h.fresh, fun hcancelled => (h.wayOut hcancelled).imp_right hmove⟩

/-- A call that neither waits nor is on its way to it is settled. -/
theorem settled_move {io : DoIo C} {s : State C} {c : C} {phase : Phase}
    (hfree : phase.onTheWay = false) (hwait : ∀ timer, phase ≠ .yielding timer)
    (hparked : phase.isParked = false) : Settled io (s.move c phase) c := by
  have hphase : (s.move c phase).phase c = phase := Function.update_self ..
  unfold Settled
  rw [hphase]
  cases phase with
  | calling | arming | adding timer => simp [Phase.onTheWay] at hfree
  | yielding timer => exact absurd rfl (hwait timer)
  | parked timer => simp [Phase.isParked] at hparked
  | _ => trivial

/-- A step of the call in time keeps it in order. -/
theorem CallInv.own {io : DoIo C} {s s' : State C} {a : Act C} {c : C} (h : CallInv io s c)
    (hguard : CancelsInTime s a) (hown : Own io s c a s') : CallInv io s' c := by
  -- a call on its way to `addEvent` has a callback that is about to cancel its event
  have hmarked : (s.phase c).onTheWay = true → s.cancelled c = true →
      ∃ i, s.timers c i = .marked := by
    intro hway hcancelled
    exact (h.wayOut hcancelled).resolve_right (not_settled hway)
  have hcount : CallInv io (s.countRaw c) c := ⟨h.fresh, h.wayOut⟩
  cases hown with
  | enter hphase hchecks =>
      refine ⟨h.fresh, fun hcancelled => ?_⟩
      simp [State.move] at hcancelled
  | pass hphase => exact hcount.move _ fun _ => settled_move rfl (fun _ => Phase.noConfusion) rfl
  | call hphase =>
      refine hcount.move _ fun hsettled => absurd hsettled (not_settled ?_)
      simp [State.countRaw, hphase, Phase.onTheWay]
  | skipTimer hphase =>
      have hway : (s.phase c).onTheWay = true := by simp [hphase, Phase.onTheWay]
      exact h.move _ fun hsettled => absurd hsettled (not_settled hway)
  | arm hphase =>
      have hway : (s.phase c).onTheWay = true := by simp [hphase, Phase.onTheWay]
      refine ⟨fun k hk => ?_, fun hcancelled => ?_⟩
      · have hlt : s.rounds c + 1 ≤ k := by simpa [State.setTimer, State.move] using hk
        have hne : k ≠ s.rounds c := by omega
        simpa [State.setTimer, State.move, Function.update_of_ne hne] using
          h.fresh k (by omega)
      · obtain ⟨k, hk⟩ := hmarked hway hcancelled
        have hne : k ≠ s.rounds c :=
          (h.ne_of_armed (Nat.le_refl _) (by simp [hk])).symm
        refine Or.inl ⟨k, ?_⟩
        simpa [State.setTimer, State.move, Function.update_of_ne hne] using hk
  | register hphase hslot | fail hphase =>
      have hway : (s.phase c).onTheWay = true := by simp [hphase, Phase.onTheWay]
      exact ⟨h.fresh, fun hcancelled => Or.inl (hmarked hway hcancelled)⟩
  | undo hphase =>
      exact (h.cancelTimer _).move _ fun _ => settled_move rfl (fun _ => Phase.noConfusion) rfl
  | yield hphase =>
      refine h.move _ fun hsettled => ?_
      unfold Settled at hsettled ⊢
      rw [hphase] at hsettled
      simpa [State.move] using hsettled
  | resume hphase hscheduled =>
      refine ⟨h.fresh, fun _ => Or.inr ?_⟩
      exact settled_move rfl (fun _ => Phase.noConfusion) rfl
  | cancelTimer hphase =>
      exact (h.cancelTimer _).move _ fun _ => settled_move rfl (fun _ => Phase.noConfusion) rfl
  | timedOut hphase hcancelled =>
      exact h.move _ fun _ => settled_move rfl (fun _ => Phase.noConfusion) rfl
  | retry hphase hcancelled =>
      refine ⟨h.fresh, fun hset => ?_⟩
      have hset' : s.cancelled c = true := hset
      simp [hcancelled] at hset'
  | collect hpending => apply h.setTimer <;> simp [hpending]
  | guard hcollected => apply h.setTimer <;> simp [hcollected]
  | @mark i hpassed =>
      refine ⟨fun k hk => ?_, fun _ => Or.inl ⟨i, by simp [State.setTimer]⟩⟩
      have hne : k ≠ i := h.ne_of_armed hk (by simp [hpassed])
      simpa [State.setTimer, Function.update_of_ne hne] using h.fresh k hk
  | @cancelEvent i ok htimer =>
      obtain ⟨hfree, hok⟩ := hguard
      rw [if_pos hok]
      have hkeeps := (Keeps.refl s c).trigger (io.fd c) (io.event c)
      refine ⟨fun k hk => ?_, fun _ => Or.inr ?_⟩
      · have hk' : s.rounds c ≤ k := by
          rw [← hkeeps.rounds]
          exact hk
        have hne : k ≠ i := h.ne_of_armed hk' (by simp [htimer])
        simpa [State.setTimer, Function.update_of_ne hne, hkeeps.timers] using h.fresh k hk'
      · -- whatever was registered for the event is not any more
        have hslot := trigger_slot_self s (io.fd c) (io.event c)
        have hphase : ((s.trigger (io.fd c) (io.event c)).setTimer c i .over).phase c =
            s.phase c := hkeeps.phase
        unfold Settled
        rw [hphase]
        cases hat : s.phase c with
        | calling | arming | adding timer => simp [hat, Phase.onTheWay] at hfree
        | yielding timer | parked timer => simp [State.setTimer, hslot]
        | _ => trivial

/-- Every step in time keeps all calls in order. -/
theorem callInv_step {io : DoIo C} {s s' : State C} {a : Act C} (h : ∀ c, CallInv io s c)
    (hguard : CancelsInTime s a) (hstep : Step io s a s') (c : C) : CallInv io s' c := by
  by_cases hactor : a.actor = some c
  · exact (h c).own hguard (step_own hstep hactor)
  · exact (h c).keeps (step_keeps hstep hactor)

/-- **Timeouts.**  For any calls of `do_io` and every interleaving with the timers'
callbacks, the event loop and hooked `close`, `socket` and `accept`, no call is parked
on a registered event after its finite timeout has been consumed, as long as no
callback cancels the event while its call is between `retry` and the end of
`addEvent` and no `epoll_ctl` fails in it. -/
theorem reachable_not_stuck (io : DoIo C) {s : State C}
    (h : ReachableUnder (· = start) (Step io) CancelsInTime s) (c : C) : ¬ Stuck io s c := by
  have hinv : ∀ c, CallInv io s c := by
    refine h.invariant (I := fun s => ∀ c, CallInv io s c) ?_ ?_
    · intro s hs c
      subst hs
      exact callInv_start io c
    · intro s a s' hs hguard hstep
      exact callInv_step hs hguard hstep
  exact (hinv c).not_stuck

end Steps

instance (s : State C) (c : C) : Decidable (TimerConsumed s c) :=
  inferInstanceAs (Decidable (_ ∧ ∀ i < s.rounds c, _))

instance [DecidableEq C] (io : DoIo C) (s : State C) (c : C) : Decidable (Stuck io s c) :=
  inferInstanceAs (Decidable (_ ∧ _ ≠ _ ∧ _ ∧ _ = _))

/-- A read of descriptor 3. -/
def readOfThree : DoIo Unit := { fd := fun _ => 3, event := fun _ => .read }

/-- The read has a timeout of one second and would block; it arms its timer,
registers its event and parks.  `early` and `late` are the steps of the timer that
come before `addEvent` and after. -/
def readWithTimeout (early late : List (Act Unit)) : List (Act Unit) :=
  [.opened 3 .socket, .setTimeout 3 .socket true 1000, .enter () true .socket,
    .raw () (-1) .eagain, .arm ()] ++ early ++ [.addEvent () none, .yield ()] ++ late

/-- The timer goes off between `addConditionTimer` and `addEvent`. -/
theorem early_timer_leaves_call_stuck :
    ¬ ∀ s : State Unit, Reachable (· = start) (Step readOfThree) s →
      ∀ c, ¬ Stuck readOfThree s c := by
  intro hnot
  let acts := readWithTimeout
    [.collect () 0, .guard () 0 true, .mark () 0, .cancelEvent () 0 true] []
  obtain ⟨s, hreach, hstuck⟩ : ∃ s : State Unit, Reachable (· = start) (Step readOfThree) s ∧
      decide (Stuck readOfThree s ()) = true :=
    exists_view rfl (fun _ _ _ h => ⟨trivial, h⟩) acts (by decide)
  exact hnot s hreach () (of_decide_eq_true hstuck)

/-- The timer goes off while the call is parked. -/
theorem reachable_not_stuck_of_late_timer :
    ∃ s : State Unit, ReachableUnder (· = start) (Step readOfThree) CancelsInTime s ∧
      s.cancelled () = true ∧ s.scheduled () = true ∧ ∀ c, ¬ Stuck readOfThree s c := by
  let acts := readWithTimeout []
    [.collect () 0, .guard () 0 true, .mark () 0, .cancelEvent () 0 true]
  obtain ⟨s, hreach, hview⟩ : ∃ s : State Unit,
      ReachableUnder (· = start) (Step readOfThree) CancelsInTime s ∧
        (s.cancelled (), s.scheduled ()) = (true, true) :=
    exists_guarded_view rfl (fun _ _ _ h => h) acts (by decide)
  obtain ⟨hcancelled, hscheduled⟩ := Prod.mk.injEq .. ▸ hview
  exact ⟨s, hreach, hcancelled, hscheduled, reachable_not_stuck readOfThree hreach⟩

end Hook

end Agent
