import GServer.HookTimeout

/-!
# What a hooked call returns, and what it leaves behind

`do_io` comes back with the first answer of the raw function that is neither
`EINTR` nor `EAGAIN`, with `ETIMEDOUT`, or with the failure of `addEvent`.  On each
way out its timer has been cancelled and its event is not registered any more,
after however many rounds.

All rounds share one `timer_info`.  A callback that is late, collected before its
timer was cancelled, sets `cancelled` when the call is already awake, and the next
wait of the call ends with `ETIMEDOUT` although no timer has gone off in it.
-/

namespace Agent

open Runs

namespace Hook

variable {C : Type}

/-- The call has registered its event and has not been resumed. -/
def Phase.waits : Phase → Bool
  | .yielding _ | .parked _ => true
  | _ => false

/-- The call is between arming its timer and the end of `addEvent`. -/
def Phase.isAdding : Phase → Bool
  | .adding _ => true
  | _ => false

/-- The call returns whatever `cancelled` says. -/
def Phase.isLeaving : Phase → Bool
  | .undoing _ _ | .returned _ _ => true
  | _ => false

/-- The call is in one of its rounds, from `retry` to the test of `cancelled`. -/
def Phase.inRound : Phase → Bool
  | .calling | .arming | .adding _ | .yielding _ | .parked _ | .resumed _ | .testing => true
  | _ => false

/-- The timer that the call holds. -/
def Phase.timer : Phase → Option Nat
  | .adding timer | .undoing timer _ | .yielding timer | .parked timer | .resumed timer =>
      timer
  | _ => none

/-- An answer of the raw function after which it is called again. -/
def Retried (r : Int × Errno) : Prop :=
  r.1 = -1 ∧ (r.2 = .eintr ∨ r.2 = .eagain)

instance (r : Int × Errno) : Decidable (Retried r) :=
  inferInstanceAs (Decidable (_ ∧ _))

/-- A state with what has happened to each call: the answers of its raw function in
order, whether an `addEvent` of it has failed, and whether a callback of its timers has
set `cancelled` while it waited. -/
structure History (C : Type) where
  state : State C
  answers : C → List (Int × Errno)
  failed : C → Bool
  fired : C → Bool

def History.start : History C :=
  { state := Hook.start, answers := fun _ => [], failed := fun _ => false
    fired := fun _ => false }

section Steps

variable [DecidableEq C]

/-- What a step adds to the record. -/
def History.record (h : History C) : Act C → History C
  | .raw c n errno =>
      { h with answers := Function.update h.answers c (h.answers c ++ [(n, errno)]) }
  | .addEvent c (some _) => { h with failed := Function.update h.failed c true }
  | .mark c _ =>
      if (h.state.phase c).waits then { h with fired := Function.update h.fired c true } else h
  | _ => h

/-- One step, with its record. -/
def History.step (io : DoIo C) (h : History C) (a : Act C) : Option (History C) :=
  (Hook.step io h.state a).map fun s => { h.record a with state := s }

def History.Step (io : DoIo C) (h : History C) (a : Act C) (h' : History C) : Prop :=
  History.step io h a = some h'

/-- A step of a run with its history. -/
theorem History.step_cases {io : DoIo C} {h h' : History C} {a : Act C}
    (hstep : History.Step io h a h') :
    ∃ s, Hook.Step io h.state a s ∧ h' = { h.record a with state := s } := by
  obtain ⟨s, hs, rfl⟩ := Option.map_eq_some_iff.mp hstep
  exact ⟨s, hs, rfl⟩

/-- The record of a call is written by its own steps. -/
theorem History.record_other {h : History C} {a : Act C} {c : C} (hactor : a.actor ≠ some c) :
    (h.record a).answers c = h.answers c ∧ (h.record a).failed c = h.failed c ∧
      (h.record a).fired c = h.fired c := by
  cases a with
  | raw d n errno =>
      have hne : c ≠ d := fun heq => hactor (by rw [heq]; rfl)
      exact ⟨Function.update_of_ne hne _ _, rfl, rfl⟩
  | addEvent d failed =>
      have hne : c ≠ d := fun heq => hactor (by rw [heq]; rfl)
      cases failed with
      | none => exact ⟨rfl, rfl, rfl⟩
      | some errno => exact ⟨rfl, Function.update_of_ne hne _ _, rfl⟩
  | mark d i =>
      have hne : c ≠ d := fun heq => hactor (by rw [heq]; rfl)
      unfold record
      dsimp only
      split
      · exact ⟨rfl, rfl, Function.update_of_ne hne _ _⟩
      · exact ⟨rfl, rfl, rfl⟩
  | _ => exact ⟨rfl, rfl, rfl⟩

end Steps

/-- The result is the first answer that is not tried again, or -1 with `ETIMEDOUT` when
a timer of the call has gone off while it waited, or -1 when its `addEvent` has
failed. -/
def Explained (h : History C) (c : C) (n : Int) (errno : Errno) : Prop :=
  (∃ earlier, h.answers c = earlier ++ [(n, errno)] ∧ (∀ r ∈ earlier, Retried r) ∧
      ¬ Retried (n, errno)) ∨
    (n = -1 ∧ errno = .etimedout ∧ h.fired c = true) ∨
    (n = -1 ∧ h.failed c = true)

/-- No timer of the call is pending, and it is registered for no event. -/
def CleanedUp (s : State C) (c : C) : Prop :=
  (∀ i, s.timers c i ≠ .pending) ∧ ∀ fd event, s.slot fd event ≠ some c

/-- Once the call has returned, its result is explained and nothing of it is left. -/
def LeavesNothing (h : History C) (c : C) : Prop :=
  ∀ n errno, h.state.phase c = .returned n errno →
    Explained h c n errno ∧ CleanedUp h.state c

/-- No callback of a timer of the call runs between the arming of a timer and the end of
`addEvent`. -/
def OutsideAddEvent (c : C) (s : State C) : Act C → Prop
  | .guard d _ _ | .mark d _ | .cancelEvent d _ _ => d = c → (s.phase c).isAdding = false
  | _ => True

/-- A callback sets `cancelled` of the call only while the call waits for its event, or
when it is on its way out; and a call that is handed through is not answered `EINTR` or
`EAGAIN`. -/
def Timely (c : C) (s : State C) : Act C → Prop
  | .mark d _ => d = c → ((s.phase c).waits || (s.phase c).isLeaving) = true
  | .raw d n errno => d = c → s.phase c = .passing → ¬ Retried (n, errno)
  | _ => True

/-! ## The contexts stay open -/

/-- `m_isClosed` of every context is false. -/
def AllOpen (fds : FdManager) : Prop :=
  ∀ ctx ∈ fds.contexts, ctx.isClosed = false

/-- A new context is open. -/
theorem isClosed_new (fd : Int) (stat : FdStat) : (FdCtx.new fd stat).isClosed = false := by
  simp [FdCtx.new, FdCtx.init]

/-- A lookup closes no context. -/
theorem AllOpen.get {fds fds' : FdManager} {fd : Int} {autoCreate : Bool} {stat : FdStat}
    {p : Option FdCtxPtr} (h : AllOpen fds)
    (hget : fds.get fd autoCreate stat = some (p, fds')) : AllOpen fds' := by
  unfold FdManager.get at hget
  split at hget
  · cases hget
  · cases hget
    exact h
  · cases hget
    exact h
  · unfold FdManager.create at hget
    dsimp only at hget
    split at hget
    · cases hget
    · cases hget
      intro ctx hctx
      rcases List.mem_append.mp hctx with hold | hnew
      · exact h ctx hold
      · rw [List.mem_singleton.mp hnew]
        exact isClosed_new fd stat

/-- A deletion closes no context. -/
theorem AllOpen.del {fds fds' : FdManager} {fd : Int} (h : AllOpen fds)
    (hdel : fds.del fd = some fds') : AllOpen fds' := by
  unfold FdManager.del at hdel
  split at hdel
  · cases hdel
    exact h
  · split at hdel
    · cases hdel
    · cases hdel
      exact h

/-- A change that leaves the flag closes no context. -/
theorem AllOpen.modify {fds : FdManager} (h : AllOpen fds) (p : FdCtxPtr)
    {f : FdCtx → FdCtx} (hf : ∀ ctx, (f ctx).isClosed = ctx.isClosed) :
    AllOpen { fds with contexts := fds.contexts.modify p f } := by
  intro ctx hctx
  obtain ⟨i, hi, rfl⟩ := List.getElem_of_mem hctx
  rw [List.getElem_modify]
  split
  · rw [hf]
    exact h _ (List.getElem_mem _)
  · exact h _ (List.getElem_mem _)

/-- A change through the manager that leaves the flag closes no context. -/
theorem AllOpen.updateCtx {fds fds' : FdManager} {fd : Int} {stat : FdStat}
    {f : FdCtx → FdCtx} (h : AllOpen fds) (hf : ∀ ctx, (f ctx).isClosed = ctx.isClosed)
    (hupdate : updateCtx fds fd stat f = some fds') : AllOpen fds' := by
  unfold Hook.updateCtx at hupdate
  split at hupdate
  · cases hupdate
  · rename_i hget
    cases hupdate
    exact h.get hget
  · rename_i hget
    cases hupdate
    exact (h.get hget).modify _ hf

section Steps

variable [DecidableEq C]

omit [DecidableEq C] in
/-- Unless its context is closed, a call is handed through or goes on to `retry`. -/
theorem checks_spec {io : DoIo C} {fds fds' : FdManager} {c : C} {hooked : Bool}
    {stat : FdStat} {phase : Phase} {timeout : Nat} (hopen : AllOpen fds)
    (h : checks io fds c hooked stat = some (phase, timeout, fds')) :
    AllOpen fds' ∧ (phase = .passing ∨ phase = .calling) := by
  unfold checks at h
  split at h
  · cases h
    exact ⟨hopen, Or.inl rfl⟩
  · split at h
    · cases h
    · rename_i hget
      cases h
      exact ⟨hopen.get hget, Or.inl rfl⟩
    · rename_i p fds'' hget
      have hopen' : AllOpen fds'' := hopen.get hget
      split at h
      · cases h
      · rename_i ctx hctx
        have hctx' : ctx.isClosed = false := hopen' ctx (List.mem_of_getElem? hctx)
        rw [if_neg (by simp [hctx'])] at h
        split at h
        · cases h
          exact ⟨hopen', Or.inl rfl⟩
        · cases h
          exact ⟨hopen', Or.inr rfl⟩

/-- The hooked `close` closes no context: it drops it. -/
theorem AllOpen.close {io : DoIo C} {s s' : State C} {fd : Int} {stat : FdStat}
    {onIOManager ok : Bool} (hopen : AllOpen s.fds)
    (h : close io s fd stat onIOManager ok = some s') : AllOpen s'.fds := by
  obtain ⟨p, found, fds, hget, hdel, hs'⟩ := close_cases h
  have hopen' : AllOpen fds := by
    rcases hdel with rfl | hdel
    · exact hopen.get hget
    · exact (hopen.get hget).del hdel
  rcases hs' with rfl | rfl
  · exact hopen'
  · obtain ⟨slot, scheduled, heq⟩ := cancelAll_eq { s with fds := fds } fd ok
    rw [heq]
    exact hopen'

/-- No step closes a context. -/
theorem AllOpen.step {io : DoIo C} {s s' : State C} {a : Act C} (hopen : AllOpen s.fds)
    (hstep : Step io s a s') : AllOpen s'.fds := by
  cases hof : a.actor with
  | some c =>
      cases step_own hstep hof with
      | enter hphase hchecks => exact (checks_spec hopen hchecks).1
      | @undo timer errno hphase | @cancelTimer timer hphase =>
          obtain ⟨timers, heq⟩ := cancelTimer_eq s c timer
          rw [heq]
          exact hopen
      | @cancelEvent i ok htimer =>
          cases ok with
          | false => exact hopen
          | true =>
              obtain ⟨slot, scheduled, heq⟩ := trigger_eq s (io.fd c) (io.event c)
              rw [if_pos rfl, heq]
              exact hopen
      | _ => exact hopen
  | none =>
      cases step_elsewhere hstep hof with
      | @trigger fd event =>
          obtain ⟨slot, scheduled, heq⟩ := trigger_eq s fd event
          rw [heq]
          exact hopen
      | close hclose => exact hopen.close hclose
      | opened hget => exact hopen.get hget
      | @setTimeout fd stat receive ms fds hupdate =>
          refine hopen.updateCtx (fun ctx => ?_) hupdate
          cases receive <;> rfl
      | setUserNonblock hupdate =>
          refine hopen.updateCtx (fun ctx => ?_) hupdate
          unfold Hook.setUserNonblock
          split <;> rfl

/-! ## The registrations -/

/-- A call is registered for its own event only, while it waits and has not been
scheduled; and it is scheduled only while it waits. -/
structure Awaits (io : DoIo C) (s : State C) (c : C) : Prop where
  slot : ∀ fd event, s.slot fd event = some c →
    fd = io.fd c ∧ event = io.event c ∧ (s.phase c).waits = true ∧ s.scheduled c = false
  scheduled : s.scheduled c = true → (s.phase c).waits = true

omit [DecidableEq C] in
/-- A call that does not wait has no registration and is not scheduled. -/
theorem Awaits.idle {io : DoIo C} {s : State C} {c : C} (h : Awaits io s c)
    (hidle : (s.phase c).waits = false) :
    (∀ fd event, s.slot fd event ≠ some c) ∧ s.scheduled c = false := by
  refine ⟨fun fd event hslot => ?_, ?_⟩
  · rw [(h.slot fd event hslot).2.2.1] at hidle
    cases hidle
  · cases hscheduled : s.scheduled c with
    | false => rfl
    | true =>
        rw [h.scheduled hscheduled] at hidle
        cases hidle

omit [DecidableEq C] in
/-- A call that did not wait may go anywhere as long as it is not registered. -/
theorem Awaits.of_idle {io : DoIo C} {s s' : State C} {c : C} (h : Awaits io s c)
    (hidle : (s.phase c).waits = false) (hslot : s'.slot = s.slot)
    (hscheduled : s'.scheduled = s.scheduled) : Awaits io s' c := by
  obtain ⟨hnone, hnot⟩ := h.idle hidle
  refine ⟨fun fd event hfd => ?_, fun htrue => ?_⟩
  · rw [hslot] at hfd
    exact absurd hfd (hnone fd event)
  · rw [hscheduled, hnot] at htrue
    cases htrue

omit [DecidableEq C] in
/-- A step of another call leaves a call waiting as it was. -/
theorem Awaits.of_keeps {io : DoIo C} {s s' : State C} {c : C} (h : Awaits io s c)
    (hkeeps : Keeps s s' c) (hscheduled : s'.scheduled c = s.scheduled c) :
    Awaits io s' c := by
  refine ⟨fun fd event hslot => ?_, fun htrue => ?_⟩
  · rw [hkeeps.phase, hscheduled]
    exact h.slot fd event (hkeeps.slot fd event hslot)
  · rw [hkeeps.phase]
    exact h.scheduled (hscheduled ▸ htrue)

/-- A trigger takes the registration away and schedules the call. -/
theorem Awaits.trigger {io : DoIo C} {s : State C} {c : C} (h : Awaits io s c) (fd : Int)
    (event : EventType) : Awaits io (s.trigger fd event) c := by
  have hkeeps := (Keeps.refl s c).trigger fd event
  cases hslot : s.slot fd event with
  | none =>
      have hsame : s.trigger fd event = s := by simp only [State.trigger, hslot]
      rw [hsame]
      exact h
  | some d =>
      by_cases heq : d = c
      · subst heq
        obtain ⟨rfl, rfl, hwaits, -⟩ := h.slot fd event hslot
        refine ⟨fun fd' event' hslot' => ?_, fun _ => ?_⟩
        · -- the only place where the call was registered is empty now
          obtain ⟨rfl, rfl, -, -⟩ := h.slot fd' event' (hkeeps.slot fd' event' hslot')
          rw [trigger_slot_self] at hslot'
          cases hslot'
        · rw [hkeeps.phase]
          exact hwaits
      · refine h.of_keeps hkeeps ?_
        simp only [State.trigger, hslot]
        exact Function.update_of_ne (Ne.symm heq) _ _

/-- `cancelAll` schedules who waits. -/
theorem Awaits.cancelAll {io : DoIo C} {s : State C} {c : C} (h : Awaits io s c) (fd : Int)
    (ok : Bool) : Awaits io (s.cancelAll fd ok) c := by
  unfold State.cancelAll
  split
  · exact (h.trigger fd .read).trigger fd .write
  · exact h

/-- The hooked `close` schedules who waits. -/
theorem Awaits.close {io : DoIo C} {s s' : State C} {fd : Int} {stat : FdStat}
    {onIOManager ok : Bool} {c : C} (h : Awaits io s c)
    (hclose : Hook.close io s fd stat onIOManager ok = some s') : Awaits io s' c := by
  obtain ⟨-, -, fds, -, -, rfl | rfl⟩ := close_cases hclose
  · exact ⟨h.slot, h.scheduled⟩
  · have hfds : Awaits io { s with fds := fds } c := ⟨h.slot, h.scheduled⟩
    have hall := hfds.cancelAll fd ok
    exact ⟨hall.slot, hall.scheduled⟩

/-- A call that does not wait registers its event. -/
theorem Awaits.register {io : DoIo C} {s : State C} {c : C} (h : Awaits io s c)
    (hidle : (s.phase c).waits = false) (timer : Option Nat) :
    Awaits io ((s.register io c).move c (.yielding timer)) c := by
  obtain ⟨hnone, hnot⟩ := h.idle hidle
  have hwaits : (((s.register io c).move c (.yielding timer)).phase c).waits = true := by
    simp [State.move, Phase.waits]
  refine ⟨fun fd event hslot => ?_, fun _ => hwaits⟩
  by_cases hat : fd = io.fd c ∧ event = io.event c
  · exact ⟨hat.1, hat.2, hwaits, hnot⟩
  · have hold : ((s.register io c).move c (.yielding timer)).slot fd event =
        s.slot fd event := by
      simp only [State.move, State.register]
      by_cases hfd : fd = io.fd c
      · have hevent : event ≠ io.event c := fun heq => hat ⟨hfd, heq⟩
        subst hfd
        rw [Function.update_self, Function.update_of_ne hevent]
      · rw [Function.update_of_ne hfd]
    rw [hold] at hslot
    exact absurd hslot (hnone fd event)

/-- A step of the call keeps what it waits for. -/
theorem Awaits.own {io : DoIo C} {s s' : State C} {a : Act C} {c : C} (h : Awaits io s c)
    (hown : Own io s c a s') : Awaits io s' c := by
  cases hown with
  | enter hphase hchecks => exact h.of_idle (by simp [hphase, Phase.waits]) rfl rfl
  | pass hphase | call hphase | skipTimer hphase | arm hphase | fail hphase
  | timedOut hphase hcancelled | retry hphase hcancelled =>
      exact h.of_idle (by simp [hphase, Phase.waits]) rfl rfl
  | register hphase hslot => exact h.register (by simp [hphase, Phase.waits]) _
  | @undo timer errno hphase | @cancelTimer timer hphase =>
      obtain ⟨timers, heq⟩ := cancelTimer_eq s c timer
      rw [heq]
      exact h.of_idle (by simp [hphase, Phase.waits]) rfl rfl
  | @yield timer hphase =>
      have hwaits : ((s.move c (.parked timer)).phase c).waits = true := by
        simp [State.move, Phase.waits]
      refine ⟨fun fd event hslot => ?_, fun _ => hwaits⟩
      obtain ⟨hfd, hevent, -, hnot⟩ := h.slot fd event hslot
      exact ⟨hfd, hevent, hwaits, hnot⟩
  | @resume timer hphase hscheduled =>
      -- once the call has been scheduled it is registered nowhere
      refine ⟨fun fd event hslot => ?_, fun htrue => ?_⟩
      · have hnot := (h.slot fd event hslot).2.2.2
        rw [hscheduled] at hnot
        cases hnot
      · simp [State.move] at htrue
  | collect htimer | guard htimer | mark htimer => exact ⟨h.slot, h.scheduled⟩
  | @cancelEvent i ok htimer =>
      cases ok with
      | false => exact ⟨h.slot, h.scheduled⟩
      | true =>
          have htrigger := h.trigger (io.fd c) (io.event c)
          exact ⟨htrigger.slot, htrigger.scheduled⟩

/-- A step of another call. -/
theorem Awaits.other {io : DoIo C} {s s' : State C} {a : Act C} {c d : C}
    (h : Awaits io s c) (hown : Own io s d a s') (hne : c ≠ d) : Awaits io s' c := by
  have hkeeps := hown.keeps hne
  cases hown with
  | resume hphase hscheduled => exact h.of_keeps hkeeps (Function.update_of_ne hne _ _)
  | @undo timer errno hphase | @cancelTimer timer hphase =>
      refine h.of_keeps hkeeps ?_
      obtain ⟨timers, heq⟩ := cancelTimer_eq s d timer
      rw [heq]
      rfl
  | @cancelEvent i ok htimer =>
      cases ok with
      | false => exact h.of_keeps hkeeps rfl
      | true =>
          have htrigger := h.trigger (io.fd d) (io.event d)
          exact ⟨htrigger.slot, htrigger.scheduled⟩
  | _ => exact h.of_keeps hkeeps rfl

/-- Every step keeps what a call waits for. -/
theorem Awaits.step {io : DoIo C} {s s' : State C} {a : Act C} {c : C} (h : Awaits io s c)
    (hstep : Step io s a s') : Awaits io s' c := by
  cases hof : a.actor with
  | some d =>
      by_cases heq : c = d
      · subst heq
        exact h.own (step_own hstep hof)
      · exact h.other (step_own hstep hof) heq
  | none =>
      cases step_elsewhere hstep hof with
      | trigger => exact h.trigger _ _
      | close hclose => exact h.close hclose
      | opened hget => exact ⟨h.slot, h.scheduled⟩
      | setTimeout hupdate | setUserNonblock hupdate => exact ⟨h.slot, h.scheduled⟩

/-! ## The timers -/

/-- Of the timers of a call none is pending but the one that it holds. -/
def TimersHeld (s : State C) (c : C) : Prop :=
  ∀ i, s.timers c i = .pending → (s.phase c).timer = some i

omit [DecidableEq C] in
/-- A call that holds no timer has none pending, wherever it goes. -/
theorem TimersHeld.of_none {s s' : State C} {c : C} (h : TimersHeld s c)
    (hnone : (s.phase c).timer = none) (htimers : s'.timers c = s.timers c) :
    TimersHeld s' c := by
  intro i hi
  have htimer := h i (htimers ▸ hi)
  rw [hnone] at htimer
  cases htimer

omit [DecidableEq C] in
/-- With the same timers they are held. -/
theorem TimersHeld.of_same {s s' : State C} {c : C} (h : TimersHeld s c)
    (htimer : (s'.phase c).timer = (s.phase c).timer) (htimers : s'.timers c = s.timers c) :
    TimersHeld s' c := by
  intro i hi
  rw [htimer]
  exact h i (htimers ▸ hi)

/-- A timer that has gone off is not pending any more. -/
theorem TimersHeld.setTimer {s : State C} {c : C} (h : TimersHeld s c) (i : Nat)
    {timer : TimerState} (hgone : timer ≠ .pending) : TimersHeld (s.setTimer c i timer) c := by
  intro k hk
  by_cases heq : k = i
  · subst heq
    simp only [State.setTimer, Function.update_self] at hk
    exact absurd hk hgone
  · simp only [State.setTimer, Function.update_self, Function.update_of_ne heq] at hk
    exact h k hk

/-- `Timer::cancel` on the timer that the call holds leaves none pending. -/
theorem TimersHeld.cancelTimer {s : State C} {c : C} (h : TimersHeld s c) (i : Nat) :
    (s.cancelTimer c (s.phase c).timer).timers c i ≠ .pending := by
  intro hi
  cases htimer : (s.phase c).timer with
  | none =>
      rw [htimer] at hi
      rw [h i hi] at htimer
      cases htimer
  | some k =>
      rw [htimer] at hi
      by_cases hpending : s.timers c k = .pending
      · simp only [State.cancelTimer, hpending, if_true, State.setTimer,
          Function.update_self] at hi
        by_cases heq : i = k
        · subst heq
          simp at hi
        · rw [Function.update_of_ne heq] at hi
          have hheld := h i hi
          rw [htimer] at hheld
          exact heq (Option.some.inj hheld).symm
      · simp only [State.cancelTimer, hpending, if_false] at hi
        have hheld := h i hi
        rw [htimer] at hheld
        obtain rfl : k = i := Option.some.inj hheld
        exact hpending hi

/-- A step of the call keeps its timers held. -/
theorem TimersHeld.own {io : DoIo C} {s s' : State C} {a : Act C} {c : C}
    (h : TimersHeld s c) (hown : Own io s c a s') : TimersHeld s' c := by
  cases hown with
  | enter hphase hchecks => exact h.of_none (by rw [hphase]; rfl) rfl
  | pass hphase | call hphase | skipTimer hphase | timedOut hphase hcancelled
  | retry hphase hcancelled => exact h.of_none (by rw [hphase]; rfl) rfl
  | arm hphase =>
      intro i hi
      by_cases heq : i = s.rounds c
      · subst heq
        simp [State.move, Phase.timer]
      · have hold : s.timers c i = .pending := by
          simpa [State.move, State.setTimer, Function.update_of_ne heq] using hi
        have htimer := h i hold
        rw [hphase] at htimer
        cases htimer
  | register hphase hslot | fail hphase | yield hphase | resume hphase hscheduled =>
      refine h.of_same ?_ rfl
      rw [hphase]
      simp [State.move, Phase.timer]
  | @undo timer errno hphase | @cancelTimer timer hphase =>
      intro i hi
      have hcancel := h.cancelTimer i
      rw [hphase] at hcancel
      exact absurd hi hcancel
  | collect htimer | mark htimer => exact h.setTimer _ (by simp)
  | guard htimer =>
      refine h.setTimer _ ?_
      split <;> simp
  | @cancelEvent i ok htimer =>
      cases ok with
      | false => exact h.setTimer _ (by simp)
      | true =>
          have hkeeps := (Keeps.refl s c).trigger (io.fd c) (io.event c)
          have htrigger : TimersHeld (s.trigger (io.fd c) (io.event c)) c :=
            h.of_same (by rw [hkeeps.phase]) hkeeps.timers
          exact htrigger.setTimer _ (by simp)

/-- Every step keeps the timers of a call held. -/
theorem TimersHeld.step {io : DoIo C} {s s' : State C} {a : Act C} {c : C}
    (h : TimersHeld s c) (hstep : Step io s a s') : TimersHeld s' c := by
  by_cases hactor : a.actor = some c
  · exact h.own (step_own hstep hactor)
  · have hkeeps := step_keeps hstep hactor
    exact h.of_same (by rw [hkeeps.phase]) hkeeps.timers

/-- What every run keeps of a call, whatever the callbacks of its timers do. -/
structure Tidy (io : DoIo C) (s : State C) (c : C) : Prop where
  allOpen : AllOpen s.fds
  awaits : Awaits io s c
  timers : TimersHeld s c

omit [DecidableEq C] in
/-- A call that has not begun is tidy. -/
theorem tidy_start (io : DoIo C) (c : C) : Tidy io start c where
  allOpen ctx hctx := by simp [start, FdManager.new] at hctx
  awaits := by constructor <;> simp [start]
  timers i hi := by simp [start] at hi

/-- Every step keeps a call tidy. -/
theorem Tidy.step {io : DoIo C} {s s' : State C} {a : Act C} {c : C} (h : Tidy io s c)
    (hstep : Step io s a s') : Tidy io s' c :=
  ⟨h.allOpen.step hstep, h.awaits.step hstep, h.timers.step hstep⟩

omit [DecidableEq C] in
/-- A tidy call that has returned has cleaned up. -/
theorem Tidy.cleanedUp {io : DoIo C} {s : State C} {c : C} (h : Tidy io s c)
    (hreturned : (s.phase c).hasReturned = true) : CleanedUp s c := by
  cases hphase : s.phase c with
  | returned n errno =>
      refine ⟨fun i hi => ?_, (h.awaits.idle (by rw [hphase]; rfl)).1⟩
      have htimer := h.timers i hi
      rw [hphase] at htimer
      cases htimer
  | _ => simp [hphase, Phase.hasReturned] at hreturned

/-- In every run of `do_io`, a call that has returned has no timer pending and no event
registered. -/
theorem reachable_cleanedUp (io : DoIo C) {s : State C}
    (h : Reachable (· = start) (Step io) s) (c : C)
    (hreturned : (s.phase c).hasReturned = true) : CleanedUp s c := by
  have hinv : Tidy io s c := by
    refine h.invariant (I := fun s => Tidy io s c) ?_ ?_
    · intro s hs
      subst hs
      exact tidy_start io c
    · intro s a s' hs _ hstep
      exact hs.step hstep
  exact hinv.cleanedUp hreturned

/-! ## The results -/

/-- What the record of a call tells when the call is in this phase. -/
def Told (h : History C) (c : C) : Phase → Prop
  | .entry | .passing => h.answers c = []
  | .undoing _ _ => h.failed c = true
  | .returned n errno => Explained h c n errno
  | _ => ∀ r ∈ h.answers c, Retried r

/-- The record of a call explains where it is; and unless it is on its way out,
`cancelled` has been set by a callback that came while it waited. -/
structure Outcome (h : History C) (c : C) : Prop where
  told : Told h c (h.state.phase c)
  cancelled : h.state.cancelled c = true →
    h.fired c = true ∨ (h.state.phase c).isLeaving = true

omit [DecidableEq C] in
/-- Nothing has been answered yet. -/
theorem outcome_start (c : C) : Outcome (History.start (C := C)) c where
  told := rfl
  cancelled h := by simp [History.start, start] at h

omit [DecidableEq C] in
/-- Within a round all answers have been retried. -/
theorem told_inRound {h : History C} {c : C} {phase : Phase} (hround : phase.inRound = true) :
    Told h c phase ↔ ∀ r ∈ h.answers c, Retried r := by
  cases phase with
  | entry | passing | undoing timer errno | returned n errno => simp [Phase.inRound] at hround
  | _ => exact Iff.rfl

omit [DecidableEq C] in
/-- What is told where the call is. -/
theorem Outcome.told_at {h : History C} {c : C} {phase : Phase} (ho : Outcome h c)
    (hphase : h.state.phase c = phase) : Told h c phase :=
  hphase ▸ ho.told

omit [DecidableEq C] in
/-- A call that is cancelled in a round has had a timer go off. -/
theorem Outcome.fired {h : History C} {c : C} (ho : Outcome h c)
    (hround : (h.state.phase c).inRound = true) (hcancelled : h.state.cancelled c = true) :
    h.fired c = true := by
  refine (ho.cancelled hcancelled).resolve_right fun hleaving => ?_
  cases hphase : h.state.phase c with
  | undoing timer errno | returned n errno => simp [hphase, Phase.inRound] at hround
  | _ => simp [hphase, Phase.isLeaving] at hleaving

omit [DecidableEq C] in
/-- A call goes on within its rounds. -/
theorem Outcome.goOn {h h' : History C} {c : C} (ho : Outcome h c)
    (hround : (h.state.phase c).inRound = true) (hround' : (h'.state.phase c).inRound = true)
    (hanswers : ∀ r ∈ h'.answers c, r ∈ h.answers c ∨ Retried r)
    (hfired : h'.fired c = h.fired c)
    (hcancelled : h'.state.cancelled c = h.state.cancelled c) : Outcome h' c := by
  have htold := (told_inRound hround).mp ho.told
  refine ⟨(told_inRound hround').mpr fun r hr => ?_, fun htrue => Or.inl ?_⟩
  · exact (hanswers r hr).elim (htold r) id
  · rw [hfired]
    exact ho.fired hround (hcancelled ▸ htrue)

omit [DecidableEq C] in
/-- Nothing happens to a call and its record. -/
theorem Outcome.of_same {h h' : History C} {c : C} (ho : Outcome h c)
    (hphase : h'.state.phase c = h.state.phase c)
    (hcancelled : h'.state.cancelled c = h.state.cancelled c)
    (hanswers : h'.answers c = h.answers c) (hfailed : h'.failed c = h.failed c)
    (hfired : h'.fired c = h.fired c) : Outcome h' c := by
  refine ⟨?_, fun htrue => ?_⟩
  · have htold := ho.told
    unfold Told Explained at htold ⊢
    rw [hphase, hanswers, hfailed, hfired]
    exact htold
  · rw [hphase, hfired]
    exact ho.cancelled (hcancelled ▸ htrue)

omit [DecidableEq C] in
/-- A call returns. -/
theorem Outcome.returned {h : History C} {c : C} {n : Int} {errno : Errno}
    (hphase : h.state.phase c = .returned n errno) (hexplained : Explained h c n errno) :
    Outcome h c := by
  refine ⟨?_, fun _ => Or.inr ?_⟩
  · rw [hphase]
    exact hexplained
  · rw [hphase]
    rfl

/-- The end of a raw call in a round. -/
theorem Outcome.answer {h : History C} {c : C} (ho : Outcome h c)
    (hphase : h.state.phase c = .calling) (n : Int) (errno : Errno) :
    Outcome { h.record (.raw c n errno) with
      state := (h.state.countRaw c).move c (afterRaw n errno) } c := by
  have hround : (h.state.phase c).inRound = true := by rw [hphase]; rfl
  have hphase' : ((h.state.countRaw c).move c (afterRaw n errno)).phase c =
      afterRaw n errno := Function.update_self ..
  have hanswers : (h.record (.raw c n errno)).answers c = h.answers c ++ [(n, errno)] :=
    Function.update_self ..
  by_cases hretried : Retried (n, errno)
  · -- the call tries again, or waits first
    refine ho.goOn hround ?_ (fun r hr => ?_) rfl rfl
    · rw [hphase']
      obtain ⟨rfl, rfl | rfl⟩ : n = -1 ∧ (errno = .eintr ∨ errno = .eagain) := hretried
      · rfl
      · rfl
    · rw [hanswers] at hr
      rcases List.mem_append.mp hr with hold | hnew
      · exact Or.inl hold
      · rw [List.mem_singleton.mp hnew]
        exact Or.inr hretried
  · have hafter : afterRaw n errno = .returned n errno := by
      unfold afterRaw
      rw [if_neg fun hboth => hretried ⟨hboth.1, Or.inl hboth.2⟩,
        if_neg fun hboth => hretried ⟨hboth.1, Or.inr hboth.2⟩]
    refine Outcome.returned (hphase'.trans hafter) (Or.inl ⟨h.answers c, hanswers, ?_, hretried⟩)
    exact (told_inRound hround).mp ho.told

/-- A callback of the call sets `cancelled` in time. -/
theorem Outcome.mark {h : History C} {c : C} (ho : Outcome h c) (i : Nat)
    (htimely : ((h.state.phase c).waits || (h.state.phase c).isLeaving) = true) :
    Outcome { h.record (.mark c i) with
      state := { h.state with
        cancelled := Function.update h.state.cancelled c true }.setTimer c i .marked } c := by
  by_cases hwaits : (h.state.phase c).waits = true
  · have hrecord : h.record (.mark c i) =
        { h with fired := Function.update h.fired c true } := if_pos hwaits
    have hround : (h.state.phase c).inRound = true := by
      cases hphase : h.state.phase c with
      | yielding timer | parked timer => rfl
      | _ => simp [hphase, Phase.waits] at hwaits
    rw [hrecord]
    have htold := (told_inRound hround).mp ho.told
    refine ⟨(told_inRound ?_).mpr ?_, fun _ => Or.inl (Function.update_self ..)⟩
    · exact hround
    · exact htold
  · have hrecord : h.record (.mark c i) = h := if_neg hwaits
    have hleaving : (h.state.phase c).isLeaving = true := by simpa [hwaits] using htimely
    rw [hrecord]
    exact ⟨ho.told, fun _ => Or.inr hleaving⟩

/-- A step of the call keeps the outcome. -/
theorem Outcome.own {io : DoIo C} {h : History C} {s : State C} {a : Act C} {c : C}
    (ho : Outcome h c) (hopen : AllOpen h.state.fds) (htimely : Timely c h.state a)
    (hown : Own io h.state c a s) : Outcome { h.record a with state := s } c := by
  cases hown with
  | enter hphase hchecks =>
      have hanswers : h.answers c = [] := ho.told_at hphase
      refine ⟨?_, fun htrue => ?_⟩
      · rcases (checks_spec hopen hchecks).2 with rfl | rfl
        · simpa [State.move, History.record, Told] using hanswers
        · simp [State.move, History.record, Told, hanswers]
      · simp [State.move] at htrue
  | @pass n errno hphase =>
      have hanswers : h.answers c = [] := ho.told_at hphase
      refine Outcome.returned (Function.update_self ..) (Or.inl ⟨[], ?_, ?_, ?_⟩)
      · simp [History.record, hanswers]
      · simp
      · exact htimely rfl hphase
  | call hphase => exact ho.answer hphase _ _
  | skipTimer hphase | arm hphase | register hphase hslot | yield hphase
  | resume hphase hscheduled | retry hphase hcancelled =>
      refine ho.goOn (by rw [hphase]; rfl) ?_ (fun r hr => Or.inl hr) rfl rfl
      simp [State.move, Phase.inRound]
  | fail hphase =>
      refine ⟨?_, fun _ => Or.inr ?_⟩
      · simp [Told, State.move, History.record]
      · simp [State.move, Phase.isLeaving]
  | undo hphase =>
      have hfailed : h.failed c = true := ho.told_at hphase
      exact Outcome.returned (Function.update_self ..) (Or.inr (Or.inr ⟨rfl, hfailed⟩))
  | @cancelTimer timer hphase =>
      obtain ⟨timers, heq⟩ := cancelTimer_eq h.state c timer
      rw [heq]
      refine ho.goOn (by rw [hphase]; rfl) ?_ (fun r hr => Or.inl hr) rfl rfl
      simp [State.move, Phase.inRound]
  | timedOut hphase hcancelled =>
      have hfired := ho.fired (by rw [hphase]; rfl) hcancelled
      exact Outcome.returned (Function.update_self ..) (Or.inr (Or.inl ⟨rfl, rfl, hfired⟩))
  | collect htimer | guard htimer => exact ho.of_same rfl rfl rfl rfl rfl
  | mark htimer => exact ho.mark _ (htimely rfl)
  | @cancelEvent i ok htimer =>
      cases ok with
      | false => exact ho.of_same rfl rfl rfl rfl rfl
      | true =>
          have hkeeps := (Keeps.refl h.state c).trigger (io.fd c) (io.event c)
          exact ho.of_same hkeeps.phase hkeeps.cancelled rfl rfl rfl

/-- Every timely step does. -/
theorem Outcome.step {io : DoIo C} {h h' : History C} {a : Act C} {c : C}
    (ho : Outcome h c) (hopen : AllOpen h.state.fds) (htimely : Timely c h.state a)
    (hstep : History.Step io h a h') : Outcome h' c := by
  obtain ⟨s, hs, rfl⟩ := History.step_cases hstep
  by_cases hactor : a.actor = some c
  · exact ho.own hopen htimely (step_own hs hactor)
  · have hkeeps := step_keeps hs hactor
    obtain ⟨hanswers, hfailed, hfired⟩ := History.record_other (h := h) hactor
    exact ho.of_same hkeeps.phase hkeeps.cancelled hanswers hfailed hfired

end Steps

instance [DecidableEq C] (c : C) (s : State C) : DecidablePred (Timely c s)
  | .mark d _ =>
      inferInstanceAs (Decidable (d = c → ((s.phase c).waits || (s.phase c).isLeaving) = true))
  | .raw d n errno =>
      inferInstanceAs (Decidable (d = c → s.phase c = .passing → ¬ Retried (n, errno)))
  | .enter _ _ _ | .arm _ | .addEvent _ _ | .undo _ | .yield _ | .resume _ | .cancelTimer _
  | .test _ | .collect _ _ | .guard _ _ _ | .cancelEvent _ _ _ | .trigger _ _
  | .close _ _ _ _ | .opened _ _ | .setTimeout _ _ _ _ | .setUserNonblock _ _ _ =>
      inferInstanceAs (Decidable True)

instance [DecidableEq C] (c : C) (s : State C) : DecidablePred (OutsideAddEvent c s)
  | .guard d _ _ | .mark d _ | .cancelEvent d _ _ =>
      inferInstanceAs (Decidable (d = c → (s.phase c).isAdding = false))
  | .enter _ _ _ | .raw _ _ _ | .arm _ | .addEvent _ _ | .undo _ | .yield _ | .resume _
  | .cancelTimer _ | .test _ | .collect _ _ | .trigger _ _ | .close _ _ _ _ | .opened _ _
  | .setTimeout _ _ _ _ | .setUserNonblock _ _ _ =>
      inferInstanceAs (Decidable True)

end Hook

end Agent
