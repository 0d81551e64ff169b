import GServer.FdManager
import GServer.IOManager
import Mathlib

/-!
# Hooked calls

`do_io` makes the raw call of a hooked function, and when it would block it
registers the coroutine for the event of the descriptor, with a timer if the
descriptor has a timeout, and yields.  When the coroutine is resumed the raw call
is made again.  The calls of `do_io` are the elements of a type; a step belongs to
one of them, to the callback of one of its timers, to the event loop, or to a
hooked call that closes, opens or configures a descriptor.

Each operation of the `IOManager` and the `FdManager` is one step here.  A slot
holds the coroutine registered for an event; triggering the event empties the
slot and schedules the coroutine.
-/

namespace Agent

open Runs

namespace Hook

/-- The values of `errno` that `do_io` looks at or sets. -/
inductive Errno
  | none
  | eintr
  | eagain
  | ebadf
  | etimedout
  | other (code : Nat)
deriving DecidableEq

/-- Where a call of `do_io` is; `timer` is the number of the timer it has armed in
this round, if any. -/
inductive Phase
  | entry
  | passing
  | calling
  | arming
  | adding (timer : Option Nat)
  | undoing (timer : Option Nat) (errno : Errno)
  | yielding (timer : Option Nat)
  | parked (timer : Option Nat)
  | resumed (timer : Option Nat)
  | testing
  | returned (n : Int) (errno : Errno)
deriving DecidableEq

def Phase.isParked : Phase → Bool
  | .parked _ => true
  | _ => false

def Phase.hasReturned : Phase → Bool
  | .returned _ _ => true
  | _ => false

/-- A condition timer of a call: in the timer set, collected with its callback
scheduled, past the first test of the callback, past the assignment to
`cancelled`, or over. -/
inductive TimerState
  | unarmed
  | pending
  | collected
  | passed
  | marked
  | over
deriving DecidableEq

/-- The descriptor and the event of each call. -/
structure DoIo (C : Type) where
  fd : C → Int
  event : C → EventType

/-- The contexts of the descriptors, the registered coroutines and the calls.
`rounds` counts the timers that a call has armed; `since` counts the raw calls it has
made since its descriptor was closed while it was parked. -/
structure State (C : Type) where
  fds : FdManager
  slot : Int → EventType → Option C
  scheduled : C → Bool
  phase : C → Phase
  timeout : C → Nat
  cancelled : C → Bool
  rounds : C → Nat
  timers : C → Nat → TimerState
  since : C → Option Nat

/-- What happens next.  `stat` is what `fstat` reports where a context is made. -/
inductive Act (C : Type)
  | enter (c : C) (hooked : Bool) (stat : FdStat)
  | raw (c : C) (n : Int) (errno : Errno)
  | arm (c : C)
  | addEvent (c : C) (failed : Option Errno)
  | undo (c : C)
  | yield (c : C)
  | resume (c : C)
  | cancelTimer (c : C)
  | test (c : C)
  | collect (c : C) (i : Nat)
  | guard (c : C) (i : Nat) (alive : Bool)
  | mark (c : C) (i : Nat)
  | cancelEvent (c : C) (i : Nat) (ok : Bool)
  | trigger (fd : Int) (event : EventType)
  | close (fd : Int) (stat : FdStat) (onIOManager ok : Bool)
  | opened (fd : Int) (stat : FdStat)
  | setTimeout (fd : Int) (stat : FdStat) (receive : Bool) (ms : Nat)
  | setUserNonblock (fd : Int) (stat : FdStat) (v : Bool)

/-- `(uint64_t)-1`, no timeout. -/
def unlimited : Nat := 2 ^ 64 - 1

variable {C : Type}

/-- No call has been made. -/
def start : State C :=
  { fds := FdManager.new, slot := fun _ _ => none, scheduled := fun _ => false
    phase := fun _ => .entry, timeout := fun _ => unlimited, cancelled := fun _ => false
    rounds := fun _ => 0, timers := fun _ _ => .unarmed, since := fun _ => none }

/-- `FdCtx::getTimeout` for the option that goes with the event. -/
def timeoutOf (ctx : FdCtx) : EventType → Nat
  | .read => ctx.recvTimeout
  | .write => ctx.sendTimeout

/-- `FdCtx::setTimeout`, as the hooked `setsockopt` calls it. -/
def setTimeout (receive : Bool) (ms : Nat) (ctx : FdCtx) : FdCtx :=
  if receive then { ctx with recvTimeout := ms } else { ctx with sendTimeout := ms }

/-- `FdCtx::setUserNonblock`, as the hooked `fcntl` and `ioctl` call it. -/
def setUserNonblock (v : Bool) (ctx : FdCtx) : FdCtx :=
  if ctx.isClosed || !ctx.isSocket then ctx else { ctx with userNonblock := v }

/-- Change the context of a descriptor, if it has one. -/
def updateCtx (fds : FdManager) (fd : Int) (stat : FdStat) (f : FdCtx → FdCtx) :
    Option FdManager :=
  match fds.get fd false stat with
  | none => none
  | some (none, fds) => some fds
  | some (some p, fds) => some { fds with contexts := fds.contexts.modify p f }

/-- What the end of a raw call leads to. -/
def afterRaw (n : Int) (errno : Errno) : Phase :=
  if n = -1 ∧ errno = .eintr then .calling
  else if n = -1 ∧ errno = .eagain then .arming
  else .returned n errno

section Steps

variable [DecidableEq C]

def State.move (s : State C) (c : C) (phase : Phase) : State C :=
  { s with phase := Function.update s.phase c phase }

/-- The timer of the call with this number changes its state. -/
def State.setTimer (s : State C) (c : C) (i : Nat) (timer : TimerState) : State C :=
  { s with timers := Function.update s.timers c (Function.update (s.timers c) i timer) }

/-- `Timer::cancel`: a pending timer is taken out of the set, any other is left
alone. -/
def State.cancelTimer (s : State C) (c : C) : Option Nat → State C
  | none => s
  | some i => if s.timers c i = .pending then s.setTimer c i .over else s

/-- A registered event is triggered. -/
def State.trigger (s : State C) (fd : Int) (event : EventType) : State C :=
  match s.slot fd event with
  | none => s
  | some c =>
      { s with
        slot := Function.update s.slot fd (Function.update (s.slot fd) event none)
        scheduled := Function.update s.scheduled c true }

/-- A raw call is counted once the descriptor has been closed. -/
def State.countRaw (s : State C) (c : C) : State C :=
  { s with since := Function.update s.since c ((s.since c).map (· + 1)) }

/-- The checks of `do_io` on entry: what they lead to, and the timeout. -/
def checks (io : DoIo C) (fds : FdManager) (c : C) (hooked : Bool) (stat : FdStat) :
    Option (Phase × Nat × FdManager) :=
  if hooked = false then some (.passing, unlimited, fds)
  else
    match fds.get (io.fd c) false stat with
    | none => none
    | some (none, fds) => some (.passing, unlimited, fds)
    | some (some p, fds) =>
        match fds.contexts[p]? with
        | none => none
        | some ctx =>
            if ctx.isClosed then some (.returned (-1) .ebadf, unlimited, fds)
            else if !ctx.isSocket || ctx.userNonblock then some (.passing, unlimited, fds)
            else some (.calling, timeoutOf ctx (io.event c), fds)

/-- `IOManager::cancelAll`, with the result of its `epoll_ctl`. -/
def State.cancelAll (s : State C) (fd : Int) (ok : Bool) : State C :=
  if ok then (s.trigger fd .read).trigger fd .write else s

/-- The descriptor is closed: the record of the calls parked on it starts. -/
def State.closed (s : State C) (io : DoIo C) (fd : Int) : State C :=
  { s with since := fun c =>
      if io.fd c = fd ∧ (s.phase c).isParked = true ∧ s.since c = none then some 0
      else s.since c }

/-- The hooked `close`: a descriptor with a context has its events cancelled, if the
thread has an `IOManager`, and its context dropped. -/
def close (io : DoIo C) (s : State C) (fd : Int) (stat : FdStat) (onIOManager ok : Bool) :
    Option (State C) :=
  match s.fds.get fd false stat with
  | none => none
  | some (none, fds) => some ({ s with fds := fds }.closed io fd)
  | some (some _, fds) =>
      match fds.del fd with
      | none => none
      | some fds =>
          let s := { s with fds := fds }
          some ((if onIOManager then s.cancelAll fd ok else s).closed io fd)

/-- The registration of a call for its event. -/
def State.register (s : State C) (io : DoIo C) (c : C) : State C :=
  { s with
    slot := Function.update s.slot (io.fd c)
      (Function.update (s.slot (io.fd c)) (io.event c) (some c)) }

/-- One step. -/
def step (io : DoIo C) (s : State C) : Act C → Option (State C)
  | .enter c hooked stat =>
      if s.phase c = .entry then
        match checks io s.fds c hooked stat with
        | none => none
        | some (phase, timeout, fds) =>
            some ({ s with
              fds := fds
              timeout := Function.update s.timeout c timeout
              cancelled := Function.update s.cancelled c false }.move c phase)
      else none
  | .raw c n errno =>
      match s.phase c with
      | .passing => some ((s.countRaw c).move c (.returned n errno))
      | .calling => some ((s.countRaw c).move c (afterRaw n errno))
      | _ => none
  | .arm c =>
      if s.phase c = .arming then
        if s.timeout c = unlimited then some (s.move c (.adding none))
        else
          some ({ s with rounds := Function.update s.rounds c (s.rounds c + 1) }.setTimer c
            (s.rounds c) .pending |>.move c (.adding (some (s.rounds c))))
      else none
  | .addEvent c failed =>
      match s.phase c with
      | .adding timer =>
          match s.slot (io.fd c) (io.event c), failed with
          | some _, _ => none
          | none, none => some ((s.register io c).move c (.yielding timer))
          | none, some errno => some (s.move c (.undoing timer errno))
      | _ => none
  | .undo c =>
      match s.phase c with
      | .undoing timer errno => some ((s.cancelTimer c timer).move c (.returned (-1) errno))
      | _ => none
  | .yield c =>
      match s.phase c with
      | .yielding timer => some (s.move c (.parked timer))
      | _ => none
  | .resume c =>
      match s.phase c with
      | .parked timer =>
          if s.scheduled c then
            some ({ s with scheduled := Function.update s.scheduled c false }.move c
              (.resumed timer))
          else none
      | _ => none
  | .cancelTimer c =>
      match s.phase c with
      | .resumed timer => some ((s.cancelTimer c timer).move c .testing)
      | _ => none
  | .test c =>
      if s.phase c = .testing then
        some (s.move c (if s.cancelled c then .returned (-1) .etimedout else .calling))
      else none
  | .collect c i =>
      if s.timers c i = .pending then some (s.setTimer c i .collected) else none
  | .guard c i alive =>
      -- `winfo.lock()` succeeds while the call has not returned
      if s.timers c i = .collected ∧ ((s.phase c).hasReturned = true ∨ alive = true) then
        some (s.setTimer c i (if alive && !s.cancelled c then .passed else .over))
      else none
  | .mark c i =>
      if s.timers c i = .passed then
        some ({ s with cancelled := Function.update s.cancelled c true }.setTimer c i .marked)
      else none
  | .cancelEvent c i ok =>
      if s.timers c i = .marked then
        some ((if ok then s.trigger (io.fd c) (io.event c) else s).setTimer c i .over)
      else none
  | .trigger fd event =>
      match s.slot fd event with
      | none => none
      | some _ => some (s.trigger fd event)
  | .close fd stat onIOManager ok => close io s fd stat onIOManager ok
  | .opened fd stat =>
      match s.fds.get fd true stat with
      | none => none
      | some (_, fds) => some { s with fds := fds }
  | .setTimeout fd stat receive ms =>
      (updateCtx s.fds fd stat (setTimeout receive ms)).map fun fds => { s with fds := fds }
  | .setUserNonblock fd stat v =>
      (updateCtx s.fds fd stat (setUserNonblock v)).map fun fds => { s with fds := fds }

def Step (io : DoIo C) (s : State C) (a : Act C) (s' : State C) : Prop :=
  step io s a = some s'

/-! ## The steps of a call -/

/-- What the steps of a call, and of its timers' callbacks, do. -/
inductive Own (io : DoIo C) (s : State C) (c : C) : Act C → State C → Prop
  | enter {hooked : Bool} {stat : FdStat} {phase : Phase} {timeout : Nat} {fds : FdManager}
      (hphase : s.phase c = .entry)
      (hchecks : checks io s.fds c hooked stat = some (phase, timeout, fds)) :
      Own io s c (.enter c hooked stat)
        ({ s with
          fds := fds
          timeout := Function.update s.timeout c timeout
          cancelled := Function.update s.cancelled c false }.move c phase)
  | pass {n : Int} {errno : Errno} (hphase : s.phase c = .passing) :
      Own io s c (.raw c n errno) ((s.countRaw c).move c (.returned n errno))
  | call {n : Int} {errno : Errno} (hphase : s.phase c = .calling) :
      Own io s c (.raw c n errno) ((s.countRaw c).move c (afterRaw n errno))
  | skipTimer (hphase : s.phase c = .arming) :
      Own io s c (.arm c) (s.move c (.adding none))
  | arm (hphase : s.phase c = .arming) :
      Own io s c (.arm c)
        ({ s with rounds := Function.update s.rounds c (s.rounds c + 1) }.setTimer c
          (s.rounds c) .pending |>.move c (.adding (some (s.rounds c))))
  | register {timer : Option Nat} (hphase : s.phase c = .adding timer)
      (hslot : s.slot (io.fd c) (io.event c) = none) :
      Own io s c (.addEvent c none) ((s.register io c).move c (.yielding timer))
  | fail {timer : Option Nat} {errno : Errno} (hphase : s.phase c = .adding timer) :
      Own io s c (.addEvent c (some errno)) (s.move c (.undoing timer errno))
  | undo {timer : Option Nat} {errno : Errno} (hphase : s.phase c = .undoing timer errno) :
      Own io s c (.undo c) ((s.cancelTimer c timer).move c (.returned (-1) errno))
  | yield {timer : Option Nat} (hphase : s.phase c = .yielding timer) :
      Own io s c (.yield c) (s.move c (.parked timer))
  | resume {timer : Option Nat} (hphase : s.phase c = .parked timer)
      (hscheduled : s.scheduled c = true) :
      Own io s c (.resume c)
        ({ s with scheduled := Function.update s.scheduled c false }.move c (.resumed timer))
  | cancelTimer {timer : Option Nat} (hphase : s.phase c = .resumed timer) :
      Own io s c (.cancelTimer c) ((s.cancelTimer c timer).move c .testing)
  | timedOut (hphase : s.phase c = .testing) (hcancelled : s.cancelled c = true) :
      Own io s c (.test c) (s.move c (.returned (-1) .etimedout))
  | retry (hphase : s.phase c = .testing) (hcancelled : s.cancelled c = false) :
      Own io s c (.test c) (s.move c .calling)
  | collect {i : Nat} (htimer : s.timers c i = .pending) :
      Own io s c (.collect c i) (s.setTimer c i .collected)
  | guard {i : Nat} {alive : Bool} (htimer : s.timers c i = .collected) :
      Own io s c (.guard c i alive)
        (s.setTimer c i (if alive && !s.cancelled c then .passed else .over))
  | mark {i : Nat} (htimer : s.timers c i = .passed) :
      Own io s c (.mark c i)
        ({ s with cancelled := Function.update s.cancelled c true }.setTimer c i .marked)
  | cancelEvent {i : Nat} {ok : Bool} (htimer : s.timers c i = .marked) :
      Own io s c (.cancelEvent c i ok)
        ((if ok then s.trigger (io.fd c) (io.event c) else s).setTimer c i .over)

/-- The call whose own step or callback it is. -/
def Act.actor : Act C → Option C
  | .enter c _ _ | .raw c _ _ | .arm c | .addEvent c _ | .undo c | .yield c | .resume c
  | .cancelTimer c | .test c | .collect c _ | .guard c _ _ | .mark c _ | .cancelEvent c _ _ =>
      some c
  | .trigger _ _ | .close _ _ _ _ | .opened _ _ | .setTimeout _ _ _ _
  | .setUserNonblock _ _ _ => none

/-- A step of a call does to it what `Own` says. -/
theorem step_own {io : DoIo C} {s s' : State C} {a : Act C} {c : C}
    (hstep : Step io s a s') (hactor : a.actor = some c) : Own io s c a s' := by
  unfold Step step at hstep
  cases a with
  | enter d hooked stat =>
      obtain rfl : d = c := Option.some.inj hactor
      dsimp only at hstep
      split at hstep
      · rename_i hphase
        split at hstep
        · cases hstep
        · rename_i hchecks
          cases hstep
          exact .enter hphase hchecks
      · cases hstep
  | raw d n errno =>
      obtain rfl : d = c := Option.some.inj hactor
      dsimp only at hstep
      split at hstep
      · rename_i hphase
        cases hstep
        exact .pass hphase
      · rename_i hphase
        cases hstep
        exact .call hphase
      · cases hstep
  | arm d =>
      obtain rfl : d = c := Option.some.inj hactor
      dsimp only at hstep
      split at hstep
      · rename_i hphase
        split at hstep
        · cases hstep
          exact .skipTimer hphase
        · cases hstep
          exact .arm hphase
      · cases hstep
  | addEvent d failed =>
      obtain rfl : d = c := Option.some.inj hactor
      dsimp only at hstep
      split at hstep
      · rename_i timer hphase
        split at hstep
        · cases hstep
        · rename_i hslot
          cases hstep
          exact .register hphase hslot
        · cases hstep
          exact .fail hphase
      · cases hstep
  | undo d =>
      obtain rfl : d = c := Option.some.inj hactor
      dsimp only at hstep
      split at hstep
      · rename_i hphase
        cases hstep
        exact .undo hphase
      · cases hstep
  | yield d =>
      obtain rfl : d = c := Option.some.inj hactor
      dsimp only at hstep
      split at hstep
      · rename_i hphase
        cases hstep
        exact .yield hphase
      · cases hstep
  | resume d =>
      obtain rfl : d = c := Option.some.inj hactor
      dsimp only at hstep
      split at hstep
      · rename_i hphase
        split at hstep
        · rename_i hscheduled
          cases hstep
          exact .resume hphase hscheduled
        · cases hstep
      · cases hstep
  | cancelTimer d =>
      obtain rfl : d = c := Option.some.inj hactor
      dsimp only at hstep
      split at hstep
      · rename_i hphase
        cases hstep
        exact .cancelTimer hphase
      · cases hstep
  | test d =>
      obtain rfl : d = c := Option.some.inj hactor
      dsimp only at hstep
      split at hstep
      · rename_i hphase
        cases hstep
        cases hcancelled : s.cancelled d with
        | true => exact .timedOut hphase hcancelled
        | false => exact .retry hphase hcancelled
      · cases hstep
  | collect d i =>
      obtain rfl : d = c := Option.some.inj hactor
      dsimp only at hstep
      split at hstep
      · rename_i htimer
        cases hstep
        exact .collect htimer
      · cases hstep
  | guard d i alive =>
      obtain rfl : d = c := Option.some.inj hactor
      dsimp only at hstep
      split at hstep
      · rename_i htimer
        cases hstep
        exact .guard htimer.1
      · cases hstep
  | mark d i =>
      obtain rfl : d = c := Option.some.inj hactor
      dsimp only at hstep
      split at hstep
      · rename_i htimer
        cases hstep
        exact .mark htimer
      · cases hstep
  | cancelEvent d i ok =>
      obtain rfl : d = c := Option.some.inj hactor
      dsimp only at hstep
      split at hstep
      · rename_i htimer
        cases hstep
        exact .cancelEvent htimer
      · cases hstep
  | _ => cases hactor

/-! ## What the other steps do -/

/-- A step of no call: an event is triggered, a descriptor is closed, opened or
configured. -/
inductive Elsewhere (io : DoIo C) (s : State C) : Act C → State C → Prop
  | trigger {fd : Int} {event : EventType} :
      Elsewhere io s (.trigger fd event) (s.trigger fd event)
  | close {fd : Int} {stat : FdStat} {onIOManager ok : Bool} {s' : State C}
      (hclose : close io s fd stat onIOManager ok = some s') :
      Elsewhere io s (.close fd stat onIOManager ok) s'
  | opened {fd : Int} {stat : FdStat} {p : Option FdCtxPtr} {fds : FdManager}
      (hget : s.fds.get fd true stat = some (p, fds)) :
      Elsewhere io s (.opened fd stat) { s with fds := fds }
  | setTimeout {fd : Int} {stat : FdStat} {receive : Bool} {ms : Nat} {fds : FdManager}
      (hupdate : updateCtx s.fds fd stat (setTimeout receive ms) = some fds) :
      Elsewhere io s (.setTimeout fd stat receive ms) { s with fds := fds }
  | setUserNonblock {fd : Int} {stat : FdStat} {v : Bool} {fds : FdManager}
      (hupdate : updateCtx s.fds fd stat (setUserNonblock v) = some fds) :
      Elsewhere io s (.setUserNonblock fd stat v) { s with fds := fds }

/-- Any other step does to the calls what `Elsewhere` says. -/
theorem step_elsewhere {io : DoIo C} {s s' : State C} {a : Act C}
    (hstep : Step io s a s') (hactor : a.actor = none) : Elsewhere io s a s' := by
  unfold Step step at hstep
  cases a with
  | trigger fd event =>
      dsimp only at hstep
      split at hstep
      · cases hstep
      · cases hstep
        exact .trigger
  | close fd stat onIOManager ok => exact .close hstep
  | opened fd stat =>
      dsimp only at hstep
      split at hstep
      · cases hstep
      · rename_i hget
        cases hstep
        exact .opened hget
  | setTimeout fd stat receive ms =>
      obtain ⟨fds, hupdate, rfl⟩ := Option.map_eq_some_iff.mp hstep
      exact .setTimeout hupdate
  | setUserNonblock fd stat v =>
      obtain ⟨fds, hupdate, rfl⟩ := Option.map_eq_some_iff.mp hstep
      exact .setUserNonblock hupdate
  | _ => cases hactor

/-- `close` drops the context, if any, and cancels the events of a descriptor that has
one, if the thread has an `IOManager`. -/
theorem close_cases {io : DoIo C} {s s' : State C} {fd : Int} {stat : FdStat}
    {onIOManager ok : Bool} (h : close io s fd stat onIOManager ok = some s') :
    ∃ p found fds, s.fds.get fd false stat = some (p, found) ∧
      (fds = found ∨ found.del fd = some fds) ∧
      (s' = State.closed { s with fds := fds } io fd ∨
        s' = (State.cancelAll { s with fds := fds } fd ok).closed io fd) := by
  unfold close at h
  split at h
  · cases h
  · rename_i found hget
    cases h
    exact ⟨none, found, found, hget, Or.inl rfl, Or.inl rfl⟩
  · rename_i p found hget
    split at h
    · cases h
    · rename_i fds hdel
      cases h
      refine ⟨some p, found, fds, hget, Or.inr hdel, ?_⟩
      cases onIOManager with
      | false => exact Or.inl rfl
      | true => exact Or.inr rfl

/-- A trigger changes the registrations only. -/
theorem trigger_eq (s : State C) (fd : Int) (event : EventType) :
    ∃ slot scheduled, s.trigger fd event = { s with slot := slot, scheduled := scheduled } := by
  unfold State.trigger
  split
  · exact ⟨s.slot, s.scheduled, rfl⟩
  · exact ⟨_, _, rfl⟩

/-- `cancelAll` changes the slots and the queue only. -/
theorem cancelAll_eq (s : State C) (fd : Int) (ok : Bool) :
    ∃ slot scheduled, s.cancelAll fd ok = { s with slot := slot, scheduled := scheduled } := by
  unfold State.cancelAll
  split
  · obtain ⟨slot, scheduled, hread⟩ := trigger_eq s fd .read
    obtain ⟨slot', scheduled', hwrite⟩ := trigger_eq (s.trigger fd .read) fd .write
    exact ⟨slot', scheduled', by rw [hwrite, hread]⟩
  · exact ⟨s.slot, s.scheduled, rfl⟩

/-- `Timer::cancel` changes the timers only. -/
theorem cancelTimer_eq (s : State C) (c : C) (timer : Option Nat) :
    ∃ timers, s.cancelTimer c timer = { s with timers := timers } := by
  cases timer with
  | none => exact ⟨s.timers, rfl⟩
  | some i =>
      by_cases hpending : s.timers c i = .pending
      · exact ⟨_, if_pos hpending⟩
      · exact ⟨s.timers, if_neg hpending⟩

end Steps

end Hook

end Agent
