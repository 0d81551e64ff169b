import GServer.Library.Runs
import Mathlib

/-!
# The event registrations of the IO manager

`m_fdContexts` has an `FdContext` for every small descriptor.  A context holds
the registered events and, for each of them, the scheduler and the handler
that its readiness is to be given to: a callback or the coroutine that called
`addEvent`.  `idle` takes a batch of results from `epoll_wait` and handles
them one after the other; the registrations can change in between.

An operation is one step.  It returns `Except.error` where the source aborts or
leaves the vector: the failed assertions, and the call of `schedule` through a
null scheduler.  What it triggers is part of its result.
-/

namespace Agent

open Runs

/-- The events of `IOManager::EventType`. -/
inductive EventType
  | read
  | write
deriving DecidableEq

/-- A set of events: the bits `READ` and `WRITE` of an `EventType`. -/
structure EventMask where
  read : Bool
  write : Bool
deriving DecidableEq

namespace EventMask

/-- `m & ev`. -/
def has (m : EventMask) : EventType → Bool
  | .read => m.read
  | .write => m.write

/-- `m | ev`. -/
def insert (m : EventMask) : EventType → EventMask
  | .read => { m with read := true }
  | .write => { m with write := true }

/-- `m & ~ev`. -/
def erase (m : EventMask) : EventType → EventMask
  | .read => { m with read := false }
  | .write => { m with write := false }

/-- `(m & n) == NONE`. -/
def disjoint (m n : EventMask) : Bool :=
  !(m.read && n.read) && !(m.write && n.write)

/-- `m == NONE`. -/
def isNone (m : EventMask) : Bool :=
  !m.read && !m.write

/-- The number of events. -/
def card (m : EventMask) : Nat :=
  m.read.toNat + m.write.toNat

end EventMask

/-- What a scheduler is given: a coroutine or a callback. -/
inductive Task (Co Cb : Type)
  | coroutine (c : Co)
  | cb (f : Cb)
deriving DecidableEq

/-- `FdContext::EventContext`: the scheduler and the handlers of one event. -/
structure EventContext (S Co Cb : Type) where
  scheduler : Option S
  coroutine : Option Co
  cb : Option Cb
deriving DecidableEq

/-- `IOManager::FdContext`; its `fd` is its index. -/
structure FdContext (S Co Cb : Type) where
  read : EventContext S Co Cb
  write : EventContext S Co Cb
  event : EventMask
deriving DecidableEq

/-- The part of `IOManager` that registers events.  The counter is kept in the
integers; `m_pendingEventCount` is its residue. -/
structure IOManager (S Co Cb : Type) where
  contexts : List (FdContext S Co Cb)
  pendingEventCount : Int
deriving DecidableEq

/-- Where an operation does not return. -/
inductive Crash
  /-- An access outside `m_fdContexts`. -/
  | outOfRange
  /-- `AGENT_ASSERT(!(fd_ctx -> event & event))`. -/
  | alreadyRegistered
  /-- `AGENT_ASSERT(!event_ctx.scheduler)`. -/
  | schedulerStored
  /-- `AGENT_ASSERT(!event_ctx.coroutine || !event_ctx.cb)`. -/
  | handlersStored
  /-- `AGENT_ASSERT(event_ctx.coroutine -> getState() == Coroutine::State::EXEC)`. -/
  | notExecuting
  /-- `AGENT_ASSERT(fd_ctx -> event == 0)`. -/
  | eventsLeft
  /-- `ev_ctx.scheduler -> schedule(..)` with a null scheduler. -/
  | nullScheduler
deriving DecidableEq

/-- The handler of an `addEvent`: a callback, or the calling coroutine with
whether its state is `EXEC`. -/
inductive Handler (Co Cb : Type)
  | callback (f : Cb)
  | caller (c : Co) (exec : Bool)

/-- One call of `triggerEvent`: whether the event was registered, and the task
it scheduled and on which scheduler, if any. -/
structure Trigger (S Co Cb : Type) where
  fd : Nat
  ev : EventType
  registered : Bool
  scheduled : Option (S × Task Co Cb)

/-- What an operation returns, triggers and leaves. -/
structure Result (S Co Cb : Type) where
  ret : Bool
  triggers : List (Trigger S Co Cb)
  manager : IOManager S Co Cb

/-- A result of `epoll_wait` for the context of `fd`. -/
structure EpollEvent where
  fd : Nat
  epollin : Bool
  epollout : Bool
  epollerr : Bool
  epollhup : Bool

variable {S Co Cb : Type}

/-- The task that the handler stands for. -/
def Handler.task : Handler Co Cb → Task Co Cb
  | callback f => .cb f
  | caller c _ => .coroutine c

/-- What `triggerEvent` schedules: the callback if there is one, otherwise the
coroutine.  A null coroutine is not pushed. -/
def EventContext.task (slot : EventContext S Co Cb) : Option (Task Co Cb) :=
  match slot.cb with
  | some f => some (.cb f)
  | none => slot.coroutine.map .coroutine

/-- `FdContext::resetContext`, and a context as it is constructed. -/
def EventContext.empty : EventContext S Co Cb :=
  { scheduler := none, coroutine := none, cb := none }

namespace FdContext

/-- A context as `contextResize` makes it. -/
def new : FdContext S Co Cb :=
  { read := .empty, write := .empty, event := ⟨false, false⟩ }

/-- `FdContext::getContext`. -/
def getContext (ctx : FdContext S Co Cb) : EventType → EventContext S Co Cb
  | .read => ctx.read
  | .write => ctx.write

/-- Write through the reference that `getContext` returns. -/
def setContext (ctx : FdContext S Co Cb) (slot : EventContext S Co Cb) :
    EventType → FdContext S Co Cb
  | .read => { ctx with read := slot }
  | .write => { ctx with write := slot }

/-- `FdContext::triggerEvent`. -/
def triggerEvent (ctx : FdContext S Co Cb) (ev : EventType) :
    Except Crash (Option (S × Task Co Cb) × FdContext S Co Cb) :=
  let ctx := { ctx with event := ctx.event.erase ev }
  let slot := ctx.getContext ev
  match slot.scheduler with
  | none => .error .nullScheduler
  | some scheduler =>
      .ok (slot.task.map (fun task => (scheduler, task)),
        ctx.setContext { slot with scheduler := none } ev)

end FdContext

namespace IOManager

/-- `(int)m_fdContexts.size()`. -/
@[irreducible] def intSize (m : IOManager S Co Cb) : Int :=
  Int.bmod m.contexts.length (2 ^ 32)

/-- `IOManager::contextResize`. -/
def contextResize (m : IOManager S Co Cb) (size : Nat) : IOManager S Co Cb :=
  { m with
    contexts := m.contexts.take size ++ List.replicate (size - m.contexts.length) .new }

/-- A new manager. -/
def new : IOManager S Co Cb :=
  contextResize { contexts := [], pendingEventCount := 0 } 32

/-- The first half of `addEvent`: the vector grows to `fd * 1.5` elements unless it
has the descriptor. -/
def withContext (m : IOManager S Co Cb) (fd : Nat) : IOManager S Co Cb :=
  if fd < m.intSize then m else m.contextResize (fd * 3 / 2)

/-- The second half of `addEvent`, under the mutex of the context.  `this` is
`Scheduler::GetThis()` and `ok` tells whether `epoll_ctl` succeeds. -/
def register (m : IOManager S Co Cb) (fd : Nat) (ev : EventType)
    (handler : Handler Co Cb) (this : Option S) (ok : Bool) :
    Except Crash (Result S Co Cb) :=
  match m.contexts[fd]? with
  | none => .error .outOfRange
  | some ctx =>
      if ctx.event.has ev then .error .alreadyRegistered
      else if !ok then .ok ⟨false, [], m⟩
      else
        let slot := ctx.getContext ev
        if slot.scheduler.isSome then .error .schedulerStored
        else if slot.coroutine.isSome && slot.cb.isSome then .error .handlersStored
        else
          let ctx := { ctx with event := ctx.event.insert ev }
          let store := fun slot : EventContext S Co Cb =>
            .ok ⟨true, [],
              { contexts := m.contexts.set fd (ctx.setContext slot ev)
                pendingEventCount := m.pendingEventCount + 1 }⟩
          match handler with
          | .callback f => store { slot with scheduler := this, cb := some f }
          | .caller c exec =>
              if exec then store { slot with scheduler := this, coroutine := some c }
              else .error .notExecuting

/-- `IOManager::addEvent`. -/
def addEvent (m : IOManager S Co Cb) (fd : Nat) (ev : EventType)
    (handler : Handler Co Cb) (this : Option S) (ok : Bool) :
    Except Crash (Result S Co Cb) :=
  (m.withContext fd).register fd ev handler this ok

/-- `IOManager::delEvent`. -/
def delEvent (m : IOManager S Co Cb) (fd : Nat) (ev : EventType) (ok : Bool) :
    Except Crash (Result S Co Cb) :=
  if m.intSize < fd then .ok ⟨false, [], m⟩
  else
    match m.contexts[fd]? with
    | none => .error .outOfRange
    | some ctx =>
        if !ctx.event.has ev || !ok then .ok ⟨false, [], m⟩
        else
          let ctx := { ctx with event := ctx.event.erase ev }
          .ok ⟨true, [],
            { contexts := m.contexts.set fd (ctx.setContext .empty ev)
              pendingEventCount := m.pendingEventCount - 1 }⟩

/-- `if(test) { fd_ctx -> triggerEvent(ev); -- m_pendingEventCount; }`. -/
def triggerIf (m : IOManager S Co Cb) (fd : Nat) (ev : EventType)
    (test : FdContext S Co Cb → Bool) : Except Crash (Result S Co Cb) :=
  match m.contexts[fd]? with
  | none => .error .outOfRange
  | some ctx =>
      if test ctx then
        match ctx.triggerEvent ev with
        | .error crash => .error crash
        | .ok (scheduled, ctx') =>
            .ok ⟨true, [⟨fd, ev, ctx.event.has ev, scheduled⟩],
              { contexts := m.contexts.set fd ctx'
                pendingEventCount := m.pendingEventCount - 1 }⟩
      else .ok ⟨true, [], m⟩

/-- `triggerIf` for `READ` and then for `WRITE`. -/
def triggerBoth (m : IOManager S Co Cb) (fd : Nat)
    (test : EventType → FdContext S Co Cb → Bool) : Except Crash (Result S Co Cb) :=
  match m.triggerIf fd .read (test .read) with
  | .error crash => .error crash
  | .ok r =>
      match r.manager.triggerIf fd .write (test .write) with
      | .error crash => .error crash
      | .ok r' => .ok ⟨true, r.triggers ++ r'.triggers, r'.manager⟩

/-- `IOManager::cancelEvent`. -/
def cancelEvent (m : IOManager S Co Cb) (fd : Nat) (ev : EventType) (ok : Bool) :
    Except Crash (Result S Co Cb) :=
  if m.intSize < fd then .ok ⟨false, [], m⟩
  else
    match m.contexts[fd]? with
    | none => .error .outOfRange
    | some ctx =>
        if !ctx.event.has ev || !ok then .ok ⟨false, [], m⟩
        else m.triggerIf fd ev (fun _ => true)

/-- `IOManager::cancelAll`. -/
def cancelAll (m : IOManager S Co Cb) (fd : Nat) (ok : Bool) :
    Except Crash (Result S Co Cb) :=
  if m.intSize < fd then .ok ⟨false, [], m⟩
  else
    match m.contexts[fd]? with
    | none => .error .outOfRange
    | some ctx =>
        if ctx.event.isNone || !ok then .ok ⟨false, [], m⟩
        else
          match m.triggerBoth fd (fun ev ctx => ctx.event.has ev) with
          | .error crash => .error crash
          | .ok r =>
              match r.manager.contexts[fd]? with
              | none => .error .outOfRange
              | some ctx => if ctx.event.isNone then .ok r else .error .eventsLeft

/-- The `real_events` of a result: with `EPOLLERR` or `EPOLLHUP` the source masks
with `EPOLLIN | EPOLLOUT`, so only these two count. -/
def realEvents (e : EpollEvent) : EventMask :=
  let e := if e.epollerr || e.epollhup then { e with epollerr := false, epollhup := false }
    else e
  { read := e.epollin, write := e.epollout }

/-- The body of the loop of `IOManager::idle` over the results; the outcome of its
`epoll_ctl` is only logged. -/
def handleEvent (m : IOManager S Co Cb) (e : EpollEvent) :
    Except Crash (Result S Co Cb) :=
  match m.contexts[e.fd]? with
  | none => .error .outOfRange
  | some ctx =>
      if ctx.event.disjoint (realEvents e) then .ok ⟨true, [], m⟩
      else m.triggerBoth e.fd (fun ev _ => (realEvents e).has ev)

/-- A result `epoll_wait` can report now: `IN` and `OUT` only where registered. -/
def mayReport (m : IOManager S Co Cb) (e : EpollEvent) : Bool :=
  match m.contexts[e.fd]? with
  | none => false
  | some ctx => (!e.epollin || ctx.event.read) && (!e.epollout || ctx.event.write)

end IOManager

/-- The manager with the workers in `idle`: the results that each has still to
handle.  `latest` is the handler of the most recent `addEvent` for an event, and
`triggers` the history of `triggerEvent`, each call with that handler. -/
structure EventSystem (S Co Cb W : Type) where
  manager : IOManager S Co Cb
  batches : W → List EpollEvent
  latest : Nat → EventType → Option (Task Co Cb)
  triggers : List (Trigger S Co Cb × Option (Task Co Cb))
  crash : Option Crash

/-- The steps of the callers and of the workers. -/
inductive EventAct (S Co Cb W : Type)
  | addEvent (fd : Nat) (ev : EventType) (handler : Handler Co Cb) (this : Option S)
      (ok : Bool)
  | delEvent (fd : Nat) (ev : EventType) (ok : Bool)
  | cancelEvent (fd : Nat) (ev : EventType) (ok : Bool)
  | cancelAll (fd : Nat) (ok : Bool)
  /-- `epoll_wait` returns the batch to the worker. -/
  | epollWait (w : W) (batch : List EpollEvent)
  /-- The worker handles its next result. -/
  | handle (w : W)

namespace EventSystem

variable {W : Type} [DecidableEq W]

/-- A new system. -/
def new : EventSystem S Co Cb W :=
  { manager := .new, batches := fun _ => [], latest := fun _ _ => none, triggers := []
    crash := none }

/-- Continue with what an operation leaves, or stop where it crashes. -/
def finish (s : EventSystem S Co Cb W)
    (register : Bool → Nat → EventType → Option (Task Co Cb)) :
    Except Crash (Result S Co Cb) → EventSystem S Co Cb W
  | .error crash => { s with crash := some crash }
  | .ok r =>
      { s with
        manager := r.manager
        latest := register r.ret
        triggers := s.triggers ++ r.triggers.map (fun t => (t, s.latest t.fd t.ev)) }

/-- One step; a crashed system makes none. -/
def step (s : EventSystem S Co Cb W) (a : EventAct S Co Cb W) :
    Option (EventSystem S Co Cb W) :=
  if s.crash.isSome then none
  else
    match a with
    | .addEvent fd ev handler this ok =>
        let register := fun (ret : Bool) fd' ev' =>
          if ret ∧ fd' = fd ∧ ev' = ev then some handler.task else s.latest fd' ev'
        some (s.finish register (s.manager.addEvent fd ev handler this ok))
    | .delEvent fd ev ok => some (s.finish (fun _ => s.latest) (s.manager.delEvent fd ev ok))
    | .cancelEvent fd ev ok =>
        some (s.finish (fun _ => s.latest) (s.manager.cancelEvent fd ev ok))
    | .cancelAll fd ok => some (s.finish (fun _ => s.latest) (s.manager.cancelAll fd ok))
    | .epollWait w batch =>
        if (s.batches w).isEmpty && batch.all s.manager.mayReport then
          some { s with batches := Function.update s.batches w batch }
        else none
    | .handle w =>
        match s.batches w with
        | [] => none
        | e :: rest =>
            let s := { s with batches := Function.update s.batches w rest }
            some (s.finish (fun _ => s.latest) (s.manager.handleEvent e))

/-- The steps of a run. -/
def Step (s : EventSystem S Co Cb W) (a : EventAct S Co Cb W)
    (s' : EventSystem S Co Cb W) : Prop :=
  s.step a = some s'

end EventSystem

end Agent
