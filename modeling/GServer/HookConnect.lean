import GServer.Hook

/-!
# Hooked `connect`

`connect_with_timeout` makes the raw call, and while the connection is on its way it
waits for the `WRITE` event of the descriptor, with a timer unless the timeout is -1.
Unlike `do_io` it does not make the raw call again when it is awake: it asks the socket
for its error and takes none for a connection.

Any number of calls are made on any descriptors, by coroutines of one `IOManager`, and
nobody else registers for `WRITE`.  Their steps, the callbacks of their timers, the event
loop, the kernel and other users of the descriptors interleave.

A registration is triggered in several steps.  Somebody finds the event set and takes the
descriptor out of `epoll`; `triggerEvent` erases the event and schedules what has been
registered; it sets the scheduler back.  The event loop learns from `epoll_wait` that a
descriptor is writable, and looks at its context later.  `addEvent`, `cancelAll` and the
loop hold the mutex of the context meanwhile, `cancelEvent` does not: nothing here keeps it
apart from the others, and `takesTwice` says when it is not.
-/

namespace Agent

open Runs

namespace Connect

open Hook (Errno TimerState unlimited)

/-- The kernel's side of a descriptor: a failed attempt leaves its error for `SO_ERROR`. -/
inductive Kernel
  | closed
  | idle
  | connecting
  | connected
  | failed (errno : Errno)
deriving DecidableEq

/-- What `connect_f` answers. -/
inductive Answer
  | ok
  | inProgress
  | error (errno : Errno)
deriving DecidableEq

/-- `EINPROGRESS`. -/
def einprogress : Errno := .other 115

/-- What a call that is handed through returns. -/
def Answer.result : Answer → Int × Errno
  | .ok => (0, .none)
  | .inProgress => (-1, einprogress)
  | .error errno => (-1, errno)

/-- `connect_f` on a descriptor: an attempt is made on an idle socket only, and an error
that is waiting is the answer. -/
def Kernel.connect : Kernel → Answer → Option Kernel
  | .closed, .ok => none
  | _, .ok => some .connected
  | .idle, .inProgress => some .connecting
  | _, .inProgress => none
  | .failed _, .error _ => some .idle
  | k, .error _ => some k

/-- The attempt ends, or a connection breaks. -/
def Kernel.settle : Kernel → Option Errno → Option Kernel
  | .connecting, none => some .connected
  | .connecting, some errno => some (.failed errno)
  | .connected, some errno => some (.failed errno)
  | _, _ => none

/-- `epoll` finds the socket writable. -/
def Kernel.writable : Kernel → Bool
  | .closed => false
  | .connecting => false
  | _ => true

/-- The socket after its error has been asked for. -/
def Kernel.asked : Kernel → Kernel
  | .failed _ => .idle
  | k => k

/-- Where a call is. -/
inductive Phase
  | entry
  | passing
  | calling
  | arming
  | adding
  /-- `addEvent` has failed. -/
  | undoing
  | yielding
  | parked
  | resumed
  | testing
  /-- Before `getsockopt`. -/
  | asking
  | returned (n : Int) (errno : Errno)
deriving DecidableEq

def Phase.hasReturned : Phase → Bool
  | .returned _ _ => true
  | _ => false

/-- What the call goes on with when it asks for the error of the socket. -/
def Kernel.answer : Kernel → Phase
  | .closed => .returned (-1) .ebadf
  | .failed errno => .returned (-1) errno
  | _ => .returned 0 .none

/-- The descriptors and the `timeout_ms` of the calls; `connect` itself takes
`s_connect_timeout`. -/
structure Calls (C : Type) where
  fd : C → Int
  timeout : C → Option Nat

/-- The side of an `FdContext` for `WRITE`, with what `epoll` has of it: the descriptor is
watched for `EPOLLOUT`, and `told` events of it have been reported and are not handled.
`triggering` threads have found the event set and have not triggered it, `forgetting` have
scheduled the coroutine and have not set the scheduler back.  `closed` is that the
descriptor has been closed since the last registration. -/
structure WriteContext (C : Type) where
  event : Bool
  coroutine : Option C
  scheduler : Bool
  watched : Bool
  told : Nat
  triggering : Nat
  forgetting : Nat
  closed : Bool

/-- Nothing has been registered. -/
def WriteContext.new {C : Type} : WriteContext C :=
  { event := false, coroutine := none, scheduler := false, watched := false, told := 0
    triggering := 0, forgetting := 0, closed := false }

/-- The call is registered. -/
def WriteContext.registers {C : Type} [DecidableEq C] (x : WriteContext C) (c : C) : Bool :=
  x.event && decide (x.coroutine = some c)

/-- What `addEvent` leaves. -/
def WriteContext.register {C : Type} (x : WriteContext C) (c : C) : WriteContext C :=
  { x with event := true, coroutine := some c, scheduler := true, watched := true, closed := false }

/-- The event has been found set, and `epoll_ctl` has taken the descriptor out. -/
def WriteContext.take {C : Type} (x : WriteContext C) : WriteContext C :=
  { x with watched := false, triggering := x.triggering + 1 }

/-- The loop handles an event that `epoll_wait` has reported; it does not ask whether its
`epoll_ctl` succeeds. -/
def WriteContext.handle {C : Type} (x : WriteContext C) : WriteContext C :=
  if x.event then { x.take with told := x.told - 1 } else { x with told := x.told - 1 }

/-- `triggerEvent` up to the call of `schedule`. -/
def WriteContext.trigger {C : Type} (x : WriteContext C) : WriteContext C :=
  { x with event := false, triggering := x.triggering - 1, forgetting := x.forgetting + 1 }

/-- The last line of `triggerEvent`. -/
def WriteContext.forget {C : Type} (x : WriteContext C) : WriteContext C :=
  { x with scheduler := false, forgetting := x.forgetting - 1 }

/-- `epoll` drops a descriptor that is closed. -/
def WriteContext.close {C : Type} (x : WriteContext C) : WriteContext C :=
  { x with watched := false, closed := true }

/-- The descriptors, their contexts, and the calls with their timers.  `scheduled` counts
the entries for the coroutine of a call in the queue. -/
structure State (C : Type) where
  fds : FdManager
  kernel : Int → Kernel
  connectTimeout : Nat
  write : Int → WriteContext C
  scheduled : C → Nat
  phase : C → Phase
  timeout : C → Nat
  cancelled : C → Bool
  timer : C → TimerState

/-- What happens next.  `stat` is what `fstat` reports where a context is made. -/
inductive Act (C : Type)
  | enter (c : C) (hooked : Bool) (stat : FdStat)
  | raw (c : C) (answer : Answer)
  | arm (c : C)
  | addEvent (c : C) (failed : Bool)
  | undo (c : C)
  | yield (c : C)
  | resume (c : C)
  | cancelTimer (c : C)
  | test (c : C)
  | sockopt (c : C)
  | collect (c : C)
  | guard (c : C) (alive : Bool)
  | mark (c : C)
  | cancelEvent (c : C) (ok : Bool)
  | settle (fd : Int) (failed : Option Errno)
  /-- `epoll_wait` tells the event loop that the descriptor is writable. -/
  | epollWait (fd : Int)
  /-- The event loop comes to an event that it has been told. -/
  | report (fd : Int)
  /-- `cancelWrite`, `cancelAll`, or the hooked `close` before the descriptor is closed, up
  to `triggerEvent`. -/
  | cancel (fd : Int)
  /-- `triggerEvent`, by whoever has come to it, up to the call of `schedule`. -/
  | trigger (fd : Int)
  /-- `triggerEvent` sets the scheduler back. -/
  | forget (fd : Int)
  /-- Other code schedules the coroutine of the call. -/
  | schedule (c : C)
  | close (fd : Int) (stat : FdStat)
  | opened (fd : Int) (stat : FdStat)
  /-- `getsockopt(SO_ERROR)` by other code. -/
  | soError (fd : Int)
  | setUserNonblock (fd : Int) (stat : FdStat) (v : Bool)
  /-- The listener of `tcp.connect.timeout`. -/
  | setConnectTimeout (ms : Int)

variable {C : Type}

/-- No descriptor is open; `tcp.connect.timeout` is 5000. -/
def start : State C :=
  { fds := FdManager.new, kernel := fun _ => .closed, connectTimeout := 5000
    write := fun _ => .new, scheduled := fun _ => 0, phase := fun _ => .entry
    timeout := fun _ => unlimited, cancelled := fun _ => false, timer := fun _ => .unarmed }

/-- The checks of `connect_with_timeout` on entry. -/
def checks (fds : FdManager) (fd : Int) (hooked : Bool) (stat : FdStat) :
    Option (Phase × FdManager) :=
  if hooked = false then some (.passing, fds)
  else
    match fds.get fd false stat with
    | none => none
    | some (none, fds) => some (.returned (-1) .ebadf, fds)
    | some (some p, fds) =>
        match fds.contexts[p]? with
        | none => none
        | some ctx =>
            if ctx.isClosed then some (.returned (-1) .ebadf, fds)
            else if !ctx.isSocket then some (.passing, fds)
            else if ctx.userNonblock then some (.passing, fds)
            else some (.calling, fds)

/-- The hooked `close` drops the context of the descriptor. -/
def dropCtx (fds : FdManager) (fd : Int) (stat : FdStat) : Option FdManager :=
  match fds.get fd false stat with
  | none => none
  | some (none, fds) => some fds
  | some (some _, fds) => fds.del fd

section Steps

variable [DecidableEq C]

def State.move (s : State C) (c : C) (phase : Phase) : State C :=
  { s with phase := Function.update s.phase c phase }

def State.setTimer (s : State C) (c : C) (timer : TimerState) : State C :=
  { s with timer := Function.update s.timer c timer }

def State.setKernel (s : State C) (fd : Int) (kernel : Kernel) : State C :=
  { s with kernel := Function.update s.kernel fd kernel }

/-- `Timer::cancel`. -/
def State.cancelTimer (s : State C) (c : C) : State C :=
  if s.timer c = .pending then s.setTimer c .over else s

def State.setWrite (s : State C) (fd : Int) (write : WriteContext C) : State C :=
  { s with write := Function.update s.write fd write }

/-- `Scheduler::schedule` for the coroutine of a call. -/
def State.schedule (s : State C) (c : C) : State C :=
  { s with scheduled := Function.update s.scheduled c (s.scheduled c + 1) }

/-- What is registered is scheduled; `triggerEvent` leaves the coroutine in the context. -/
def State.trigger (s : State C) (fd : Int) : State C :=
  match (s.write fd).coroutine with
  | none => s.setWrite fd (s.write fd).trigger
  | some c => (s.setWrite fd (s.write fd).trigger).schedule c

/-- What the end of the raw call leads to. -/
def afterRaw : Answer → Phase
  | .inProgress => .arming
  | answer => .returned answer.result.1 answer.result.2

/-- One step. -/
def step (io : Calls C) (s : State C) : Act C → Option (State C)
  | .enter c hooked stat =>
      if s.phase c = .entry then
        (checks s.fds (io.fd c) hooked stat).map fun (phase, fds) =>
          { s with
            fds := fds
            timeout := Function.update s.timeout c ((io.timeout c).getD s.connectTimeout)
            cancelled := Function.update s.cancelled c false }.move c phase
      else none
  | .raw c answer =>
      match s.phase c, (s.kernel (io.fd c)).connect answer with
      | .passing, some kernel =>
          some ((s.setKernel (io.fd c) kernel).move c
            (.returned answer.result.1 answer.result.2))
      | .calling, some kernel =>
          some ((s.setKernel (io.fd c) kernel).move c (afterRaw answer))
      | _, _ => none
  | .arm c =>
      if s.phase c = .arming then
        if s.timeout c = unlimited then some (s.move c .adding)
        else some ((s.setTimer c .pending).move c .adding)
      else none
  | .addEvent c failed =>
      -- the assertions of `addEvent` end the process
      if s.phase c = .adding ∧ (s.write (io.fd c)).event = false then
        if failed then some (s.move c .undoing)
        else if (s.write (io.fd c)).scheduler then none
        else some ((s.setWrite (io.fd c) ((s.write (io.fd c)).register c)).move c .yielding)
      else none
  | .undo c => if s.phase c = .undoing then some ((s.cancelTimer c).move c .asking) else none
  | .yield c => if s.phase c = .yielding then some (s.move c .parked) else none
  | .resume c =>
      if s.phase c = .parked ∧ 0 < s.scheduled c then
        some ({ s with scheduled := Function.update s.scheduled c (s.scheduled c - 1) }.move c
          .resumed)
      else none
  | .cancelTimer c =>
      if s.phase c = .resumed then some ((s.cancelTimer c).move c .testing) else none
  | .test c =>
      if s.phase c = .testing then
        some (s.move c (if s.cancelled c then .returned (-1) .etimedout else .asking))
      else none
  | .sockopt c =>
      if s.phase c = .asking then
        some ((s.setKernel (io.fd c) (s.kernel (io.fd c)).asked).move c
          (s.kernel (io.fd c)).answer)
      else none
  | .collect c => if s.timer c = .pending then some (s.setTimer c .collected) else none
  | .guard c alive =>
      -- `winfo.lock()` succeeds while the call has not returned
      if s.timer c = .collected ∧ ((s.phase c).hasReturned = true ∨ alive = true) then
        some (s.setTimer c (if alive && !s.cancelled c then .passed else .over))
      else none
  | .mark c =>
      if s.timer c = .passed then
        some ({ s with cancelled := Function.update s.cancelled c true }.setTimer c .marked)
      else none
  | .cancelEvent c ok =>
      -- `ok` is whether `epoll_ctl` succeeds
      if s.timer c = .marked then
        if ok && (s.write (io.fd c)).event then
          some ((s.setWrite (io.fd c) (s.write (io.fd c)).take).setTimer c .over)
        else some (s.setTimer c .over)
      else none
  | .settle fd failed => ((s.kernel fd).settle failed).map (s.setKernel fd)
  | .epollWait fd =>
      if (s.write fd).watched && (s.kernel fd).writable then
        some (s.setWrite fd { s.write fd with told := (s.write fd).told + 1 })
      else none
  | .report fd =>
      if 0 < (s.write fd).told then some (s.setWrite fd (s.write fd).handle) else none
  | .cancel fd =>
      if (s.write fd).event then some (s.setWrite fd (s.write fd).take) else none
  | .trigger fd =>
      -- a second `triggerEvent` for one registration may find no scheduler
      if 0 < (s.write fd).triggering ∧ (s.write fd).scheduler = true then some (s.trigger fd)
      else none
  | .forget fd =>
      if 0 < (s.write fd).forgetting then some (s.setWrite fd (s.write fd).forget) else none
  | .schedule c => some (s.schedule c)
  | .close fd stat =>
      (dropCtx s.fds fd stat).map fun fds =>
        ({ s with fds := fds }.setWrite fd (s.write fd).close).setKernel fd .closed
  | .opened fd stat =>
      if s.kernel fd = .closed then
        (s.fds.get fd true stat).map fun r => { s with fds := r.2 }.setKernel fd .idle
      else none
  | .soError fd => some (s.setKernel fd (s.kernel fd).asked)
  | .setUserNonblock fd stat v =>
      (Hook.updateCtx s.fds fd stat (Hook.setUserNonblock v)).map fun fds =>
        { s with fds := fds }
  | .setConnectTimeout ms => some { s with connectTimeout := (ms % 2 ^ 64).toNat }

def Step (io : Calls C) (s : State C) (a : Act C) (s' : State C) : Prop :=
  step io s a = some s'

/-- The event is found set by a second thread, while the first is on its way to
`triggerEvent`.  `cancelEvent` does not hold the mutex: it can be either of them. -/
def takesTwice (io : Calls C) (s : State C) : Act C → Bool
  | .cancelEvent c ok => ok && decide (0 < (s.write (io.fd c)).triggering)
  | .report fd => decide (0 < (s.write fd).triggering)
  | .cancel fd => decide (0 < (s.write fd).triggering)
  | _ => false

end Steps

end Connect

end Agent
