import GServer.Library.StackSwitching
import GServer.WorkerInvariant

/-!
# The contexts of the coroutines

Where `Workers` has a worker on a coroutine's stack and back in `run`, the code has
`swapcontext` and three thread-local pointers: `t_coroutine`, the coroutine that
`GetThis` answers, `t_thread_coroutine`, and `t_scheduler_coroutine`, which `swapIn`
saves in and `swapOut` goes back to.  On a thread of the pool `run` executes on the
thread's own stack; the thread that has constructed the scheduler with `use_caller`
calls a coroutine of its own for it and is back in `start` when `run` is over.

Here a thread executes whatever code is on the stack that it has been switched to.
`run` between two switches is that of `Workers`.  A step is not possible where an
assertion fails or a null pointer is followed.

A context that is not the last position of a stack with nobody on it is outside this
model: there is no step that loads one.  The code does load it.  `swapIn` on a coroutine
that another thread executes enters its function again on the same stack, and on one whose
`MainFunc` is over it goes on behind the last `swapOut`; what a stack holds after that is
not described here.
-/

namespace Agent

open Runs StackSwitching

namespace Contexts

open Workers (CoState Kind Phase Stage CoroutineAndThread)

/-- The coroutine objects. -/
inductive Co (W C : Type)
  /-- Made by `Coroutine()`; it has no stack but the thread's. -/
  | own (w : W)
  /-- `m_mainCoroutine`. -/
  | root
  | user (c : C)
deriving DecidableEq

/-- How far the code on a stack has come.  `cur` is the local variable of `MainFunc`,
`out` the coroutine that `swapOut` is called on. -/
inductive Code (W C : Type)
  /-- No coroutine has been made, or `MainFunc` is over. -/
  | absent
  /-- The thread's own code, before `call` or after it. -/
  | outside
  /-- In the `swapcontext` of `call`. -/
  | calling
  | fresh
  | run (cur : Option (Co W C)) (phase : Phase C)
  /-- In the `swapcontext` of `swapIn`. -/
  | waiting (cur : Option (Co W C)) (kind : Kind) (c : C)
  | body (cur : Co W C)
  /-- The state has been written. -/
  | leaving (cur : Co W C) (wrote : CoState) (out : Co W C)
  /-- In the `swapcontext` of `swapOut`. -/
  | suspended (cur : Co W C)
deriving DecidableEq

/-- The threads with their contexts and thread-local pointers, and the scheduler. -/
structure State (W C : Type) where
  machine : Machine W (Co W C)
  current : W → Option (Co W C)
  thread : W → Option (Co W C)
  scheduler : W → Option (Co W C)
  mstate : Co W C → Option CoState
  code : Co W C → Code W C
  queue : List (CoroutineAndThread W C)
  stopping : Bool
  idle : W → Option C

/-- `construct` is the constructor with `use_caller`, `back` the end of `MainFunc` on the
stack of `m_mainCoroutine`. -/
inductive Act (W C : Type)
  | construct (w : W)
  | run (a : Workers.Act W C)
  | back (w : W)

variable {W C : Type}

/-- A thread is on the stack. -/
def Code.executing : Code W C → Bool
  | .body _ => true
  | .leaving _ _ _ => true
  | _ => false

/-- The local variable of the `MainFunc` that has called what is on the stack. -/
def Code.cur : Code W C → Option (Co W C)
  | .body cur => some cur
  | _ => none

/-- Where a coroutine that has not returned to `run` is. -/
def Code.stage : Code W C → Stage
  | .leaving _ wrote _ => .leaving wrote
  | _ => .executing

/-- Where a worker is in `run`: what is on the stack that `run` executes on. -/
def State.phase (s : State W C) (w : W) : Phase C :=
  match s.scheduler w with
  | none => .outside
  | some k =>
      match s.code k with
      | .run _ phase => phase
      | .waiting _ kind c => .on kind c (s.code (.user c)).stage
      | .absent => .finished
      | _ => .outside

/-- What is seen of the scheduler without the contexts. -/
def State.workers (s : State W C) : Workers.State W C :=
  { cstate := fun c => s.mstate (.user c), queue := s.queue, stopping := s.stopping
    idle := s.idle, phase := s.phase }

/-- How the code on a stack goes on when its context is loaded; `MainFunc` begins with
`GetThis`.  `none` is code that a thread is executing, or that is over: the code loads such
a context too, which is outside this model. -/
def resume (current : Option (Co W C)) : Code W C → Option (Code W C)
  | .fresh => current.map .body
  | .suspended cur => some (.body cur)
  | .waiting cur kind c => some (.run cur (.on kind c .returned))
  | .calling => some .outside
  | _ => none

/-- No thread has begun. -/
def start : State W C :=
  { machine := .empty, current := fun _ => none, thread := fun _ => none
    scheduler := fun _ => none, mstate := fun _ => none, code := fun _ => .absent
    queue := [], stopping := false, idle := fun _ => none }

section Steps

variable [DecidableEq W] [DecidableEq C]

/-- `SetThis`. -/
def State.setThis (s : State W C) (w : W) (k : Co W C) : State W C :=
  { s with current := Function.update s.current w (some k) }

def State.setState (s : State W C) (k : Co W C) (st : CoState) : State W C :=
  { s with mstate := Function.update s.mstate k (some st) }

def State.setCode (s : State W C) (k : Co W C) (code : Code W C) : State W C :=
  { s with code := Function.update s.code k code }

/-- `swapcontext`, by which the code on the thread's stack comes to `left`. -/
def State.switch (s : State W C) (w : W) (save load : Co W C) (left : Code W C) :
    Option (State W C) :=
  match s.machine.stack w, s.machine.swap w save load with
  | some k, some m =>
      let s := { s.setCode k left with machine := m }
      match m.on w with
      | none => none
      | some p =>
          -- an older position of the stack is no context any more
          if p.turn = m.left p.stack then
            (resume (s.current w) (s.code p.stack)).map fun code => s.setCode p.stack code
          else none
  | _, _ => none

/-- `getcontext` and `makecontext` on the stack of a coroutine. -/
def State.newStack (s : State W C) (c : C) : Option (State W C) :=
  if (s.code (.user c)).executing then none
  else some { s.setCode (.user c) .fresh with machine := s.machine.make (.user c) }

/-- `GetThis` on a thread that has no coroutine yet. -/
def State.getThis (s : State W C) (w : W) : State W C :=
  { (s.setThis w (.own w)).setState (.own w) .exec |>.setCode (.own w) .outside with
    machine := s.machine.adopt w (.own w)
    thread := Function.update s.thread w (some (.own w)) }

/-- `call`. -/
def State.call (s : State W C) (w : W) (k : Co W C) : Option (State W C) :=
  match s.thread w with
  | none => none
  | some thread => ((s.setThis w k).setState k .exec).switch w thread k .calling

/-- `run` begins on the stack `k` and makes its idle coroutine. -/
def State.entered (s : State W C) (w : W) (k : Co W C) (i : C) : State W C :=
  { s.setState (.user i) .init with idle := Function.update s.idle w (some i) }.setCode k
    (.run (s.code k).cur .loop)

def State.enterRun (s : State W C) (w : W) (i : C) : Option (State W C) :=
  match s.machine.stack w with
  | none => none
  | some k =>
      if s.mstate (.user i) = none then (s.entered w k i).newStack i else none

/-- On a thread of the pool `run` executes on the thread's own stack. -/
def State.adoptThread (s : State W C) (w : W) : State W C :=
  { s.getThis w with scheduler := Function.update s.scheduler w (some (.own w)) }

/-- A thread of the pool begins in `run`, the thread of the constructor in `start`, which
calls `m_mainCoroutine`. -/
def State.begin (s : State W C) (w : W) (i : C) : Option (State W C) :=
  match s.scheduler w, s.machine.stack w with
  | none, none => (s.adoptThread w).enterRun w i
  | some .root, some k =>
      match s.code k with
      | .outside => (s.call w .root).bind fun s => s.enterRun w i
      | _ => none
  | _, _ => none

/-- The states once those of the users' coroutines have been written. -/
def written (mstate : Co W C → Option CoState) (cstate : C → Option CoState) :
    Co W C → Option CoState
  | .user c => cstate c
  | j => mstate j

/-- A step of `run` between two switches. -/
def State.inRun (s : State W C) (w : W) (a : Workers.Act W C) : Option (State W C) :=
  match s.machine.stack w with
  | none => none
  | some k =>
      match s.code k with
      | .run cur _ =>
          (Workers.step s.workers a).map fun r =>
            { s.setCode k (.run cur (r.phase w)) with
              mstate := written s.mstate r.cstate
              queue := r.queue
              stopping := r.stopping
              idle := r.idle }
      | _ => none

/-- The code that calls the scheduler. -/
def State.shared (s : State W C) (a : Workers.Act W C) : Option (State W C) :=
  (Workers.step s.workers a).map fun r =>
    { s with queue := r.queue, stopping := r.stopping }

/-- `swapIn`. -/
def State.swapIn (s : State W C) (w : W) : Option (State W C) :=
  match s.machine.stack w with
  | none => none
  | some k =>
      match s.code k, s.scheduler w with
      | .run cur (.on kind c .entering), some main =>
          if s.mstate (.user c) = some .exec then none
          else ((s.setThis w (.user c)).setState (.user c) .exec).switch w main (.user c)
            (.waiting cur kind c)
      | _, _ => none

/-- `YieldToHold` and `YieldToReady` write the state of the coroutine that `GetThis`
answers, the end of `MainFunc` that of its own. -/
def State.yield (s : State W C) (w : W) (wrote : CoState) : Option (State W C) :=
  match s.machine.stack w with
  | none => none
  | some k =>
      match s.code k, s.current w with
      | .body cur, some this =>
          if wrote.yields then
            let out := if CoState.ended (some wrote) then cur else this
            some ((s.setState out wrote).setCode k (.leaving cur wrote out))
          else none
      | _, _ => none

/-- `back`. -/
def State.goBack (s : State W C) (w : W) (k : Co W C) : Option (State W C) :=
  match s.thread w with
  | none => none
  | some thread => (s.setThis w thread).switch w k thread .absent

/-- `swapOut`, or `back` where `MainFunc` ends on the scheduler's coroutine. -/
def State.swapOut (s : State W C) (w : W) : Option (State W C) :=
  match s.machine.stack w with
  | none => none
  | some k =>
      match s.code k, s.scheduler w with
      | .leaving cur wrote out, some main =>
          if CoState.ended (some wrote) then
            if out = main then s.goBack w out
            else (s.setThis w main).switch w out main .absent
          else (s.setThis w main).switch w out main (.suspended cur)
      | _, _ => none

/-- The steps of the workers and of the code that calls the scheduler. -/
def State.act (s : State W C) : Workers.Act W C → Option (State W C)
  | .create c =>
      if s.mstate (.user c) = none then (s.setState (.user c) .init).newStack c else none
  | .schedule x => s.shared (.schedule x)
  | .stop => s.shared .stop
  | .start w c => s.begin w c
  | .exit w => s.inRun w (.exit w)
  | .pick w fresh =>
      (s.inRun w (.pick w fresh)).bind fun r =>
        -- `new Coroutine` for a callback
        if s.mstate (.user fresh) = none ∧ r.mstate (.user fresh) ≠ none then r.newStack fresh
        else some r
  | .test w => s.inRun w (.test w)
  | .swapIn w => s.swapIn w
  | .yield w wrote => s.yield w wrote
  | .swapOut w => s.swapOut w
  | .update w stop =>
      (s.inRun w (.update w stop)).bind fun r =>
        match s.phase w with
        | .on .cb c _ =>
            -- `cb_coroutine -> reset(nullptr)`
            if CoState.ended (s.mstate (.user c)) then r.newStack c else some r
        | _ => some r

/-- The constructor with `use_caller`. -/
def State.constructed (s : State W C) (w : W) : State W C :=
  { ((s.getThis w).setState .root .init).setCode .root .fresh with
    machine := (s.getThis w).machine.make .root
    scheduler := Function.update s.scheduler w (some .root) }

def step (s : State W C) : Act W C → Option (State W C)
  | .construct w =>
      if s.machine.stack w = none ∧ s.mstate .root = none then
        some (s.constructed w)
      else none
  | .run a => s.act a
  | .back w =>
      match s.machine.stack w with
      | none => none
      | some k =>
          match s.code k with
          | .run (some cur) .finished =>
              if some cur = s.scheduler w then (s.setState cur .term).goBack w cur else none
          | _ => none

def Step (s : State W C) (a : Act W C) (s' : State W C) : Prop :=
  step s a = some s'

end Steps

end Contexts

end Agent
