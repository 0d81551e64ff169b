import GServer.Library.Runs
import Mathlib.Data.Fintype.Basic
import Mathlib.Logic.Function.Basic

/-!
# Workers and coroutines

Any number of workers execute `Scheduler::run` on one queue.  A worker that
takes a coroutine goes through the stages of `Stage`: it picks the entry, tests
the state, enters `swapIn`, and is then on the coroutine's stack until the
coroutine has written the state it yields with and `swapOut` has saved its
context; after `swapIn` returns the worker writes the state once more.  Each
stage ends with a step of its own, and events and timers schedule coroutines
at any time, running or not.

The scheduler never asks whether another worker is still between these steps:
`TakesFree` says of a step that no worker takes up a coroutine that another one
still has, and `Sound` what is expected of the states.
-/

namespace Agent

open Runs

namespace Workers

/-- `Coroutine::State`. -/
inductive CoState
  | init
  | hold
  | exec
  | term
  | ready
  | except
deriving DecidableEq

/-- The branch of `run` that a coroutine is resumed in: a coroutine of the queue,
the `cb_coroutine` made for a callback, or the worker's idle coroutine. -/
inductive Kind
  | task
  | cb
  | idle
deriving DecidableEq

/-- How far a worker is with its coroutine. -/
inductive Stage
  /-- Taken from the queue, `getState` not yet tested. -/
  | picked
  /-- In `swapIn`, before the assertion. -/
  | entering
  | executing
  /-- The coroutine has written the state; its context is not yet saved. -/
  | leaving (wrote : CoState)
  /-- `swapIn` has returned. -/
  | returned
deriving DecidableEq

/-- Where a worker is in `run`. -/
inductive Phase (C : Type)
  | outside
  /-- At the head of the loop. -/
  | loop
  | on (kind : Kind) (c : C) (stage : Stage)
  | finished
deriving DecidableEq

/-- `CoroutineAndThread`; `threadId = none` is `-1`. -/
structure CoroutineAndThread (W C : Type) where
  coroutine : Option C
  cb : Bool
  threadId : Option W

/-- The scheduler.  `cstate c = none` before the coroutine is constructed. -/
structure State (W C : Type) where
  cstate : C → Option CoState
  queue : List (CoroutineAndThread W C)
  stopping : Bool
  idle : W → Option C
  phase : W → Phase C

/-- The steps of the workers and of the code that calls the scheduler. -/
inductive Act (W C : Type)
  /-- `new Coroutine` in user code. -/
  | create (c : C)
  | schedule (x : CoroutineAndThread W C)
  | stop
  /-- `run` begins and makes its idle coroutine. -/
  | start (w : W) (c : C)
  /-- `while(!stopping())` ends the loop. -/
  | exit (w : W)
  /-- The pick; `fresh` is the coroutine made when a callback is picked. -/
  | pick (w : W) (fresh : C)
  | test (w : W)
  | swapIn (w : W)
  /-- `YieldToHold`, `YieldToReady` or the end of `MainFunc` write the state. -/
  | yield (w : W) (wrote : CoState)
  | swapOut (w : W)
  /-- `run` after `swapIn`; `stop` is the result of `stopping()` in the idle
  branch. -/
  | update (w : W) (stop : Bool)

/-- The coroutine that the worker has. -/
def Phase.coroutine {C : Type} : Phase C → Option C
  | on _ c _ => some c
  | _ => none

/-- The worker is on the coroutine's stack. -/
def Stage.onStack : Stage → Prop
  | executing => True
  | leaving _ => True
  | _ => False

/-- What the state of a worker's coroutine should be at each stage: not `EXEC`
where `swapIn` asserts it, `EXEC` while it executes, and what it wrote while it
leaves. -/
def Stage.Sound : Stage → Option CoState → Prop
  | picked, st => st ≠ some .exec
  | entering, st => st ≠ some .exec
  | executing, st => st = some .exec
  | leaving wrote, st => st = some wrote
  | returned, _ => True

variable {W C : Type} [DecidableEq W] [DecidableEq C]

/-- The states a coroutine writes before it leaves. -/
def CoState.yields : CoState → Bool
  | hold => true
  | ready => true
  | term => true
  | except => true
  | _ => false

/-- The coroutine has ended. -/
def CoState.ended : Option CoState → Bool
  | some .term => true
  | some .except => true
  | _ => false

/-- The pick loop does not pass over the entry. -/
def State.eligible (s : State W C) (w : W) (x : CoroutineAndThread W C) : Bool :=
  (x.threadId == none || x.threadId == some w) &&
    x.coroutine.all (fun c => s.cstate c != some .exec)

/-- The position of the entry that the pick of `w` takes. -/
def State.pickIndex (s : State W C) (w : W) : Option Nat :=
  s.queue.findIdx? (s.eligible w)

/-- The worker moves to `p`, and the coroutines' states become `cstate`. -/
def State.set (s : State W C) (w : W) (p : Phase C) (cstate : C → Option CoState) :
    State W C :=
  { s with phase := Function.update s.phase w p, cstate := cstate }

/-- The idle branch of `run`. -/
def State.idleBranch (s : State W C) (w : W) : Option (State W C) :=
  match s.idle w with
  | none => none
  | some i =>
      if s.cstate i = some .term then some (s.set w .finished s.cstate)
      else some (s.set w (.on .idle i .entering) s.cstate)

/-- What `run` does after `swapIn` has returned. -/
def State.postSwap (s : State W C) (w : W) (kind : Kind) (c : C) (stop : Bool) :
    State W C :=
  let drop := s.set w .loop s.cstate
  let set := fun st => s.set w .loop (Function.update s.cstate c (some st))
  match kind with
  | .task =>
      if s.cstate c = some .ready then
        { drop with queue := s.queue ++ [{ coroutine := some c, cb := false, threadId := none }] }
      else if CoState.ended (s.cstate c) then drop
      else set .hold
  | .cb =>
      if s.cstate c = some .ready then
        { drop with queue := s.queue ++ [{ coroutine := some c, cb := false, threadId := none }] }
      else if CoState.ended (s.cstate c) then set .init
      else set .hold
  | .idle =>
      if stop then s.set w .finished s.cstate
      else if CoState.ended (s.cstate c) then drop
      else set .hold

/-- One step; `none` when it is not possible or the assertion of `swapIn`
fails. -/
def step (s : State W C) : Act W C → Option (State W C)
  | .create c =>
      if s.cstate c = none then
        some { s with cstate := Function.update s.cstate c (some .init) }
      else none
  | .schedule x =>
      if x.coroutine.all (fun c => (s.cstate c).isSome) then
        some { s with
          queue := if x.coroutine.isSome || x.cb then s.queue ++ [x] else s.queue }
      else none
  | .stop => some { s with stopping := true }
  | .start w c =>
      if s.phase w = .outside ∧ s.cstate c = none then
        some { s.set w .loop (Function.update s.cstate c (some .init)) with
          idle := Function.update s.idle w (some c) }
      else none
  | .exit w =>
      if s.phase w = .loop ∧ s.stopping ∧ s.queue.isEmpty then
        some (s.set w .finished s.cstate)
      else none
  | .pick w fresh =>
      if s.phase w = .loop then
        match s.pickIndex w with
        | none => s.idleBranch w
        | some i =>
            match s.queue[i]? with
            | none => none
            | some x =>
                let s := { s with queue := s.queue.eraseIdx i }
                match x.coroutine with
                | some c => some (s.set w (.on .task c .picked) s.cstate)
                | none =>
                    if s.cstate fresh = none then
                      some (s.set w (.on .cb fresh .entering)
                        (Function.update s.cstate fresh (some .init)))
                    else none
      else none
  | .test w =>
      match s.phase w with
      | .on .task c .picked =>
          if CoState.ended (s.cstate c) then s.idleBranch w
          else some (s.set w (.on .task c .entering) s.cstate)
      | _ => none
  | .swapIn w =>
      match s.phase w with
      | .on kind c .entering =>
          if s.cstate c = some .exec then none
          else some (s.set w (.on kind c .executing)
            (Function.update s.cstate c (some .exec)))
      | _ => none
  | .yield w wrote =>
      match s.phase w with
      | .on kind c .executing =>
          if wrote.yields then
            some (s.set w (.on kind c (.leaving wrote))
              (Function.update s.cstate c (some wrote)))
          else none
      | _ => none
  | .swapOut w =>
      match s.phase w with
      | .on kind c (.leaving _) => some (s.set w (.on kind c .returned) s.cstate)
      | _ => none
  | .update w stop =>
      match s.phase w with
      | .on kind c .returned => some (s.postSwap w kind c stop)
      | _ => none

/-- The steps of a run. -/
def Step (s : State W C) (a : Act W C) (s' : State W C) : Prop :=
  step s a = some s'

/-- What a step can do, by the ways through it. -/
inductive Turn (s : State W C) : Act W C → State W C → Prop
  | create {c : C} (hnew : s.cstate c = none) :
      Turn s (.create c) { s with cstate := Function.update s.cstate c (some .init) }
  | schedule {x : CoroutineAndThread W C}
      (hmade : x.coroutine.all (fun c => (s.cstate c).isSome) = true) :
      Turn s (.schedule x) { s with
        queue := if x.coroutine.isSome || x.cb then s.queue ++ [x] else s.queue }
  | stop : Turn s .stop { s with stopping := true }
  | start {w : W} {c : C} (hw : s.phase w = .outside) (hnew : s.cstate c = none) :
      Turn s (.start w c) { s.set w .loop (Function.update s.cstate c (some .init)) with
        idle := Function.update s.idle w (some c) }
  | exit {w : W} (hw : s.phase w = .loop) (hstop : s.stopping = true)
      (hempty : s.queue.isEmpty = true) : Turn s (.exit w) (s.set w .finished s.cstate)
  | pickNothing {w : W} {fresh : C} {s' : State W C} (hw : s.phase w = .loop)
      (hnone : s.pickIndex w = none) (hidle : s.idleBranch w = some s') :
      Turn s (.pick w fresh) s'
  | pickTask {w : W} {fresh c : C} {i : Nat} {x : CoroutineAndThread W C}
      (hw : s.phase w = .loop) (hi : s.pickIndex w = some i) (hx : s.queue[i]? = some x)
      (hc : x.coroutine = some c) :
      Turn s (.pick w fresh)
        ({ s with queue := s.queue.eraseIdx i }.set w (.on .task c .picked) s.cstate)
  | pickCb {w : W} {fresh : C} {i : Nat} {x : CoroutineAndThread W C}
      (hw : s.phase w = .loop) (hi : s.pickIndex w = some i) (hx : s.queue[i]? = some x)
      (hc : x.coroutine = none) (hnew : s.cstate fresh = none) :
      Turn s (.pick w fresh)
        ({ s with queue := s.queue.eraseIdx i }.set w (.on .cb fresh .entering)
          (Function.update s.cstate fresh (some .init)))
  | testEnded {w : W} {c : C} {s' : State W C} (hw : s.phase w = .on .task c .picked)
      (hended : CoState.ended (s.cstate c) = true) (hidle : s.idleBranch w = some s') :
      Turn s (.test w) s'
  | testLive {w : W} {c : C} (hw : s.phase w = .on .task c .picked) :
      Turn s (.test w) (s.set w (.on .task c .entering) s.cstate)
  | swapIn {w : W} {kind : Kind} {c : C} (hw : s.phase w = .on kind c .entering) :
      Turn s (.swapIn w)
        (s.set w (.on kind c .executing) (Function.update s.cstate c (some .exec)))
  | yield {w : W} {kind : Kind} {c : C} {wrote : CoState}
      (hw : s.phase w = .on kind c .executing) :
      Turn s (.yield w wrote)
        (s.set w (.on kind c (.leaving wrote)) (Function.update s.cstate c (some wrote)))
  | swapOut {w : W} {kind : Kind} {c : C} {wrote : CoState}
      (hw : s.phase w = .on kind c (.leaving wrote)) :
      Turn s (.swapOut w) (s.set w (.on kind c .returned) s.cstate)
  | update {w : W} {kind : Kind} {c : C} {stop : Bool}
      (hw : s.phase w = .on kind c .returned) :
      Turn s (.update w stop) (s.postSwap w kind c stop)

/-- Every step is one of these. -/
theorem turn_of_step {s s' : State W C} {a : Act W C} (h : step s a = some s') :
    Turn s a s' := by
  unfold step at h
  cases a with
  | create c =>
      obtain ⟨hnew, heq⟩ := Option.ite_none_right_eq_some.mp h
      cases heq
      exact .create hnew
  | schedule x =>
      obtain ⟨hmade, heq⟩ := Option.ite_none_right_eq_some.mp h
      cases heq
      exact .schedule hmade
  | stop =>
      cases h
      exact .stop
  | start w c =>
      obtain ⟨⟨hw, hnew⟩, heq⟩ := Option.ite_none_right_eq_some.mp h
      cases heq
      exact .start hw hnew
  | exit w =>
      obtain ⟨⟨hw, hstop, hempty⟩, heq⟩ := Option.ite_none_right_eq_some.mp h
      cases heq
      exact .exit hw hstop hempty
  | pick w fresh =>
      obtain ⟨hw, h⟩ := Option.ite_none_right_eq_some.mp h
      split at h
      · rename_i hnone
        exact .pickNothing hw hnone h
      · rename_i i hi
        split at h
        · cases h
        · rename_i x hx
          dsimp only at h
          split at h
          · rename_i c hc
            cases h
            exact .pickTask hw hi hx hc
          · rename_i hc
            obtain ⟨hnew, heq⟩ := Option.ite_none_right_eq_some.mp h
            cases heq
            exact .pickCb hw hi hx hc hnew
  | test w =>
      dsimp only at h
      split at h
      · rename_i c hw
        split at h
        · rename_i hended
          exact .testEnded hw hended h
        · cases h
          exact .testLive hw
      · cases h
  | swapIn w =>
      dsimp only at h
      split at h
      · rename_i kind c hw
        obtain ⟨-, heq⟩ := Option.ite_none_left_eq_some.mp h
        cases heq
        exact .swapIn hw
      · cases h
  | yield w wrote =>
      dsimp only at h
      split at h
      · rename_i kind c hw
        obtain ⟨-, heq⟩ := Option.ite_none_right_eq_some.mp h
        cases heq
        exact .yield hw
      · cases h
  | swapOut w =>
      dsimp only at h
      split at h
      · rename_i kind c wrote hw
        cases h
        exact .swapOut hw
      · cases h
  | update w stop =>
      dsimp only at h
      split at h
      · rename_i kind c hw
        cases h
        exact .update hw
      · cases h

/-- A new scheduler. -/
def start : State W C :=
  { cstate := fun _ => none, queue := [], stopping := false
    idle := fun _ => none, phase := fun _ => .outside }

/-- The coroutine that a worker takes up with the step, if it is not a new
one: the picked entry's, or the worker's idle coroutine. -/
def takes (s : State W C) : Act W C → Option (W × C)
  | .pick w _ =>
      match s.pickIndex w with
      | none => (s.idle w).map (fun i => (w, i))
      | some i => ((s.queue[i]?).bind (fun x => x.coroutine)).map (fun c => (w, c))
  | .test w =>
      match s.phase w with
      | .on .task c .picked =>
          if CoState.ended (s.cstate c) then (s.idle w).map (fun i => (w, i)) else none
      | _ => none
  | _ => none

/-- No other worker still has the coroutine that a worker takes up. -/
def TakesFree (s : State W C) (a : Act W C) : Prop :=
  ∀ w c, takes s a = some (w, c) → ∀ u, u ≠ w → (s.phase u).coroutine ≠ some c

instance [Fintype W] (s : State W C) (a : Act W C) : Decidable (TakesFree s a) :=
  decidable_of_iff (∀ t ∈ takes s a, ∀ u, u ≠ t.1 → (s.phase u).coroutine ≠ some t.2)
    ⟨fun h w c hw u hu => h (w, c) hw u hu, fun h t ht u hu => h t.1 t.2 ht u hu⟩

/-- No coroutine is on the stack of two workers, `swapIn`'s assertion holds, and
the state of an executing coroutine is `EXEC` until it writes another itself. -/
structure Sound (s : State W C) : Prop where
  alone : ∀ w u kind kind' c stage stage',
    s.phase w = .on kind c stage → stage.onStack →
    s.phase u = .on kind' c stage' → stage'.onStack → w = u
  assertion : ∀ w kind c, s.phase w = .on kind c .entering → s.cstate c ≠ some .exec
  executing : ∀ w kind c, s.phase w = .on kind c .executing → s.cstate c = some .exec
  leaving : ∀ w kind c wrote, s.phase w = .on kind c (.leaving wrote) →
    s.cstate c = some wrote

end Workers

end Agent
