import GServer.Library.Runs
import GServer.Library.SortedSet
import Mathlib.Logic.Function.Basic

/-!
# The timer manager

`TimerManager` keeps the pending timers in a `std::set` ordered by the field
`m_next` of the timers and, for equal deadlines, by their addresses.  A timer
lives in a heap and is named by its address; the set holds addresses.  Times
are `uint64_t` milliseconds and wrap as they do in the source.

Each operation is one step under the manager's lock and takes the reading of
`Utils::GetCurrentMS` it makes as an argument.  `Inv` says that the set is in
order of the current deadlines, holds live timers only, and holds every timer
that still has its callback; every operation keeps it.
-/

namespace Agent

open Runs SortedSet

/-- The address of a timer. -/
abbrev Addr := Nat

/-- A timer: `cb = none` is an empty `std::function`. -/
structure Timer (Cb : Type) where
  recuring : Bool
  ms : UInt64
  next : UInt64
  cb : Option Cb

/-- The manager with the timers ever allocated. -/
structure TimerManager (Cb : Type) where
  heap : Addr → Option (Timer Cb)
  timers : List Addr
  tickled : Bool
  previousTime : UInt64

namespace TimerManager

variable {Cb : Type}

/-- `TimerManager::TimerManager`. -/
def new (now : UInt64) : TimerManager Cb :=
  { heap := fun _ => none, timers := [], tickled := false, previousTime := now }

/-- The deadline of the timer at `a`. -/
def nextOf (m : TimerManager Cb) (a : Addr) : UInt64 :=
  match m.heap a with
  | some t => t.next
  | none => 0

/-- `Timer::Comparator` on deadlines and addresses; no pointer in the set is
null. -/
def keyLess (next₁ : UInt64) (a₁ : Addr) (next₂ : UInt64) (a₂ : Addr) : Bool :=
  if next₁ < next₂ then true
  else if next₂ < next₁ then false
  else decide (a₁ < a₂)

/-- `Timer::Comparator` on the timers as they are now. -/
def less (m : TimerManager Cb) (a b : Addr) : Bool :=
  keyLess (m.nextOf a) a (m.nextOf b) b

/-- Overwrite the timer at `a`. -/
def setTimer (m : TimerManager Cb) (a : Addr) (t : Timer Cb) : TimerManager Cb :=
  { m with heap := Function.update m.heap a (some t) }

/-- `m_timers.insert(timer)`. -/
def insertTimer (m : TimerManager Cb) (a : Addr) : TimerManager Cb :=
  { m with timers := SortedSet.insert m.less a m.timers }

/-- `m_timers.erase(m_timers.find(timer))`; `none` when the timer is not found. -/
def eraseTimer (m : TimerManager Cb) (a : Addr) : Option (TimerManager Cb) :=
  match find? m.less a m.timers with
  | none => none
  | some i => some { m with timers := m.timers.eraseIdx i }

/-- `TimerManager::addTimer(val, lock)`: insert, and tell whether
`onTimerInsertedAtFront` is called. -/
def addLocked (m : TimerManager Cb) (a : Addr) : Bool × TimerManager Cb :=
  let m := m.insertTimer a
  let atFront := m.timers.head? == some a && !m.tickled
  (atFront, { m with tickled := m.tickled || atFront })

/-- `TimerManager::addTimer`: the timer is allocated at the unused address `a`. -/
def addTimer (m : TimerManager Cb) (a : Addr) (ms : UInt64) (cb : Option Cb)
    (recuring : Bool) (now : UInt64) : Option (Bool × TimerManager Cb) :=
  match m.heap a with
  | some _ => none
  | none =>
      let t : Timer Cb := { recuring := recuring, ms := ms, next := now + ms, cb := cb }
      some ((m.setTimer a t).addLocked a)

/-- `Timer::cancel`; `none` is the erasure of `end()`. -/
def cancel (m : TimerManager Cb) (a : Addr) : Option (Bool × TimerManager Cb) :=
  match m.heap a with
  | none => none
  | some t =>
      if t.cb.isSome then
        ((m.setTimer a { t with cb := none }).eraseTimer a).map (fun m => (true, m))
      else some (false, m)

/-- `Timer::refresh`. -/
def refresh (m : TimerManager Cb) (a : Addr) (now : UInt64) :
    Option (Bool × TimerManager Cb) :=
  match m.heap a with
  | none => none
  | some t =>
      if t.cb.isNone then some (false, m)
      else
        match m.eraseTimer a with
        | none => some (false, m)
        | some m =>
            some (true, (m.setTimer a { t with next := now + t.ms }).insertTimer a)

/-- `Timer::reset`: whether it succeeds, whether `onTimerInsertedAtFront` is
called, and the manager it leaves. -/
def reset (m : TimerManager Cb) (a : Addr) (ms : UInt64) (fromNow : Bool)
    (now : UInt64) : Option (Bool × Bool × TimerManager Cb) :=
  match m.heap a with
  | none => none
  | some t =>
      if ms == t.ms && !fromNow then some (true, false, m)
      else if t.cb.isNone then some (false, false, m)
      else
        match m.eraseTimer a with
        | none => some (false, false, m)
        | some m =>
            let start := if fromNow then now else t.next - t.ms
            let m := m.setTimer a { t with ms := ms, next := start + ms }
            some (true, m.addLocked a)

/-- `TimerManager::getNextTimer`. -/
def getNextTimer (m : TimerManager Cb) (now : UInt64) : UInt64 × TimerManager Cb :=
  let m := { m with tickled := false }
  match m.timers with
  | [] => (0xffffffffffffffff, m)
  | front :: _ =>
      if m.nextOf front ≤ now then (0, m) else (m.nextOf front - now, m)

/-- `TimerManager::hasTimer`. -/
def hasTimer (m : TimerManager Cb) : Bool :=
  !m.timers.isEmpty

/-- The verdict of `TimerManager::detectClockRoller`. -/
def detectClockRoller (m : TimerManager Cb) (now : UInt64) : Bool :=
  decide (now < m.previousTime) && decide (now < m.previousTime - 60 * 60 * 1000)

/-- The vector `expired` of `listExpiredCb`; `probe` is the address of the timer
made from `now` to search with. -/
def expired (m : TimerManager Cb) (now : UInt64) (probe : Addr) : List Addr :=
  match m.timers with
  | [] => []
  | front :: _ =>
      if m.detectClockRoller now then m.timers
      else if now < m.nextOf front then []
      else
        let before := fun a => keyLess (m.nextOf a) a now probe
        m.timers.takeWhile before ++
          (m.timers.dropWhile before).takeWhile (fun a => m.nextOf a == now)

/-- What a pass at time `now` does to a timer it collects. -/
def collectTimer (now : UInt64) (t : Timer Cb) : Timer Cb :=
  if t.recuring then { t with next := t.next + (now + t.ms) }
  else { t with cb := none }

/-- The loop of `listExpiredCb` over the collected timers. -/
def collect (now : UInt64) :
    List Addr → TimerManager Cb → List (Option Cb) × TimerManager Cb
  | [], m => ([], m)
  | a :: rest, m =>
      match m.heap a with
      | none => collect now rest m
      | some t =>
          let m := m.setTimer a (collectTimer now t)
          let m := if t.recuring then m.insertTimer a else m
          let (cbs, m) := collect now rest m
          (t.cb :: cbs, m)

/-- `TimerManager::listExpiredCb`. -/
def listExpiredCb (m : TimerManager Cb) (now : UInt64) (probe : Addr) :
    List (Option Cb) × TimerManager Cb :=
  if m.timers.isEmpty then ([], m)
  else
    let gone := m.expired now probe
    collect now gone
      { m with timers := m.timers.drop gone.length, previousTime := now }

/-- A call on the manager or on one of its timers. -/
inductive Call (Cb : Type)
  | addTimer (a : Addr) (ms : UInt64) (cb : Option Cb) (recuring : Bool) (now : UInt64)
  | cancel (a : Addr)
  | refresh (a : Addr) (now : UInt64)
  | reset (a : Addr) (ms : UInt64) (fromNow : Bool) (now : UInt64)
  | getNextTimer (now : UInt64)
  | hasTimer
  | listExpiredCb (now : UInt64) (probe : Addr)

/-- What a call returns, with the calls of `onTimerInsertedAtFront`. -/
inductive Ret (Cb : Type)
  | added (atFront : Bool)
  | changed (ok : Bool) (atFront : Bool)
  | remaining (ms : UInt64)
  | answer (b : Bool)
  | callbacks (cbs : List (Option Cb))

/-- One call. -/
def exec (m : TimerManager Cb) : Call Cb → Option (Ret Cb × TimerManager Cb)
  | .addTimer a ms cb recuring now =>
      (m.addTimer a ms cb recuring now).map (fun r => (.added r.1, r.2))
  | .cancel a => (m.cancel a).map (fun r => (.changed r.1 false, r.2))
  | .refresh a now => (m.refresh a now).map (fun r => (.changed r.1 false, r.2))
  | .reset a ms fromNow now =>
      (m.reset a ms fromNow now).map (fun r => (.changed r.1 r.2.1, r.2.2))
  | .getNextTimer now => some (.remaining (m.getNextTimer now).1, (m.getNextTimer now).2)
  | .hasTimer => some (.answer m.hasTimer, m)
  | .listExpiredCb now probe =>
      some (.callbacks (m.listExpiredCb now probe).1, (m.listExpiredCb now probe).2)

/-- The steps of a run of calls. -/
def Step (m : TimerManager Cb) (call : Call Cb) (m' : TimerManager Cb) : Prop :=
  ∃ r, m.exec call = some (r, m')

end TimerManager

end Agent
