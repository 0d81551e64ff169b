import GServer.TimerManager
import Mathlib

/-!
# Waking a worker for an earlier timer

A worker that is idle asks `getNextTimer` how long it may sleep and blocks in
`epoll_wait`.  A thread that puts a timer at the front of the set calls
`tickle`, which writes to the eventfd that `epoll_wait` watches; the flag
`m_tickled` keeps further insertions from calling it until the next
`getNextTimer`.  The insertion is made under the manager's lock, the call of
`tickle` after it.

The eventfd is its counter: a write adds its value, and `epoll_wait` reports the
descriptor exactly when the counter is not zero.  The value that `tickle` writes
is zero.
-/

namespace Agent

open Runs

namespace Wakeup

/-- Where a thread is.  `tickling since` is after the insertion and before the
call of `tickle`; `since` counts the calls of `getNextTimer` at an insertion that
came before the deadline of the last of them. -/
inductive Pc
  | outside
  | tickling (since : Option Nat)
  | computed (timeout : UInt64)
  | waiting (ms : Int)
  | awake (reported : Bool)
  | draining
deriving DecidableEq

/-- The thread is blocked in `epoll_wait`. -/
def Pc.sleeps : Pc → Bool
  | .waiting _ => true
  | _ => false

/-- The timers, the counter of the eventfd and the threads.  `calls`, `last` and
`deadline` record the calls of `getNextTimer`: how many, the thread of the last
one, and the front deadline it saw.  `overtaken` says that an insertion before
that deadline has completed since. -/
structure State (T Cb : Type) where
  manager : TimerManager Cb
  counter : Nat
  pc : T → Pc
  calls : Nat
  last : Option T
  deadline : Option UInt64
  overtaken : Bool

/-- What a thread does next. -/
inductive Act (T Cb : Type)
  | addTimer (t : T) (a : Addr) (ms : UInt64) (cb : Option Cb) (recuring : Bool) (now : UInt64)
  | reset (t : T) (a : Addr) (ms : UInt64) (fromNow : Bool) (now : UInt64)
  | tickle (t : T)
  | cancel (t : T) (a : Addr)
  | refresh (t : T) (a : Addr) (now : UInt64)
  | stopping (t : T) (now : UInt64)
  | idle (t : T) (now : UInt64)
  | epollWait (t : T)
  | wake (t : T) (reported : Bool)
  | listExpiredCb (t : T) (now : UInt64) (probe : Addr)
  | drain (t : T)

variable {T Cb : Type}

/-- A new manager; no thread has asked for a timeout. -/
def start (now : UInt64) : State T Cb :=
  { manager := TimerManager.new now, counter := 0, pc := fun _ => .outside
    calls := 0, last := none, deadline := none, overtaken := false }

/-- The value that `IOManager::tickle` writes. -/
def tickleVal : Nat := 0

/-- A write to the eventfd. -/
def eventfdWrite (counter val : Nat) : Nat :=
  counter + val

/-- The last argument of `epoll_wait` in `IOManager::idle`. -/
@[irreducible] def waitMs (timeout : UInt64) : Int :=
  if timeout ≠ 0xffffffffffffffff ∧ 0 < timeout then
    let ms := Int.bmod timeout.toNat (2 ^ 32)
    if 3000 < ms then 3000 else ms
  else 3000

/-- The timer at `a` is at the front, before the deadline of the last
`getNextTimer`. -/
def State.isAhead (s : State T Cb) (m : TimerManager Cb) (a : Addr) : Bool :=
  m.timers.head? == some a &&
    match s.deadline with
    | none => true
    | some d => decide (m.nextOf a < d)

/-- `Timer::reset` goes past its first test, which returns for the same period. -/
def changesPeriod (m : TimerManager Cb) (a : Addr) (ms : UInt64) (fromNow : Bool) : Bool :=
  match m.heap a with
  | none => false
  | some t => !(ms == t.ms && !fromNow)

section Steps

variable [DecidableEq T]

def State.move (s : State T Cb) (t : T) (pc : Pc) : State T Cb :=
  { s with pc := Function.update s.pc t pc }

/-- The end of the locked part of `addTimer` and `reset`: with `atFront` the call of
`tickle` is still to come, otherwise the operation has completed. -/
def State.insert (s : State T Cb) (t : T) (ahead atFront : Bool) (m : TimerManager Cb) :
    State T Cb :=
  if atFront then
    { s with manager := m }.move t (.tickling (if ahead then some s.calls else none))
  else { s with manager := m, overtaken := s.overtaken || ahead }

/-- A call of `getNextTimer`; the timeout is the thread's next sleep if it is
`idle` that calls. -/
def State.ask (s : State T Cb) (t : T) (now : UInt64) : UInt64 × State T Cb :=
  let r := s.manager.getNextTimer now
  (r.1, { s with
    manager := r.2, calls := s.calls + 1, last := some t
    deadline := s.manager.timers.head?.map s.manager.nextOf, overtaken := false })

/-- One step of a thread. -/
def step (s : State T Cb) : Act T Cb → Option (State T Cb)
  | .addTimer t a ms cb recuring now =>
      if s.pc t = .outside then
        match s.manager.addTimer a ms cb recuring now with
        | none => none
        | some (atFront, m) => some (s.insert t (s.isAhead m a) atFront m)
      else none
  | .reset t a ms fromNow now =>
      if s.pc t = .outside then
        match s.manager.reset a ms fromNow now with
        | none => none
        | some (ok, atFront, m) =>
            some (s.insert t (ok && changesPeriod s.manager a ms fromNow && s.isAhead m a)
              atFront m)
      else none
  | .tickle t =>
      match s.pc t with
      | .tickling since =>
          some ({ s with
            counter := eventfdWrite s.counter tickleVal
            overtaken := s.overtaken || since == some s.calls }.move t .outside)
      | _ => none
  | .cancel t a =>
      if s.pc t = .outside then (s.manager.cancel a).map fun r => { s with manager := r.2 }
      else none
  | .refresh t a now =>
      if s.pc t = .outside then (s.manager.refresh a now).map fun r => { s with manager := r.2 }
      else none
  | .stopping t now => if s.pc t = .outside then some (s.ask t now).2 else none
  | .idle t now =>
      if s.pc t = .outside then some ((s.ask t now).2.move t (.computed (s.ask t now).1))
      else none
  | .epollWait t =>
      match s.pc t with
      | .computed timeout => some (s.move t (.waiting (waitMs timeout)))
      | _ => none
  | .wake t reported =>
      match s.pc t with
      | .waiting _ =>
          if reported = true → s.counter ≠ 0 then some (s.move t (.awake reported)) else none
      | _ => none
  | .listExpiredCb t now probe =>
      match s.pc t with
      | .awake reported =>
          some ({ s with manager := (s.manager.listExpiredCb now probe).2 }.move t
            (if reported then .draining else .outside))
      | _ => none
  | .drain t =>
      -- a read of the eventfd that finds zero returns -1, and the loop goes on
      if s.pc t = .draining then some { s with counter := 0 } else none

def Step (s : State T Cb) (a : Act T Cb) (s' : State T Cb) : Prop :=
  step s a = some s'

end Steps

/-- Where a worker sleeps on the timeout of the last `getNextTimer` and an insertion
before its deadline has completed since, the eventfd is readable. -/
def WakesUp (s : State T Cb) : Prop :=
  ∀ t ms, s.pc t = .waiting ms → s.last = some t → s.overtaken = true → s.counter ≠ 0

/-- No sleeping worker of the last `getNextTimer` has been overtaken. -/
def Unovertaken (s : State T Cb) : Prop :=
  ∀ t ms, s.pc t = .waiting ms → s.last = some t → s.overtaken = false

/-- With nothing in the counter a waiter is woken exactly when it has not been overtaken. -/
theorem wakesUp_iff {s : State T Cb} (h : s.counter = 0) : WakesUp s ↔ Unovertaken s := by
  constructor
  · intro hwakes t ms hpc hlast
    cases hover : s.overtaken with
    | false => rfl
    | true => exact absurd h (hwakes t ms hpc hlast hover)
  · intro hquiet t ms hpc hlast hover
    have hnot := hquiet t ms hpc hlast
    rw [hover] at hnot
    cases hnot

/-- The step completes an `addTimer` or `reset` that has put its timer at the front,
before the deadline of the last `getNextTimer`. -/
def completesAhead (s : State T Cb) : Act T Cb → Bool
  | .addTimer t a ms cb recuring now =>
      s.pc t == .outside &&
        match s.manager.addTimer a ms cb recuring now with
        | some (false, m) => s.isAhead m a
        | _ => false
  | .reset t a ms fromNow now =>
      s.pc t == .outside &&
        match s.manager.reset a ms fromNow now with
        | some (ok, false, m) =>
            ok && changesPeriod s.manager a ms fromNow && s.isAhead m a
        | _ => false
  | .tickle t =>
      match s.pc t with
      | .tickling since => since == some s.calls
      | _ => false
  | _ => false

/-- The step is a call of `getNextTimer`. -/
def Act.asks : Act T Cb → Bool
  | .stopping _ _ | .idle _ _ => true
  | _ => false

/-- What a step changes of the counter, of the record of `getNextTimer` and of the
sleeping threads. -/
structure Effect (s : State T Cb) (a : Act T Cb) (s' : State T Cb) : Prop where
  counter : s.counter = 0 → s'.counter = 0
  asked : a.asks = true → s'.overtaken = false
  last : a.asks = false → s'.last = s.last
  overtaken : a.asks = false → s'.overtaken = (s.overtaken || completesAhead s a)
  sleeps : ∀ u ms, s'.pc u = .waiting ms →
    s.pc u = .waiting ms ∨ a = .epollWait u ∧ ∃ timeout, s.pc u = .computed timeout
  sleeping : ∀ u ms, s.pc u = .waiting ms → (∀ reported, a ≠ .wake u reported) →
    s'.pc u = .waiting ms

/-- A step that leaves the threads and the record alone. -/
theorem frame_effect {s : State T Cb} {a : Act T Cb} {m : TimerManager Cb}
    (hasks : a.asks = false) (hahead : completesAhead s a = false) :
    Effect s a { s with manager := m } := by
  refine ⟨fun h => h, ?_, fun _ => rfl, fun _ => ?_, fun u ms h => Or.inl h, fun u ms h _ => h⟩
  · simp [hasks]
  · simp [hahead]

/-- Who completes an insertion does not ask for a deadline. -/
theorem not_asks_of_completesAhead {s : State T Cb} {a : Act T Cb}
    (h : completesAhead s a = true) : a.asks = false := by
  cases a with
  | stopping t now => simp [completesAhead] at h
  | idle t now => simp [completesAhead] at h
  | _ => rfl

/-- The eventfd stays unreadable, and no sleeping worker has been overtaken. -/
structure Inv (s : State T Cb) : Prop where
  counter : s.counter = 0
  unovertaken : Unovertaken s

section Wakes

variable [DecidableEq T]

/-- The step leaves a state in which sleeping workers are woken. -/
def Wakes (s : State T Cb) (a : Act T Cb) : Prop :=
  ∀ s', Step s a s' → WakesUp s'

/-- No earlier timer comes in while the worker of the last `getNextTimer` sleeps, and
that worker does not go to sleep after one has come in. -/
def Timely (s : State T Cb) (a : Act T Cb) : Prop :=
  (completesAhead s a = true → ∀ t ms, s.pc t = .waiting ms → s.last ≠ some t) ∧
  (∀ t timeout, a = .epollWait t → s.pc t = .computed timeout → s.last = some t →
    s.overtaken = false)

/-! ## What a step does -/

@[simp] theorem move_counter (s : State T Cb) (t : T) (pc : Pc) :
    (s.move t pc).counter = s.counter := rfl

@[simp] theorem move_last (s : State T Cb) (t : T) (pc : Pc) :
    (s.move t pc).last = s.last := rfl

@[simp] theorem move_overtaken (s : State T Cb) (t : T) (pc : Pc) :
    (s.move t pc).overtaken = s.overtaken := rfl

@[simp] theorem move_pc_self (s : State T Cb) (t : T) (pc : Pc) :
    (s.move t pc).pc t = pc := by
  simp [State.move]

/-- The others stay where they are. -/
theorem move_pc_of_ne {s : State T Cb} {t u : T} {pc : Pc} (h : u ≠ t) :
    (s.move t pc).pc u = s.pc u := by
  simp [State.move, Function.update_of_ne h]

omit [DecidableEq T] in
/-- A thread that is awake does not wait. -/
theorem not_waiting {s : State T Cb} {t : T} {pc : Pc} (hpc : s.pc t = pc)
    (hawake : pc.sleeps = false) : ∀ ms, s.pc t ≠ .waiting ms := by
  intro ms hwaiting
  obtain rfl := hpc.symm.trans hwaiting
  cases hawake

/-- A thread that neither falls asleep nor was asleep moves. -/
theorem moved_sleeps {s : State T Cb} {t u : T} {pc : Pc} {ms : Int}
    (hpc : ∀ ms, pc ≠ .waiting ms) (h : (s.move t pc).pc u = .waiting ms) :
    s.pc u = .waiting ms := by
  by_cases hu : u = t
  · subst hu
    rw [move_pc_self] at h
    exact absurd h (hpc ms)
  · rwa [move_pc_of_ne hu] at h

/-- A step of one thread leaves the sleepers asleep. -/
theorem moved_sleeping {s : State T Cb} {t u : T} {pc : Pc} {ms : Int}
    (ht : ∀ ms, s.pc t ≠ .waiting ms) (h : s.pc u = .waiting ms) :
    (s.move t pc).pc u = .waiting ms := by
  have hu : u ≠ t := fun heq => ht ms (heq ▸ h)
  rw [move_pc_of_ne hu, h]

/-- The locked part of an insertion; the operation completes here unless `tickle` is
to be called. -/
theorem insert_effect {s : State T Cb} {a : Act T Cb} {t : T} {ahead atFront : Bool}
    {m : TimerManager Cb} (hasks : a.asks = false) (hpc : s.pc t = .outside)
    (hahead : completesAhead s a = (!atFront && ahead)) :
    Effect s a (s.insert t ahead atFront m) := by
  have hnot := not_waiting hpc rfl
  cases atFront with
  | true =>
      refine ⟨fun h => h, ?_, fun _ => rfl, fun _ => ?_, fun u ms h => ?_, fun u ms h _ => ?_⟩
      · simp [hasks]
      · simp [State.insert, hahead]
      · refine Or.inl (moved_sleeps (s := { s with manager := m }) ?_ h)
        exact fun ms => Pc.noConfusion
      · exact moved_sleeping (s := { s with manager := m }) hnot h
  | false =>
      refine ⟨fun h => h, ?_, fun _ => rfl, fun _ => ?_, fun u ms h => ?_, fun u ms h _ => h⟩
      · simp [hasks]
      · simp [State.insert, hahead]
      · exact Or.inl h

/-- What a step does to the set and the waiters. -/
theorem step_effect {s s' : State T Cb} {a : Act T Cb} (hstep : Step s a s') :
    Effect s a s' := by
  unfold Step at hstep
  cases a with
  | addTimer t a ms cb recuring now =>
      by_cases hpc : s.pc t = .outside
      · cases hadd : s.manager.addTimer a ms cb recuring now with
        | none => simp [step, hpc, hadd] at hstep
        | some r =>
            obtain rfl : s.insert t (s.isAhead r.2 a) r.1 r.2 = s' := by
              simpa [step, hpc, hadd] using hstep
            obtain ⟨atFront, m⟩ := r
            refine insert_effect rfl hpc ?_
            cases atFront <;> simp [completesAhead, hpc, hadd]
      · simp [step, hpc] at hstep
  | reset t a ms fromNow now =>
      by_cases hpc : s.pc t = .outside
      · cases hreset : s.manager.reset a ms fromNow now with
        | none => simp [step, hpc, hreset] at hstep
        | some r =>
            obtain ⟨ok, atFront, m⟩ := r
            obtain rfl : s.insert t
                (ok && changesPeriod s.manager a ms fromNow && s.isAhead m a) atFront m = s' := by
              simpa [step, hpc, hreset] using hstep
            refine insert_effect rfl hpc ?_
            cases atFront <;> simp [completesAhead, hpc, hreset]
      · simp [step, hpc] at hstep
  | tickle t =>
      cases hpc : s.pc t with
      | tickling since =>
          simp only [step, hpc, Option.some.injEq] at hstep
          subst hstep
          have hnot := not_waiting hpc rfl
          refine ⟨fun h => ?_, ?_, fun _ => rfl, fun _ => ?_, fun u ms h => ?_,
            fun u ms h _ => ?_⟩
          · simpa [eventfdWrite, tickleVal] using h
          · simp [Act.asks]
          · simp [completesAhead, hpc]
          · exact Or.inl (moved_sleeps (fun ms => Pc.noConfusion) h)
          · exact moved_sleeping hnot h
      | _ => simp [step, hpc] at hstep
  | cancel t a =>
      by_cases hpc : s.pc t = .outside
      · obtain ⟨r, -, rfl⟩ := Option.map_eq_some_iff.mp ((if_pos hpc).symm.trans hstep)
        exact frame_effect rfl rfl
      · simp [step, hpc] at hstep
  | refresh t a now =>
      by_cases hpc : s.pc t = .outside
      · obtain ⟨r, -, rfl⟩ := Option.map_eq_some_iff.mp ((if_pos hpc).symm.trans hstep)
        exact frame_effect rfl rfl
      · simp [step, hpc] at hstep
  | stopping t now =>
      by_cases hpc : s.pc t = .outside
      · obtain rfl : (s.ask t now).2 = s' := by simpa [step, hpc] using hstep
        exact ⟨fun h => h, fun _ => rfl, nofun, nofun, fun u ms h => Or.inl h,
          fun u ms h _ => h⟩
      · simp [step, hpc] at hstep
  | idle t now =>
      by_cases hpc : s.pc t = .outside
      · obtain rfl : (s.ask t now).2.move t (.computed (s.ask t now).1) = s' := by
          simpa [step, hpc] using hstep
        have hnot := not_waiting (s := (s.ask t now).2) hpc rfl
        refine ⟨fun h => h, fun _ => rfl, nofun, nofun, fun u ms h => Or.inl ?_,
          fun u ms h _ => ?_⟩
        · exact moved_sleeps (s := (s.ask t now).2) (fun ms => Pc.noConfusion) h
        · exact moved_sleeping hnot h
      · simp [step, hpc] at hstep
  | epollWait t =>
      cases hpc : s.pc t with
      | computed timeout =>
          obtain rfl : s.move t (.waiting (waitMs timeout)) = s' := by
            simpa [step, hpc] using hstep
          have hnot := not_waiting hpc rfl
          refine ⟨fun h => h, nofun, fun _ => rfl, fun _ => by simp [completesAhead],
            fun u ms h => ?_, fun u ms h _ => moved_sleeping hnot h⟩
          by_cases hu : u = t
          · subst hu
            exact Or.inr ⟨rfl, timeout, hpc⟩
          · rw [move_pc_of_ne hu] at h
            exact Or.inl h
      | _ => simp [step, hpc] at hstep
  | wake t reported =>
      cases hpc : s.pc t with
      | waiting ms₀ =>
          by_cases hready : reported = true → s.counter ≠ 0
          · simp only [step, hpc, if_pos hready, Option.some.injEq] at hstep
            subst hstep
            refine ⟨fun h => h, nofun, fun _ => rfl, fun _ => by simp [completesAhead],
              fun u ms h => Or.inl (moved_sleeps (fun ms => Pc.noConfusion) h),
              fun u ms h hwake => ?_⟩
            have hu : u ≠ t := fun heq => hwake reported (by rw [heq])
            rw [move_pc_of_ne hu, h]
          · simp only [step, hpc, if_neg hready] at hstep
            cases hstep
      | _ => simp [step, hpc] at hstep
  | listExpiredCb t now probe =>
      cases hpc : s.pc t with
      | awake reported =>
          simp only [step, hpc, Option.some.injEq] at hstep
          subst hstep
          have hnot := not_waiting hpc rfl
          refine ⟨fun h => h, nofun, fun _ => rfl, fun _ => by simp [completesAhead],
            fun u ms h => Or.inl ?_, fun u ms h _ => moved_sleeping hnot h⟩
          refine moved_sleeps (s := { s with manager := (s.manager.listExpiredCb now probe).2 })
            (fun ms => ?_) h
          split <;> exact Pc.noConfusion
      | _ => simp [step, hpc] at hstep
  | drain t =>
      by_cases hpc : s.pc t = .draining
      · obtain rfl : { s with counter := 0 } = s' := by simpa [step, hpc] using hstep
        exact ⟨fun _ => rfl, nofun, fun _ => rfl, fun _ => by simp [completesAhead],
          fun u ms h => Or.inl h, fun u ms h _ => h⟩
      · simp [step, hpc] at hstep

/-! ## When a sleeping worker is woken -/

/-- A step that completes an insertion can be taken. -/
theorem step_of_completesAhead {s : State T Cb} {a : Act T Cb}
    (h : completesAhead s a = true) : ∃ s', Step s a s' := by
  cases a with
  | addTimer t a ms cb recuring now =>
      simp only [completesAhead, Bool.and_eq_true, beq_iff_eq] at h
      obtain ⟨hpc, hadd⟩ := h
      cases hrun : s.manager.addTimer a ms cb recuring now with
      | none => simp [hrun] at hadd
      | some r => exact ⟨_, by simp only [Step, step, hpc, hrun, if_true]; rfl⟩
  | reset t a ms fromNow now =>
      simp only [completesAhead, Bool.and_eq_true, beq_iff_eq] at h
      obtain ⟨hpc, hreset⟩ := h
      cases hrun : s.manager.reset a ms fromNow now with
      | none => simp [hrun] at hreset
      | some r => exact ⟨_, by simp only [Step, step, hpc, hrun, if_true]; rfl⟩
  | tickle t =>
      cases hpc : s.pc t with
      | tickling since => exact ⟨_, by simp only [Step, step, hpc]; rfl⟩
      | _ => simp [completesAhead, hpc] at h
  | _ => simp [completesAhead] at h

/-- In order, a step wakes the waiters exactly when it is timely. -/
theorem wakes_iff_timely {s : State T Cb} (h : Inv s) (a : Act T Cb) :
    Wakes s a ↔ Timely s a := by
  constructor
  · intro hwakes
    constructor
    · intro hahead t ms hpc hlast
      obtain ⟨s', hstep⟩ := step_of_completesAhead hahead
      have heffect := step_effect hstep
      have hasks := not_asks_of_completesAhead hahead
      have hsleep : s'.pc t = .waiting ms := by
        refine heffect.sleeping t ms hpc (fun reported heq => ?_)
        subst heq
        simp [completesAhead] at hahead
      have hover : s'.overtaken = true := by
        rw [heffect.overtaken hasks, hahead, Bool.or_true]
      have hlast' : s'.last = some t := (heffect.last hasks).trans hlast
      exact hwakes s' hstep t ms hsleep hlast' hover (heffect.counter h.counter)
    · intro t timeout heq hpc hlast
      subst heq
      have hstep : Step s (.epollWait t) (s.move t (.waiting (waitMs timeout))) := by
        simp [Step, step, hpc]
      have hquiet := (wakesUp_iff (s := s.move t (.waiting (waitMs timeout))) h.counter).mp
        (hwakes _ hstep)
      exact hquiet t _ (move_pc_self s t _) hlast
  · intro htimely s' hstep
    have heffect := step_effect hstep
    rw [wakesUp_iff (heffect.counter h.counter)]
    intro t ms hpc hlast
    cases hasks : a.asks with
    | true => exact heffect.asked hasks
    | false =>
        rw [heffect.last hasks] at hlast
        rw [heffect.overtaken hasks, Bool.or_eq_false_iff]
        rcases heffect.sleeps t ms hpc with hold | ⟨rfl, timeout, hcomputed⟩
        · refine ⟨h.unovertaken t ms hold hlast, ?_⟩
          cases hahead : completesAhead s a with
          | false => rfl
          | true => exact absurd hlast (htimely.1 hahead t ms hold)
        · exact ⟨htimely.2 t timeout rfl hcomputed hlast, by simp [completesAhead]⟩

/-- **Wake-ups.**  For any threads and every run, a worker that sleeps on the
timeout of the last `getNextTimer` always finds the eventfd readable after an
earlier timer has come in exactly when none comes in while it sleeps and it does
not go to sleep after one has come in: what `tickle` writes never makes the eventfd
readable. -/
theorem wakes_iff_timely_along (now : UInt64) (acts : List (Act T Cb)) :
    Along Step Wakes (start now) acts ↔ Along Step Timely (start now) acts := by
  refine along_iff_of_invariant (I := Inv) (V := fun _ => True) ?_ ?_ acts (start now) ?_
    (fun _ _ => trivial)
  · intro s a h _
    exact wakes_iff_timely h a
  · intro s a s' h _ htimely hstep
    have hcounter := (step_effect hstep).counter h.counter
    exact ⟨hcounter, (wakesUp_iff hcounter).mp ((wakes_iff_timely h a).mpr htimely s' hstep)⟩
  · refine ⟨rfl, fun t ms hpc => ?_⟩
    cases hpc

end Wakes

/-- Worker `true` sleeps with no timer in the set; `false` adds one and calls `tickle`. -/
theorem earlier_timer_wakes_nobody :
    ¬ ∀ s : State Bool Nat, Reachable (· = start 0) Step s → WakesUp s := by
  intro hwakes
  let acts : List (Act Bool Nat) :=
    [.idle true 5, .epollWait true, .addTimer false 1 10 (some 7) false 5, .tickle false]
  obtain ⟨s, hreach, hview⟩ : ∃ s : State Bool Nat, Reachable (· = start 0) Step s ∧
      ((s.pc true).sleeps && s.last == some true && s.overtaken && s.counter == 0) = true :=
    exists_view rfl (fun _ _ _ h => ⟨trivial, h⟩) acts (by decide)
  simp only [Bool.and_eq_true, beq_iff_eq] at hview
  obtain ⟨⟨⟨hsleeps, hlast⟩, hover⟩, hcounter⟩ := hview
  cases hpc : s.pc true with
  | waiting ms => exact hwakes s hreach true ms hpc hlast hover hcounter
  | _ => simp [hpc, Pc.sleeps] at hsleeps

end Wakeup

end Agent
