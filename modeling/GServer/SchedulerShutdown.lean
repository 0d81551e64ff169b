import GServer.SchedulerWorkers
import GServer.TimerManager

/-!
# Leaving `run`

A worker leaves the loop of `Scheduler::run` at the test of the loop, after a turn
of its idle coroutine, or where it finds nothing to take and its idle coroutine has
terminated.  What `stopping` asks and when `idle` returns is up to the class: the
`idle` of `Scheduler` returns at once, that of `IOManager` when `stopping` tells it to.

The workers, coroutines and tasks are those of `Workers`; an evaluation of
`stopping` is one step, and timers, events, calls and tasks come in between.
-/

namespace Agent

open Runs

namespace Shutdown

/-- The class of the scheduler. -/
inductive Kind
  | scheduler
  | ioManager
deriving DecidableEq

/-- The workers, and what `stopping` of an `IOManager` asks besides.  `entered` says
that a worker has passed the test of the loop, `idles` that a coroutine is an idle
coroutine, `told` what `stopping` has told it in its present turn. -/
structure State (W C Cb : Type) where
  workers : Workers.State W C
  idleFlag : Bool
  manager : TimerManager Cb
  pendingEventCount : UInt64
  entered : W → Bool
  idles : C → Bool
  told : C → Option Bool

/-- The next step.  The clock is read where `stopping` may be evaluated. -/
inductive Act (W C Cb : Type)
  | loopTest (w : W) (now : UInt64)
  | pick (w : W) (fresh : C) (now : UInt64)
  | test (w : W) (now : UInt64)
  | idleTest (w : W) (now : UInt64)
  | yield (w : W) (wrote : Workers.CoState)
  | update (w : W) (now : UInt64)
  /-- A step that does not depend on the class. -/
  | plain (a : Workers.Act W C)
  | timers (call : TimerManager.Call Cb)
  | setPending (n : UInt64)

/-- The reading of the clock. -/
def Act.now {W C Cb : Type} : Act W C Cb → UInt64
  | .loopTest _ now => now
  | .pick _ _ now => now
  | .test _ now => now
  | .idleTest _ now => now
  | .update _ now => now
  | _ => 0

/-- The steps of `Workers` that are left as they are. -/
def isPlain {W C : Type} : Workers.Act W C → Bool
  | .create _ => true
  | .schedule _ => true
  | .stop => true
  | .start _ _ => true
  | .swapIn _ => true
  | .swapOut _ => true
  | _ => false

variable {W C Cb : Type}

/-- A new scheduler. -/
def start (idleFlag : Bool) (now : UInt64) : State W C Cb :=
  { workers := Workers.start, idleFlag := idleFlag, manager := TimerManager.new now
    pendingEventCount := 0, entered := fun _ => false, idles := fun _ => false
    told := fun _ => none }

/-- The result of `stopping`. -/
def State.stopping (kind : Kind) (s : State W C Cb) (now : UInt64) : Bool :=
  match kind with
  | .scheduler => s.workers.stopping && s.workers.queue.isEmpty
  | .ioManager =>
      (s.manager.getNextTimer now).1 == 0xffffffffffffffff && s.pendingEventCount == 0 &&
        (s.workers.stopping && s.workers.queue.isEmpty)

/-- What an evaluation of `stopping` changes. -/
def State.ask (kind : Kind) (s : State W C Cb) (now : UInt64) : State W C Cb :=
  match kind with
  | .scheduler => s
  | .ioManager => { s with manager := (s.manager.getNextTimer now).2 }

/-- The predicate of `m_con.wait`. -/
def State.mayPick (s : State W C Cb) : Bool :=
  (!s.workers.queue.isEmpty || s.idleFlag) || s.workers.stopping

/-- What `idle` writes at the end of a turn in which `stopping` has told it `told`. -/
def idleWrites (kind : Kind) (told : Option Bool) : Option Workers.CoState :=
  match kind, told with
  | .scheduler, _ => some .term
  | .ioManager, some true => some .term
  | .ioManager, some false => some .hold
  | .ioManager, none => none

section Steps

variable [DecidableEq W] [DecidableEq C]

/-- A step of the workers. -/
def State.via (s : State W C Cb) (a : Workers.Act W C) : Option (State W C Cb) :=
  (Workers.step s.workers a).map fun workers => { s with workers := workers }

/-- `run` makes its idle coroutine. -/
def State.noteIdle (s : State W C Cb) : Workers.Act W C → State W C Cb
  | .start _ c => { s with idles := Function.update s.idles c true }
  | _ => s

def step (kind : Kind) (s : State W C Cb) : Act W C Cb → Option (State W C Cb)
  | .loopTest w now =>
      if s.workers.phase w = .loop ∧ s.entered w = false then
        if s.stopping kind now then (s.ask kind now).via (.exit w)
        else some { s.ask kind now with entered := Function.update s.entered w true }
      else none
  | .pick w fresh _ =>
      if s.entered w = true ∧ s.mayPick = true then
        { s with entered := Function.update s.entered w false }.via (.pick w fresh)
      else none
  | .test w _ => s.via (.test w)
  | .idleTest w now =>
      match s.workers.phase w with
      | .on _ c .executing =>
          if kind = .ioManager ∧ s.idles c = true ∧ s.told c = none then
            some { s.ask kind now with
              told := Function.update s.told c (some (s.stopping kind now)) }
          else none
      | _ => none
  | .yield w wrote =>
      match s.workers.phase w with
      | .on _ c .executing =>
          if s.idles c = true then
            if idleWrites kind (s.told c) = some wrote then
              { s with told := Function.update s.told c none }.via (.yield w wrote)
            else none
          else s.via (.yield w wrote)
      | _ => none
  | .update w now =>
      match s.workers.phase w with
      | .on .idle _ .returned =>
          (s.ask kind now).via (.update w (s.stopping kind now))
      | _ => s.via (.update w false)
  | .plain a => if isPlain a then (s.noteIdle a).via a else none
  | .timers call => (s.manager.exec call).map fun r => { s with manager := r.2 }
  | .setPending n => some { s with pendingEventCount := n }

def Step (kind : Kind) (s : State W C Cb) (a : Act W C Cb) (s' : State W C Cb) : Prop :=
  step kind s a = some s'

/-- With the step the worker finds nothing to take, or a coroutine that has ended. -/
def State.comesToIdle (s : State W C Cb) : Act W C Cb → W → Prop
  | .pick w _ _, u =>
      w = u ∧ s.entered w = true ∧ s.mayPick = true ∧ s.workers.phase w = .loop ∧
        s.workers.pickIndex w = none
  | .test w _, u =>
      w = u ∧ ∃ c, s.workers.phase w = .on .task c .picked ∧
        Workers.CoState.ended (s.workers.cstate c) = true
  | _, _ => False

/-- A worker that leaves `run` with the step does so where `stopping` holds. -/
def LeavesStopping (kind : Kind) (s : State W C Cb) (a : Act W C Cb) : Prop :=
  ∀ s', Step kind s a s' → ∀ w, s.workers.phase w ≠ .finished →
    s'.workers.phase w = .finished → s.stopping kind a.now = true

/-- No worker whose idle coroutine has terminated comes to the idle branch while
`stopping` does not hold. -/
def NotStranded (kind : Kind) (s : State W C Cb) (a : Act W C Cb) : Prop :=
  ∀ w i, s.comesToIdle a w → s.workers.idle w = some i →
    s.workers.cstate i = some .term → s.stopping kind a.now = true

end Steps

/-! ## Where a worker leaves -/

section Leaving

variable [DecidableEq W] {s s' : Workers.State W C} {w : W}

/-- A worker is over when it goes there. -/
theorem finished_of_update {phase : W → Workers.Phase C} {u : W} {p : Workers.Phase C}
    (hw : phase w ≠ .finished) (hw' : Function.update phase u p w = .finished) :
    u = w ∧ p = .finished := by
  by_cases hu : w = u
  · subst hu
    rw [Function.update_self] at hw'
    exact ⟨rfl, hw'⟩
  · rw [Function.update_of_ne hu] at hw'
    exact absurd hw' hw

/-- A worker that moves to another phase does not finish. -/
theorem not_finished_of_update {phase : W → Workers.Phase C} {u : W} {p : Workers.Phase C}
    (hp : p ≠ .finished) (hw : phase w ≠ .finished) :
    Function.update phase u p w ≠ .finished :=
  fun hw' => hp (finished_of_update hw hw').2

/-- In the idle branch a worker is over when its idle coroutine is. -/
theorem finished_of_idleBranch {u : W} (h : s.idleBranch u = some s')
    (hw : s.phase w ≠ .finished) (hw' : s'.phase w = .finished) :
    u = w ∧ ∃ i, s.idle w = some i ∧ s.cstate i = some .term := by
  unfold Workers.State.idleBranch at h
  split at h
  · cases h
  · rename_i i hidle
    split at h
    · rename_i hterm
      cases h
      obtain ⟨rfl, -⟩ := finished_of_update hw hw'
      exact ⟨rfl, i, hidle, hterm⟩
    · cases h
      exact absurd hw' (not_finished_of_update nofun hw)

variable [DecidableEq C]

/-- After a switch it is when it stops in its idle coroutine. -/
theorem finished_of_postSwap {u : W} {kind : Workers.Kind} {c : C} {stop : Bool}
    (hw : s.phase w ≠ .finished) (hw' : (s.postSwap u kind c stop).phase w = .finished) :
    u = w ∧ kind = .idle ∧ stop = true := by
  have hloop : Function.update s.phase u .loop w ≠ .finished := not_finished_of_update nofun hw
  unfold Workers.State.postSwap at hw'
  cases kind with
  | task =>
      dsimp only at hw'
      split at hw'
      · exact absurd hw' hloop
      · split at hw'
        · exact absurd hw' hloop
        · exact absurd hw' hloop
  | cb =>
      dsimp only at hw'
      split at hw'
      · exact absurd hw' hloop
      · split at hw'
        · exact absurd hw' hloop
        · exact absurd hw' hloop
  | idle =>
      dsimp only at hw'
      split at hw'
      · rename_i hstop
        obtain ⟨rfl, -⟩ := finished_of_update hw hw'
        exact ⟨rfl, rfl, hstop⟩
      · split at hw'
        · exact absurd hw' hloop
        · exact absurd hw' hloop

/-- How a worker leaves: the three exits of the loop. -/
theorem finished_cases {a : Workers.Act W C} (h : Workers.step s a = some s')
    (hw : s.phase w ≠ .finished) (hw' : s'.phase w = .finished) :
    (a = .exit w ∧ s.stopping = true ∧ s.queue.isEmpty = true) ∨
    (∃ fresh, a = .pick w fresh ∧ s.phase w = .loop ∧ s.pickIndex w = none ∧
      ∃ i, s.idle w = some i ∧ s.cstate i = some .term) ∨
    (∃ c, a = .test w ∧ s.phase w = .on .task c .picked ∧
      Workers.CoState.ended (s.cstate c) = true ∧
      ∃ i, s.idle w = some i ∧ s.cstate i = some .term) ∨
    (∃ c, a = .update w true ∧ s.phase w = .on .idle c .returned) := by
  have hmoved : ∀ {u p}, p ≠ Workers.Phase.finished →
      Function.update s.phase u p w ≠ .finished := fun hp => not_finished_of_update hp hw
  cases Workers.turn_of_step h with
  | create | schedule | stop => exact absurd hw' hw
  | exit hloop hstop hempty =>
      obtain ⟨rfl, -⟩ := finished_of_update hw hw'
      exact Or.inl ⟨rfl, hstop, hempty⟩
  | pickNothing hloop hnone hidle =>
      obtain ⟨rfl, hterm⟩ := finished_of_idleBranch hidle hw hw'
      exact Or.inr (Or.inl ⟨_, rfl, hloop, hnone, hterm⟩)
  | testEnded hpc hended hidle =>
      obtain ⟨rfl, hterm⟩ := finished_of_idleBranch hidle hw hw'
      exact Or.inr (Or.inr (Or.inl ⟨_, rfl, hpc, hended, hterm⟩))
  | update hpc =>
      obtain ⟨rfl, rfl, rfl⟩ := finished_of_postSwap hw hw'
      exact Or.inr (Or.inr (Or.inr ⟨_, rfl, hpc⟩))
  | start | pickTask | pickCb | testLive | swapIn | yield | swapOut =>
      exact absurd hw' (hmoved nofun)

end Leaving

section Exits

@[simp] theorem workers_ask (kind : Kind) (s : State W C Cb) (now : UInt64) :
    (s.ask kind now).workers = s.workers := by
  cases kind <;> rfl

@[simp] theorem workers_noteIdle [DecidableEq C] (s : State W C Cb) (b : Workers.Act W C) :
    (s.noteIdle b).workers = s.workers := by
  cases b <;> rfl

variable [DecidableEq W] [DecidableEq C] {kind : Kind} {s s' : State W C Cb}
  {a : Act W C Cb} {w : W}

/-- A step of the workers is one without the timers. -/
theorem workers_of_via {b : Workers.Act W C} (h : s.via b = some s') :
    Workers.step s.workers b = some s'.workers := by
  obtain ⟨workers, hstep, rfl⟩ := Option.map_eq_some_iff.mp h
  exact hstep

/-- **The exits.**  A worker leaves where an evaluation of `stopping` is true, or in the
idle branch with a terminated idle coroutine. -/
theorem leaves_cases (h : Step kind s a s') (hw : s.workers.phase w ≠ .finished)
    (hw' : s'.workers.phase w = .finished) :
    s.stopping kind a.now = true ∨
    (s.comesToIdle a w ∧
      ∃ i, s.workers.idle w = some i ∧ s.workers.cstate i = some .term) := by
  unfold Step step at h
  cases a with
  | loopTest u now =>
      dsimp only at h
      split at h
      · split at h
        · rename_i hstopping
          exact Or.inl hstopping
        · cases h
          rw [workers_ask] at hw'
          exact absurd hw' hw
      · cases h
  | pick u fresh now =>
      dsimp only at h
      split at h
      · rename_i hentered
        rcases finished_cases (workers_of_via h) hw hw' with
          ⟨heq, -⟩ | ⟨_, heq, hloop, hnone, hidle⟩ | ⟨_, heq, -⟩ | ⟨_, heq, -⟩
        · cases heq
        · cases heq
          exact Or.inr ⟨⟨rfl, hentered.1, hentered.2, hloop, hnone⟩, hidle⟩
        · cases heq
        · cases heq
      · cases h
  | test u now =>
      rcases finished_cases (workers_of_via h) hw hw' with
        ⟨heq, -⟩ | ⟨_, heq, -⟩ | ⟨c, heq, hpc, hended, hidle⟩ | ⟨_, heq, -⟩
      · cases heq
      · cases heq
      · cases heq
        exact Or.inr ⟨⟨rfl, c, hpc, hended⟩, hidle⟩
      · cases heq
  | idleTest u now =>
      dsimp only at h
      split at h
      · split at h
        · cases h
          rw [workers_ask] at hw'
          exact absurd hw' hw
        · cases h
      · cases h
  | yield u wrote =>
      have hyield : ∃ r : State W C Cb, r.workers = s.workers ∧
          r.via (.yield u wrote) = some s' := by
        dsimp only at h
        split at h
        · rename_i c hpc
          split at h
          · split at h
            · exact ⟨{ s with told := Function.update s.told c none }, rfl, h⟩
            · cases h
          · exact ⟨s, rfl, h⟩
        · cases h
      obtain ⟨r, hr, hvia⟩ := hyield
      rcases finished_cases (hr ▸ workers_of_via hvia) hw hw' with
        ⟨heq, -⟩ | ⟨_, heq, -⟩ | ⟨_, heq, -⟩ | ⟨_, heq, -⟩ <;> cases heq
  | update u now =>
      dsimp only at h
      split at h
      · have hstep := workers_of_via h
        rw [workers_ask] at hstep
        rcases finished_cases hstep hw hw' with
          ⟨heq, -⟩ | ⟨_, heq, -⟩ | ⟨_, heq, -⟩ | ⟨_, heq, -⟩
        · cases heq
        · cases heq
        · cases heq
        · injection heq with _ hstopping
          exact Or.inl hstopping
      · rcases finished_cases (workers_of_via h) hw hw' with
          ⟨heq, -⟩ | ⟨_, heq, -⟩ | ⟨_, heq, -⟩ | ⟨_, heq, -⟩ <;> cases heq
  | plain b =>
      dsimp only at h
      split at h
      · rename_i hplain
        have hstep := workers_of_via h
        rw [workers_noteIdle] at hstep
        rcases finished_cases hstep hw hw' with
          ⟨heq, -⟩ | ⟨_, heq, -⟩ | ⟨_, heq, -⟩ | ⟨_, heq, -⟩ <;> subst heq <;> cases hplain
      · cases h
  | timers call =>
      obtain ⟨r, -, rfl⟩ := Option.map_eq_some_iff.mp h
      exact absurd hw' hw
  | setPending n =>
      cases h
      exact absurd hw' hw

/-- In the idle branch a worker with a terminated idle coroutine leaves. -/
theorem leaves_of_stranded {i : C} (hidle : s.comesToIdle a w)
    (hi : s.workers.idle w = some i) (hterm : s.workers.cstate i = some .term) :
    s.workers.phase w ≠ .finished ∧
      ∃ s', Step kind s a s' ∧ s'.workers.phase w = .finished := by
  have hbranch : s.workers.idleBranch w = some (s.workers.set w .finished s.workers.cstate) := by
    simp only [Workers.State.idleBranch, hi, hterm, if_true]
  have hself : (s.workers.set w .finished s.workers.cstate).phase w = .finished :=
    Function.update_self ..
  cases a with
  | pick u fresh now =>
      obtain ⟨rfl, hentered, hmay, hloop, hnone⟩ := hidle
      refine ⟨by simp [hloop], { s with
          workers := s.workers.set u .finished s.workers.cstate
          entered := Function.update s.entered u false }, ?_, hself⟩
      simp only [Step, step, hentered, hmay, and_self, if_true, State.via, Workers.step, hloop,
        hnone, hbranch, Option.map_some]
  | test u now =>
      obtain ⟨rfl, c, hpc, hended⟩ := hidle
      refine ⟨by simp [hpc], { s with workers := s.workers.set u .finished s.workers.cstate },
        ?_, hself⟩
      simp only [Step, step, State.via, Workers.step, hpc, hended, if_true, hbranch,
        Option.map_some]
  | _ => exact hidle.elim

/-- A step leaves a scheduler that stops exactly when its worker is not stranded. -/
theorem leavesStopping_iff : LeavesStopping kind s a ↔ NotStranded kind s a := by
  constructor
  · intro hleaves w i hidle hi hterm
    obtain ⟨hw, s', hstep, hw'⟩ := leaves_of_stranded hidle hi hterm
    exact hleaves s' hstep w hw hw'
  · intro hnot s' hstep w hw hw'
    rcases leaves_cases hstep hw hw' with hstopping | ⟨hidle, i, hi, hterm⟩
    · exact hstopping
    · exact hnot w i hidle hi hterm

/-- **Workers leave when `stopping` holds.**  For a `Scheduler` and for an `IOManager`,
any number of workers and every sequence of their steps, with tasks, timers and events
coming in between: each worker that leaves `run` does so in a state in which `stopping`
holds exactly when none comes to the idle branch with a terminated idle coroutine in
another state. -/
theorem leaves_stopping_iff_not_stranded (kind : Kind) (idleFlag : Bool) (now : UInt64)
    (acts : List (Act W C Cb)) :
    Along (Step kind) (LeavesStopping kind) (start idleFlag now) acts ↔
      Along (Step kind) (NotStranded kind) (start idleFlag now) acts := by
  refine along_iff_of_invariant (I := fun _ => True) (V := fun _ => True) ?_ ?_ acts _ trivial
    fun _ _ => trivial
  · intro s a _ _
    exact leavesStopping_iff
  · intro _ _ _ _ _ _ _
    trivial

end Exits

/-- The idle coroutine of the only worker ends at its first turn; in the next turn of
the loop the worker leaves. -/
def idleTwice : List (Act Unit Nat Unit) :=
  [.plain (.start () 0), .loopTest () 0, .pick () 1 0, .plain (.swapIn ()), .yield () .term,
    .plain (.swapOut ()), .update () 0, .loopTest () 0]

/-- A worker of a `Scheduler` that nobody has stopped leaves. -/
theorem idle_worker_leaves :
    ¬ ∀ (kind : Kind) (idleFlag : Bool) (now : UInt64) (acts : List (Act Unit Nat Unit)),
      Along (Step kind) (LeavesStopping kind) (start idleFlag now) acts := by
  intro hall
  have hrun : (idleTwice.foldlM (step .scheduler) (start true 0)).map (fun s =>
      (s.workers.phase (), (step .scheduler s (.pick () 1 0)).map fun s' => s'.workers.phase (),
        s.stopping .scheduler 0)) = some (.loop, some .finished, false) := by decide
  obtain ⟨s, hs, hview⟩ := Option.map_eq_some_iff.mp hrun
  simp only [Prod.mk.injEq] at hview
  obtain ⟨hloop, hnext, hrunning⟩ := hview
  obtain ⟨s', hstep, hfinished⟩ := Option.map_eq_some_iff.mp hnext
  have hleaves := (hall .scheduler true 0 (idleTwice ++ [.pick () 1 0])).last
    (fun _ _ _ h => h) idleTwice hs
  have hstopping := hleaves s' hstep () (by simp [hloop]) hfinished
  rw [Act.now, hrunning] at hstopping
  cases hstopping

end Shutdown

end Agent
