import GServer.Library.Runs
import GServer.Library.Locks

/-!
# The locks around the task queue

`Scheduler::schedule` and `Scheduler::stopping` access `m_coroutines` under
`m_mutex`; the pick loop of `Scheduler::run` accesses it under `m_uni_mutex`,
the mutex of the condition variable.  Every acquisition and release is a step
of its own, and so is each access to the list in between.

Each mutex excludes the threads that use it from one another
(`Locks.Owned`), but nothing excludes a worker in its pick section from the
other sections.  The sections are therefore exclusive exactly when a thread
that may call `run` is the only thread that calls anything
(`mutualExclusion_iff_runsAlone`).
-/

namespace Agent

open Runs Locks

namespace SchedulerLocks

/-- The two mutexes of `Scheduler`. -/
inductive Lock
  | mutex
  | uniMutex
deriving DecidableEq

/-- A `CoroutineAndThread`, as far as the pick loop looks at it: whether each of
its two handlers is set and the thread it is meant for (`none` is `-1`). -/
structure Task (T : Type) where
  coroutine : Bool
  cb : Bool
  threadId : Option T

/-- The entry points that lead to the task queue. -/
inductive Path
  | schedule
  | scheduleRange
  | stopping
  | run

/-- A section under `m_mutex`: the tasks `schedule` still has to push, or the
test of `stopping`. -/
inductive MutexCall (T : Type)
  | push (rest : List (Task T))
  | test

/-- Where a thread goes on after a section under `m_mutex`. -/
inductive Back
  | caller
  | task
  | loopHead
  | afterIdle

/-- The program counter of a thread. -/
inductive Pc (T : Type)
  /-- Between calls, not in `run`. -/
  | outside
  /-- In `run`, before the test of the loop. -/
  | loop
  /-- In `run`, after the pick: executing a task, the idle coroutine, or the
  code around them. -/
  | task
  | lockMutex (call : MutexCall T) (back : Back)
  | inMutex (call : MutexCall T) (back : Back)
  | lockUni
  /-- Blocked in `m_con.wait`, which has released `m_uni_mutex`. -/
  | waiting
  /-- Evaluating the predicate of `m_con.wait`. -/
  | checking
  /-- In the scan, with the iterator at `i`. -/
  | scanning (i : Nat)
  /-- After `erase` and `break`. -/
  | taken

/-- The scheduler and its threads. -/
structure State (T : Type) where
  queue : List (Task T)
  idleFlag : Bool
  stopping : Bool
  owner : Lock → Option T
  pc : T → Pc T

variable {T : Type}

/-- The pc after a section under `m_mutex`; `stop` is the result of
`stopping()` for the sections that compute it. -/
def Back.next (stop : Bool) : Back → Pc T
  | caller => .outside
  | task => .task
  | loopHead => if stop then .outside else .lockUni
  | afterIdle => if stop then .outside else .loop

/-- The thread is between an acquisition of the lock and its release. -/
def Pc.holds : Pc T → Lock → Prop
  | inMutex _ _, .mutex => True
  | checking, .uniMutex => True
  | scanning _, .uniMutex => True
  | taken, .uniMutex => True
  | _, _ => False

/-- The thread is inside a section that accesses `m_coroutines`. -/
def Pc.accesses : Pc T → Prop
  | inMutex _ _ => True
  | checking => True
  | scanning _ => True
  | taken => True
  | _ => False

/-- The thread is inside a section whose code changes `m_coroutines`: the
`push_back` of `schedule` or the scan of the pick, which erases what it takes. -/
def Pc.modifies : Pc T → Prop
  | inMutex (.push _) _ => True
  | scanning _ => True
  | taken => True
  | _ => False

/-- A thread that makes the calls of `may` can be here: anywhere but outside
`run` it is in a call of `run`. -/
def Pc.allowed (may : Path → Prop) : Pc T → Prop
  | outside => True
  | lockMutex _ .caller => ∃ p, may p
  | inMutex _ .caller => ∃ p, may p
  | _ => may .run

/-- A new scheduler, before its threads have done anything. -/
def start (idleFlag : Bool) : State T :=
  { queue := [], idleFlag := idleFlag, stopping := false
    owner := fun _ => none, pc := fun _ => .outside }

/-- No two threads are inside sections that access the list, one of which
changes it. -/
def MutualExclusion (s : State T) : Prop :=
  ∀ t u, t ≠ u → (s.pc t).accesses → ¬ (s.pc u).modifies

/-- A thread that may call `run` is the only one to call anything. -/
def RunsAlone (calls : T → Path → Prop) : Prop :=
  ∀ t u, t ≠ u → calls t .run → ∀ p, ¬ calls u p

/-! ## Each mutex excludes the threads that use it -/

/-- No section is held under two mutexes. -/
theorem Pc.holds_unique {l k : Lock} {pc : Pc T} (hl : pc.holds l) (hk : pc.holds k) :
    k = l := by
  cases pc <;> cases l <;> cases k <;> simp_all [Pc.holds]

/-- After a section under `m_mutex` the thread holds nothing. -/
theorem Back.next_holds (stop : Bool) (back : Back) (k : Lock) :
    ¬ (back.next stop : Pc T).holds k := by
  cases back <;> cases stop <;> simp [Back.next, Pc.holds]

/-- Where a call goes on is allowed as the call was. -/
theorem Back.next_allowed {may : Path → Prop} {call : MutexCall T} {back : Back}
    (stop : Bool) (h : (Pc.inMutex call back).allowed may) :
    (back.next stop : Pc T).allowed may := by
  cases back <;> cases stop <;> simp_all [Back.next, Pc.allowed]

/-- A call is allowed in the mutex if it was on the way to it. -/
theorem allowed_inMutex {may : Path → Prop} {call call' : MutexCall T} {back : Back}
    (h : (Pc.lockMutex call back).allowed may ∨ (Pc.inMutex call back).allowed may) :
    (Pc.inMutex call' back).allowed may := by
  cases back <;> simpa [Pc.allowed] using h

/-- A section that accesses the list is under `m_mutex`, or it is the pick
section of a thread in `run`. -/
theorem Pc.accesses_cases {pc : Pc T} {may : Path → Prop} (h : pc.accesses)
    (hall : pc.allowed may) :
    (pc.holds .mutex ∧ ∃ p, may p) ∨ (pc.holds .uniMutex ∧ may .run) := by
  cases pc with
  | inMutex call back =>
      refine Or.inl ⟨trivial, ?_⟩
      cases back with
      | caller => exact hall
      | _ => exact ⟨_, hall⟩
  | checking => exact Or.inr ⟨trivial, hall⟩
  | scanning i => exact Or.inr ⟨trivial, hall⟩
  | taken => exact Or.inr ⟨trivial, hall⟩
  | _ => exact absurd h id

/-- Who modifies the queue accesses it. -/
theorem Pc.accesses_of_modifies {pc : Pc T} (h : pc.modifies) : pc.accesses := by
  cases pc <;> simp_all [Pc.modifies, Pc.accesses]

/-- The recorded owners are the threads inside the sections, and every thread
is where its calls can take it. -/
structure Inv (calls : T → Path → Prop) (s : State T) : Prop where
  owned : Owned s.owner (fun t => (s.pc t).holds)
  allowed : ∀ t, (s.pc t).allowed (calls t)

/-- The lists and flags do not matter for the invariant. -/
theorem Inv.congr {calls : T → Path → Prop} {s s' : State T} (h : Inv calls s)
    (howner : s'.owner = s.owner) (hpc : s'.pc = s.pc) : Inv calls s' where
  owned := by
    rw [howner, hpc]
    exact h.owned
  allowed := by
    rw [hpc]
    exact h.allowed

/-- When a thread in `run` is alone, the two mutexes are enough. -/
theorem mutualExclusion_of_runsAlone {calls : T → Path → Prop} {s : State T}
    (h : Inv calls s) (halone : RunsAlone calls) : MutualExclusion s := by
  intro t u hne ht hu
  rcases Pc.accesses_cases ht (h.allowed t) with ⟨htm, p, hp⟩ | ⟨htm, hp⟩
  · rcases Pc.accesses_cases (Pc.accesses_of_modifies hu) (h.allowed u) with
      ⟨hum, -⟩ | ⟨-, hq⟩
    · exact hne (h.owned.unique htm hum)
    · exact halone u t (Ne.symm hne) hq p hp
  · rcases Pc.accesses_cases (Pc.accesses_of_modifies hu) (h.allowed u) with
      ⟨-, q, hq⟩ | ⟨-, hq⟩
    · exact halone t u hne hp q hq
    · exact halone t u hne hp _ hq

/-! ## The steps of the threads -/

variable [DecidableEq T]

/-- Move thread `t` to `pc`. -/
def State.move (s : State T) (t : T) (pc : Pc T) : State T :=
  { s with pc := Function.update s.pc t pc }

/-- Thread `t` acquires or releases `l` and moves to `pc`. -/
def State.setOwner (s : State T) (l : Lock) (owner : Option T) (t : T) (pc : Pc T) :
    State T :=
  { s with
    owner := Function.update s.owner l owner
    pc := Function.update s.pc t pc }

/-- The predicate of `m_con.wait`. -/
def State.mayPick (s : State T) : Bool :=
  (!s.queue.isEmpty || s.idleFlag) || s.stopping

/-- The result of `Scheduler::stopping`. -/
def State.isStopping (s : State T) : Bool :=
  s.stopping && s.queue.isEmpty

/-- The pick of thread `t` may pass over the task: it is pinned to another
thread, or its coroutine is running. -/
def Task.mayPassOver (t : T) (x : Task T) : Bool :=
  (x.threadId != none && x.threadId != some t) || x.coroutine

/-- The pick of thread `t` may take the task. -/
def Task.mayTake (t : T) (x : Task T) : Bool :=
  x.threadId == none || x.threadId == some t

/-- One step of thread `t`, which makes the calls of `calls t`. -/
inductive Step (calls : T → Path → Prop) : State T → T → State T → Prop
  | schedule {s : State T} {t : T} (x : Task T) (hpc : s.pc t = .outside)
      (hcall : calls t .schedule) :
      Step calls s t (s.move t (.lockMutex (.push [x]) .caller))
  | scheduleRange {s : State T} {t : T} (xs : List (Task T)) (hpc : s.pc t = .outside)
      (hcall : calls t .scheduleRange) :
      Step calls s t (s.move t (.lockMutex (.push xs) .caller))
  | stopping {s : State T} {t : T} (hpc : s.pc t = .outside) (hcall : calls t .stopping) :
      Step calls s t (s.move t (.lockMutex .test .caller))
  | run {s : State T} {t : T} (hpc : s.pc t = .outside) (hcall : calls t .run) :
      Step calls s t (s.move t .loop)
  | loopTest {s : State T} {t : T} (hpc : s.pc t = .loop) :
      Step calls s t (s.move t (.lockMutex .test .loopHead))
  /-- The task, or `run` on its return, calls `schedule` or `stopping`. -/
  | taskCall {s : State T} {t : T} (call : MutexCall T) (hpc : s.pc t = .task) :
      Step calls s t (s.move t (.lockMutex call .task))
  | idleTest {s : State T} {t : T} (hpc : s.pc t = .task) :
      Step calls s t (s.move t (.lockMutex .test .afterIdle))
  | again {s : State T} {t : T} (hpc : s.pc t = .task) : Step calls s t (s.move t .loop)
  /-- The idle coroutine has terminated. -/
  | leave {s : State T} {t : T} (hpc : s.pc t = .task) : Step calls s t (s.move t .outside)
  | acquireMutex {s : State T} {t : T} {call : MutexCall T} {back : Back}
      (hpc : s.pc t = .lockMutex call back) (hfree : s.owner .mutex = none) :
      Step calls s t (s.setOwner .mutex (some t) t (.inMutex call back))
  | pushBack {s : State T} {t : T} {x : Task T} {xs : List (Task T)} {back : Back}
      (hpc : s.pc t = .inMutex (.push (x :: xs)) back) :
      Step calls s t
        { s.move t (.inMutex (.push xs) back) with
          queue := if x.coroutine || x.cb then s.queue ++ [x] else s.queue }
  | releasePush {s : State T} {t : T} {back : Back}
      (hpc : s.pc t = .inMutex (.push []) back) :
      Step calls s t (s.setOwner .mutex none t (back.next s.isStopping))
  | releaseTest {s : State T} {t : T} {back : Back} (hpc : s.pc t = .inMutex .test back) :
      Step calls s t (s.setOwner .mutex none t (back.next s.isStopping))
  | acquireUni {s : State T} {t : T} (hpc : s.pc t = .lockUni)
      (hfree : s.owner .uniMutex = none) :
      Step calls s t (s.setOwner .uniMutex (some t) t .checking)
  | proceed {s : State T} {t : T} (hpc : s.pc t = .checking) (hpick : s.mayPick = true) :
      Step calls s t (s.move t (.scanning 0))
  | wait {s : State T} {t : T} (hpc : s.pc t = .checking) (hpick : s.mayPick = false) :
      Step calls s t (s.setOwner .uniMutex none t .waiting)
  /-- A notified or spurious wake-up, which acquires the mutex again. -/
  | wake {s : State T} {t : T} (hpc : s.pc t = .waiting)
      (hfree : s.owner .uniMutex = none) :
      Step calls s t (s.setOwner .uniMutex (some t) t .checking)
  | passOver {s : State T} {t : T} {i : Nat} {x : Task T} (hpc : s.pc t = .scanning i)
      (hx : s.queue[i]? = some x) (hpass : x.mayPassOver t = true) :
      Step calls s t (s.move t (.scanning (i + 1)))
  | take {s : State T} {t : T} {i : Nat} {x : Task T} (hpc : s.pc t = .scanning i)
      (hx : s.queue[i]? = some x) (htake : x.mayTake t = true) :
      Step calls s t { s.move t .taken with queue := s.queue.eraseIdx i }
  | releaseTaken {s : State T} {t : T} (hpc : s.pc t = .taken) :
      Step calls s t (s.setOwner .uniMutex none t .task)
  | releaseEnd {s : State T} {t : T} {i : Nat} (hpc : s.pc t = .scanning i)
      (hend : s.queue[i]? = none) :
      Step calls s t (s.setOwner .uniMutex none t .task)
  /-- `Scheduler::stop`, whose section under `m_mutex` leaves the list alone. -/
  | stop {s : State T} {t : T} (hfree : s.owner .mutex = none) :
      Step calls s t { s with stopping := true }

section Moves

variable {calls : T → Path → Prop} {s : State T} {t : T} {pc : Pc T}

@[simp] theorem move_pc_self : (s.move t pc).pc t = pc := by
  simp [State.move]

/-- The others stay where they are. -/
theorem move_pc_of_ne {u : T} (h : u ≠ t) : (s.move t pc).pc u = s.pc u := by
  simp [State.move, Function.update_of_ne h]

/-- One thread goes where it may. -/
theorem allowed_update (h : ∀ u, (s.pc u).allowed (calls u)) (hpc : pc.allowed (calls t)) :
    ∀ u, (Function.update s.pc t pc u).allowed (calls u) := by
  intro u
  by_cases hu : u = t
  · subst hu
    simpa using hpc
  · simpa [Function.update_of_ne hu] using h u

/-- A step that keeps what a thread holds keeps the invariant. -/
theorem Inv.move (h : Inv calls s) (hholds : ∀ l, pc.holds l ↔ (s.pc t).holds l)
    (hpc : pc.allowed (calls t)) : Inv calls (s.move t pc) where
  owned := h.owned.congr fun u l => by
    by_cases hu : u = t
    · subst hu
      simp [hholds l]
    · simp [move_pc_of_ne hu]
  allowed := allowed_update h.allowed hpc

/-- A thread that held nothing acquires a free mutex. -/
theorem Inv.acquire (h : Inv calls s) {l : Lock} (hfree : s.owner l = none)
    (hnone : ∀ k, ¬ (s.pc t).holds k) (hgot : pc.holds l) (hpc : pc.allowed (calls t)) :
    Inv calls (s.setOwner l (some t) t pc) where
  owned := by
    refine h.owned.acquire hfree (by simpa [State.setOwner] using hgot) ?_
    intro u k hdiff
    by_cases hu : u = t
    · subst hu
      have hk : k ≠ l := hdiff.resolve_left (fun hne => hne rfl)
      have hnot : ¬ pc.holds k := fun hk' => hk (Pc.holds_unique hgot hk')
      simp [State.setOwner, hnot, hnone k]
    · simp [State.setOwner, Function.update_of_ne hu]
  allowed := allowed_update h.allowed hpc

/-- A thread releases the only mutex it held. -/
theorem Inv.release (h : Inv calls s) {l : Lock} (hheld : (s.pc t).holds l)
    (hnone : ∀ k, ¬ pc.holds k) (hpc : pc.allowed (calls t)) :
    Inv calls (s.setOwner l none t pc) where
  owned := by
    refine h.owned.release hheld (by simpa [State.setOwner] using hnone l) ?_
    intro u k hdiff
    by_cases hu : u = t
    · subst hu
      have hk : k ≠ l := hdiff.resolve_left (fun hne => hne rfl)
      have hnot : ¬ (s.pc u).holds k := fun hk' => hk (Pc.holds_unique hheld hk')
      simp [State.setOwner, hnot, hnone k]
    · simp [State.setOwner, Function.update_of_ne hu]
  allowed := allowed_update h.allowed hpc

end Moves

/-- Every step keeps the invariant. -/
theorem step_inv {calls : T → Path → Prop} {s s' : State T} {t : T} (h : Inv calls s)
    (hstep : Step calls s t s') : Inv calls s' := by
  have hall := h.allowed t
  cases hstep with
  | schedule x hpc hcall =>
      exact h.move (by simp [hpc, Pc.holds]) ⟨_, hcall⟩
  | scheduleRange xs hpc hcall =>
      exact h.move (by simp [hpc, Pc.holds]) ⟨_, hcall⟩
  | stopping hpc hcall =>
      exact h.move (by simp [hpc, Pc.holds]) ⟨_, hcall⟩
  | run hpc hcall => exact h.move (by simp [hpc, Pc.holds]) hcall
  | loopTest hpc =>
      rw [hpc] at hall
      exact h.move (by simp [hpc, Pc.holds]) hall
  | taskCall call hpc =>
      rw [hpc] at hall
      exact h.move (by simp [hpc, Pc.holds]) hall
  | idleTest hpc =>
      rw [hpc] at hall
      exact h.move (by simp [hpc, Pc.holds]) hall
  | again hpc =>
      rw [hpc] at hall
      exact h.move (by simp [hpc, Pc.holds]) hall
  | leave hpc => exact h.move (by simp [hpc, Pc.holds]) trivial
  | acquireMutex hpc hfree =>
      rw [hpc] at hall
      exact h.acquire hfree (by simp [hpc, Pc.holds]) trivial (allowed_inMutex (Or.inl hall))
  | @pushBack x xs back hpc =>
      rw [hpc] at hall
      have hmove : Inv calls (s.move t (.inMutex (.push xs) back)) :=
        h.move (fun l => by cases l <;> simp [hpc, Pc.holds]) (allowed_inMutex (Or.inr hall))
      exact hmove.congr rfl rfl
  | @releasePush back hpc =>
      rw [hpc] at hall
      exact h.release (by simp [hpc, Pc.holds]) (Back.next_holds _ back)
        (Back.next_allowed _ hall)
  | @releaseTest back hpc =>
      rw [hpc] at hall
      exact h.release (by simp [hpc, Pc.holds]) (Back.next_holds _ back)
        (Back.next_allowed _ hall)
  | acquireUni hpc hfree =>
      rw [hpc] at hall
      exact h.acquire hfree (by simp [hpc, Pc.holds]) trivial hall
  | proceed hpc hpick =>
      rw [hpc] at hall
      exact h.move (fun l => by cases l <;> simp [hpc, Pc.holds]) hall
  | wait hpc hpick =>
      rw [hpc] at hall
      exact h.release (by simp [hpc, Pc.holds]) (by simp [Pc.holds]) hall
  | wake hpc hfree =>
      rw [hpc] at hall
      exact h.acquire hfree (by simp [hpc, Pc.holds]) trivial hall
  | passOver hpc hx hpass =>
      rw [hpc] at hall
      exact h.move (fun l => by cases l <;> simp [hpc, Pc.holds]) hall
  | take hpc hx htake =>
      rw [hpc] at hall
      have hmove : Inv calls (s.move t .taken) :=
        h.move (fun l => by cases l <;> simp [hpc, Pc.holds]) hall
      exact hmove.congr rfl rfl
  | releaseTaken hpc =>
      rw [hpc] at hall
      exact h.release (by simp [hpc, Pc.holds]) (by simp [Pc.holds]) hall
  | releaseEnd hpc hend =>
      rw [hpc] at hall
      exact h.release (by simp [hpc, Pc.holds]) (by simp [Pc.holds]) hall
  | stop hfree => exact h.congr rfl rfl

/-- The invariant holds in every run. -/
theorem reachable_inv {calls : T → Path → Prop} {idleFlag : Bool} {s : State T}
    (h : Reachable (· = start idleFlag) (Step calls) s) : Inv calls s := by
  refine h.invariant (fun s0 h0 => ?_) (fun _ _ _ hI _ hs => step_inv hI hs)
  subst h0
  exact ⟨Owned.start (by simp [start, Pc.holds]), fun _ => trivial⟩

/-! ## A worker in its pick section and any other caller -/

section Meeting

variable {calls : T → Path → Prop} {idleFlag : Bool}

/-- Each call of a thread outside `run` brings it to a section under
`m_mutex`. -/
theorem want_mutex {s : State T} {u : T} {p : Path}
    (h : Reachable (· = start idleFlag) (Step calls) s) (hcall : calls u p)
    (hpc : s.pc u = .outside) :
    ∃ s' call back, Reachable (· = start idleFlag) (Step calls) s' ∧
      s'.pc u = .lockMutex call back ∧ s'.owner = s.owner ∧ s'.stopping = s.stopping ∧
      (∀ t, t ≠ u → s'.pc t = s.pc t) ∧
      (p = .run → call = .test ∧ back = .loopHead) := by
  have other : ∀ pc t, t ≠ u → (s.move u pc).pc t = s.pc t := fun _ _ ht => move_pc_of_ne ht
  cases p with
  | schedule =>
      exact ⟨_, _, _, h.next trivial (.schedule ⟨true, false, none⟩ hpc hcall),
        move_pc_self, rfl, rfl, other _, by simp⟩
  | scheduleRange =>
      exact ⟨_, _, _, h.next trivial (.scheduleRange [] hpc hcall),
        move_pc_self, rfl, rfl, other _, by simp⟩
  | stopping =>
      exact ⟨_, _, _, h.next trivial (.stopping hpc hcall),
        move_pc_self, rfl, rfl, other _, by simp⟩
  | run =>
      have hloop := h.next trivial (.run hpc hcall)
      refine ⟨_, _, _, hloop.next trivial (.loopTest move_pc_self),
        move_pc_self, rfl, rfl, fun t ht => ?_, fun _ => ⟨rfl, rfl⟩⟩
      rw [move_pc_of_ne ht, move_pc_of_ne ht]

/-- It enters the section while no thread holds the mutex. -/
theorem enter_mutex {s : State T} {u : T} {p : Path}
    (h : Reachable (· = start idleFlag) (Step calls) s) (hcall : calls u p)
    (hpc : s.pc u = .outside) (hfree : s.owner .mutex = none) :
    ∃ s' call back, Reachable (· = start idleFlag) (Step calls) s' ∧
      s'.pc u = .inMutex call back ∧ s'.owner .uniMutex = s.owner .uniMutex ∧
      s'.stopping = s.stopping ∧ (∀ t, t ≠ u → s'.pc t = s.pc t) ∧
      (p = .run → call = .test ∧ back = .loopHead) := by
  obtain ⟨s₁, call, back, hreach, hpc₁, howner, hstop, hother, hrun⟩ :=
    want_mutex h hcall hpc
  have hfree₁ : s₁.owner .mutex = none := by rw [howner, hfree]
  refine ⟨_, call, back, hreach.next trivial (.acquireMutex hpc₁ hfree₁), ?_, ?_, hstop,
    fun t ht => ?_, hrun⟩
  · simp [State.setOwner]
  · simp [State.setOwner, howner]
  · simp [State.setOwner, Function.update_of_ne ht, hother t ht]

/-- A worker gets to the scan of its pick section, with `m_mutex` free: if
nothing else lets it pass the predicate, a call of `stop` does. -/
theorem enter_pick (idleFlag : Bool) {t : T} (hrun : calls t .run) :
    ∃ s, Reachable (· = start idleFlag) (Step calls) s ∧ s.pc t = .scanning 0 ∧
      s.owner .mutex = none ∧ ∀ u, u ≠ t → s.pc u = .outside := by
  have hstart : Reachable (· = start idleFlag) (Step calls) (start idleFlag) := .start rfl
  obtain ⟨s, call, back, hreach, hpc, huni, hstop, hother, hwhere⟩ :=
    enter_mutex hstart hrun rfl rfl
  obtain ⟨rfl, rfl⟩ := hwhere rfl
  have htest := hreach.next trivial (.releaseTest hpc)
  have hnot : s.isStopping = false := by
    rw [State.isStopping, hstop]
    rfl
  have hstopped := htest.next trivial (.stop (t := t) (by simp [State.setOwner]))
  have hlock := hstopped.next trivial (.acquireUni (t := t)
    (by simp [State.setOwner, hnot, Back.next])
    (by simpa [State.setOwner, start] using huni))
  have hscan := hlock.next trivial (.proceed (t := t)
    (by simp [State.setOwner]) (by simp [State.setOwner, State.mayPick]))
  refine ⟨_, hscan, by simp [State.move], by simp [State.move, State.setOwner],
    fun u hu => ?_⟩
  simp [State.move, State.setOwner, Function.update_of_ne hu, hother u hu, start]

/-- A worker in its pick section meets any other thread that makes a call. -/
theorem pick_meets_caller (idleFlag : Bool) {t u : T} {p : Path} (hne : t ≠ u) (hrun : calls t .run)
    (hcall : calls u p) :
    ∃ s, Reachable (· = start idleFlag) (Step calls) s ∧
      s.pc t = .scanning 0 ∧ ∃ call back, s.pc u = .inMutex call back := by
  obtain ⟨s, hreach, hpc, hfree, hout⟩ := enter_pick idleFlag hrun
  obtain ⟨s', call, back, hreach', hpc', -, -, hother, -⟩ :=
    enter_mutex hreach hcall (hout u (Ne.symm hne)) hfree
  exact ⟨s', hreach', (hother t hne).trans hpc, call, back, hpc'⟩

end Meeting

/-- **The queue's locks.**  Sections that access the task queue exclude one
another in every reachable state exactly when a thread that may call `run` is
the only thread that calls anything. -/
theorem mutualExclusion_iff_runsAlone (calls : T → Path → Prop) (idleFlag : Bool) :
    (∀ s, Reachable (· = start idleFlag) (Step calls) s → MutualExclusion s) ↔
      RunsAlone calls := by
  constructor
  · intro hsafe t u hne hrun p hcall
    obtain ⟨s, hreach, hpick, call, back, hmutex⟩ :=
      pick_meets_caller idleFlag hne hrun hcall
    refine hsafe s hreach u t (Ne.symm hne) ?_ ?_
    · rw [hmutex]
      trivial
    · rw [hpick]
      trivial
  · exact fun halone s hreach => mutualExclusion_of_runsAlone (reachable_inv hreach) halone

/-- A worker scans the queue in its pick section while another thread is about to
push a task. -/
theorem worker_meets_scheduling_thread :
    ¬ ∀ s : State Bool,
      Reachable (· = start true)
        (Step fun t p => p = if t then Path.run else Path.schedule) s →
      MutualExclusion s := by
  intro hsafe
  let calls : Bool → Path → Prop := fun t p => p = if t then Path.run else Path.schedule
  have hrun : calls true .run := rfl
  have hcall : calls false .schedule := rfl
  obtain ⟨s, hreach, hpick, call, back, hmutex⟩ :=
    pick_meets_caller true Bool.noConfusion hrun hcall
  refine hsafe s hreach false true (by decide) ?_ ?_
  · rw [hmutex]
    trivial
  · rw [hpick]
    trivial

end SchedulerLocks

end Agent
