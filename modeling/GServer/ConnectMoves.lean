import GServer.HookConnect

/-!
# The moves of a hooked `connect`

A call is seen by the others as a record of its own, `Call`, that moves with its own
steps and with what is done to its descriptor.  In a run in which no registration is taken
by two threads, each step of the system is a move of each call.
-/

namespace Agent

open Runs

namespace Connect

open Hook (Errno TimerState unlimited)

variable {C : Type}

/-- One call with its registration and the kernel's side of its descriptor.  A thread has
taken the registration when it is `struck`. -/
structure Call where
  phase : Phase
  timeout : Nat
  cancelled : Bool
  timer : TimerState
  registered : Bool
  struck : Bool
  told : Nat
  scheduled : Nat
  kernel : Kernel

/-- `Timer::cancel`. -/
def Call.cancelTimer (k : Call) : Call :=
  if k.timer = .pending then { k with timer := .over } else k

/-- Who makes the step: the call or a callback of its timer, the event loop or the kernel,
or other code that works on the descriptor. -/
inductive Source (C : Type)
  | own (a : Act C)
  | world
  | foreign

/-- What can happen to a call. -/
inductive Move (c : C) (k : Call) : Source C → Call → Prop
  | enter {hooked : Bool} {stat : FdStat} {phase : Phase} {timeout : Nat}
      (hphase : k.phase = .entry)
      (hgoes : phase = .passing ∨ phase = .calling ∨ phase = .returned (-1) .ebadf) :
      Move c k (.own (.enter c hooked stat))
        { k with phase := phase, timeout := timeout, cancelled := false }
  | pass {answer : Answer} {kernel : Kernel} (hphase : k.phase = .passing)
      (hkernel : k.kernel.connect answer = some kernel) :
      Move c k (.own (.raw c answer))
        { k with phase := .returned answer.result.1 answer.result.2, kernel := kernel }
  | call {answer : Answer} {kernel : Kernel} (hphase : k.phase = .calling)
      (hkernel : k.kernel.connect answer = some kernel) :
      Move c k (.own (.raw c answer)) { k with phase := afterRaw answer, kernel := kernel }
  | skipTimer (hphase : k.phase = .arming) :
      Move c k (.own (.arm c)) { k with phase := .adding }
  | arm (hphase : k.phase = .arming) (htimeout : k.timeout ≠ unlimited) :
      Move c k (.own (.arm c)) { k with phase := .adding, timer := .pending }
  | register (hphase : k.phase = .adding) :
      Move c k (.own (.addEvent c false))
        { k with phase := .yielding, registered := true, struck := false }
  | fail (hphase : k.phase = .adding) :
      Move c k (.own (.addEvent c true)) { k with phase := .undoing }
  | undo (hphase : k.phase = .undoing) :
      Move c k (.own (.undo c)) { k.cancelTimer with phase := .asking }
  | yield (hphase : k.phase = .yielding) :
      Move c k (.own (.yield c)) { k with phase := .parked }
  | resume (hphase : k.phase = .parked) (hscheduled : 0 < k.scheduled) :
      Move c k (.own (.resume c)) { k with phase := .resumed, scheduled := k.scheduled - 1 }
  | cancelTimer (hphase : k.phase = .resumed) :
      Move c k (.own (.cancelTimer c)) { k.cancelTimer with phase := .testing }
  | timedOut (hphase : k.phase = .testing) (hcancelled : k.cancelled = true) :
      Move c k (.own (.test c)) { k with phase := .returned (-1) .etimedout }
  | awake (hphase : k.phase = .testing) (hcancelled : k.cancelled = false) :
      Move c k (.own (.test c)) { k with phase := .asking }
  | sockopt (hphase : k.phase = .asking) :
      Move c k (.own (.sockopt c)) { k with phase := k.kernel.answer, kernel := k.kernel.asked }
  | collect (htimer : k.timer = .pending) :
      Move c k (.own (.collect c)) { k with timer := .collected }
  | guard {alive : Bool} {timer : TimerState} (htimer : k.timer = .collected)
      (hgoes : timer = .passed ∨ timer = .over) :
      Move c k (.own (.guard c alive)) { k with timer := timer }
  | mark (htimer : k.timer = .passed) :
      Move c k (.own (.mark c)) { k with cancelled := true, timer := .marked }
  | strike {ok : Bool} (htimer : k.timer = .marked) (hregistered : k.registered = true) :
      Move c k (.own (.cancelEvent c ok)) { k with timer := .over, struck := true }
  | miss {ok : Bool} (htimer : k.timer = .marked) :
      Move c k (.own (.cancelEvent c ok)) { k with timer := .over }
  | epollWait (hwritable : k.kernel.writable = true) :
      Move c k .world { k with told := k.told + 1 }
  | report (htold : 0 < k.told) (hregistered : k.registered = true) :
      Move c k .world { k with told := k.told - 1, struck := true }
  | passOver : Move c k .world { k with told := k.told - 1 }
  | trigger (hstruck : k.struck = true) :
      Move c k .world
        { k with registered := false, struck := false, scheduled := k.scheduled + 1 }
  | settle {failed : Option Errno} {kernel : Kernel}
      (hkernel : k.kernel.settle failed = some kernel) :
      Move c k .world { k with kernel := kernel }
  | unseen : Move c k .world k
  | take (hregistered : k.registered = true) : Move c k .foreign { k with struck := true }
  | touch {kernel : Kernel} : Move c k .foreign { k with kernel := kernel }
  | missed : Move c k .foreign k

/-! ## Each step is a move -/

section Steps

variable [DecidableEq C] {io : Calls C} {s s' : State C} {a : Act C} {c d : C}

/-- A thread has taken the registration of the call. -/
def WriteContext.strikes (x : WriteContext C) (c : C) : Bool :=
  x.registers c && decide (0 < x.triggering)

/-- The call as it is seen in the state. -/
def State.call (io : Calls C) (s : State C) (c : C) : Call :=
  { phase := s.phase c, timeout := s.timeout c, cancelled := s.cancelled c, timer := s.timer c
    registered := (s.write (io.fd c)).registers c, struck := (s.write (io.fd c)).strikes c
    told := (s.write (io.fd c)).told, scheduled := s.scheduled c, kernel := s.kernel (io.fd c) }

/-- The step is made by other code on the descriptor of the call or with its coroutine, or
by the `addEvent` of the call, which fails. -/
def Act.disturbs (io : Calls C) (c : C) : Act C → Bool
  | .raw d _ => decide (d ≠ c ∧ io.fd d = io.fd c)
  | .sockopt d => decide (d ≠ c ∧ io.fd d = io.fd c)
  | .cancelEvent d _ => decide (d ≠ c ∧ io.fd d = io.fd c)
  | .addEvent d failed => decide (d = c) && failed
  | .cancel fd => decide (fd = io.fd c)
  | .schedule d => decide (d = c)
  | .close fd _ => decide (fd = io.fd c)
  | .opened fd _ => decide (fd = io.fd c)
  | .soError fd => decide (fd = io.fd c)
  | _ => false

/-- Other code schedules the coroutine of the call. -/
def Act.schedules (c : C) : Act C → Bool
  | .schedule d => decide (d = c)
  | _ => false

/-- The call whose own step or callback it is. -/
def Act.actor : Act C → Option C
  | .enter c _ _ | .raw c _ | .arm c | .addEvent c _ | .undo c | .yield c | .resume c
  | .cancelTimer c | .test c | .sockopt c | .collect c | .guard c _ | .mark c
  | .cancelEvent c _ => some c
  | .settle _ _ | .epollWait _ | .report _ | .cancel _ | .trigger _ | .forget _ | .schedule _
  | .close _ _ | .opened _ _ | .soError _
  | .setUserNonblock _ _ _ | .setConnectTimeout _ => none

/-- Where a step comes from, for a call. -/
def Act.source (io : Calls C) (c : C) (a : Act C) : Source C :=
  if a.actor = some c then .own a
  else if a.disturbs io c then .foreign
  else .world

/-- No registration is taken by two threads, and nothing but its registrations schedules the
coroutine of the call. -/
def Apart (io : Calls C) (c : C) (s : State C) (a : Act C) : Prop :=
  takesTwice io s a = false ∧ a.schedules c = false

instance (io : Calls C) (c : C) (s : State C) : DecidablePred (Apart io c s) :=
  fun a => inferInstanceAs (Decidable (takesTwice io s a = false ∧ a.schedules c = false))

/-! ### The contexts -/

/-- A registration is triggered by one thread at most: on the way to `triggerEvent` the
event is set, and after it the scheduler is, which no other registration is made with.
While the event is set and nobody has taken it, `epoll` watches the descriptor, unless it
has been closed. -/
structure WriteContext.Kept (io : Calls C) (fd : Int) (x : WriteContext C) : Prop where
  placed : ∀ c, x.coroutine = some c → fd = io.fd c
  held : x.event = true → x.scheduler = true ∧ x.coroutine ≠ none
  taken : 0 < x.triggering → x.event = true
  left : 0 < x.forgetting → x.event = false ∧ x.scheduler = true
  once : x.triggering + x.forgetting ≤ 1
  watched : x.event = true → x.watched = true ∨ 0 < x.triggering ∨ x.closed = true

/-- Every context is so. -/
def Orderly (io : Calls C) (s : State C) : Prop :=
  ∀ fd, (s.write fd).Kept io fd

/-- What one step does to a context. -/
inductive WriteContext.Change (io : Calls C) (fd : Int) (x : WriteContext C) :
    WriteContext C → Prop
  | same : Change io fd x x
  | register {c : C} (hfd : fd = io.fd c) (hevent : x.event = false)
      (hscheduler : x.scheduler = false) : Change io fd x (x.register c)
  | tell : Change io fd x { x with told := x.told + 1 }
  | take (hevent : x.event = true) (hfree : x.triggering = 0) : Change io fd x x.take
  | handle (hfree : x.triggering = 0) : Change io fd x x.handle
  | trigger (htriggering : 0 < x.triggering) : Change io fd x x.trigger
  | forget (hforgetting : 0 < x.forgetting) : Change io fd x x.forget
  | close : Change io fd x x.close

section Contexts

variable {fd : Int} {x x' : WriteContext C}

omit [DecidableEq C] in
/-- A registration that nobody has taken is taken. -/
theorem WriteContext.Kept.take (h : x.Kept io fd) (hevent : x.event = true)
    (hfree : x.triggering = 0) : x.take.Kept io fd where
  placed := h.placed
  held := h.held
  taken _ := hevent
  left hforgetting := h.left hforgetting
  once := by
    have hnone : x.forgetting = 0 := by
      by_contra hsome
      have hclear := (h.left (Nat.pos_of_ne_zero hsome)).1
      simp [hevent] at hclear
    simp [WriteContext.take, hfree, hnone]
  watched _ := .inr (.inl (Nat.succ_pos _))

omit [DecidableEq C] in
/-- What one step does keeps the context. -/
theorem WriteContext.Kept.change (h : x.Kept io fd) (hchange : x.Change io fd x') :
    x'.Kept io fd := by
  cases hchange with
  | same => exact h
  | @register c hfd hevent hscheduler =>
      have htriggering : x.triggering = 0 := by
        by_contra hsome
        have hset := h.taken (Nat.pos_of_ne_zero hsome)
        simp [hevent] at hset
      have hforgetting : x.forgetting = 0 := by
        by_contra hsome
        have hset := (h.left (Nat.pos_of_ne_zero hsome)).2
        simp [hscheduler] at hset
      refine ⟨?_, fun _ => ⟨rfl, by simp [register]⟩, fun _ => rfl, ?_, ?_, fun _ => .inl rfl⟩
      · intro d hd
        cases hd
        exact hfd
      · simp [register, hforgetting]
      · simp [register, htriggering, hforgetting]
  | tell => exact ⟨h.placed, h.held, h.taken, h.left, h.once, h.watched⟩
  | take hevent hfree => exact h.take hevent hfree
  | handle hfree =>
      unfold handle
      split
      · rename_i hevent
        have htaken := h.take hevent hfree
        exact ⟨htaken.placed, htaken.held, htaken.taken, htaken.left, htaken.once, htaken.watched⟩
      · exact ⟨h.placed, h.held, h.taken, h.left, h.once, h.watched⟩
  | trigger htriggering =>
      have honce := h.once
      obtain ⟨hscheduler, -⟩ := h.held (h.taken htriggering)
      refine ⟨h.placed, by simp [WriteContext.trigger], ?_, fun _ => ⟨rfl, hscheduler⟩, ?_,
        by simp [WriteContext.trigger]⟩
      · simp only [WriteContext.trigger]
        omega
      · simp only [WriteContext.trigger]
        omega
  | forget hforgetting =>
      have honce := h.once
      obtain ⟨hevent, -⟩ := h.left hforgetting
      refine ⟨h.placed, by simp [WriteContext.forget, hevent], ?_, ?_, ?_,
        by simp [WriteContext.forget, hevent]⟩
      · simp only [WriteContext.forget]
        omega
      · simp only [WriteContext.forget]
        omega
      · simp only [WriteContext.forget]
        omega
  | close => exact ⟨h.placed, h.held, h.taken, h.left, h.once, fun _ => .inr (.inr rfl)⟩

omit [DecidableEq C] in
/-- One context is written. -/
theorem change_of_setWrite {t : State C} (hwrite : s'.write = (t.setWrite fd x).write)
    (hsame : t.write = s.write) (hchange : (s.write fd).Change io fd x) (fd' : Int) :
    (s.write fd').Change io fd' (s'.write fd') := by
  rw [hwrite]
  change (s.write fd').Change io fd' (Function.update t.write fd x fd')
  by_cases hfd : fd' = fd
  · subst hfd
    rw [Function.update_self]
    exact hchange
  · rw [Function.update_of_ne hfd, hsame]
    exact .same

omit [DecidableEq C] in
/-- No context is written. -/
theorem change_of_same (hwrite : s'.write = s.write) (fd : Int) :
    (s.write fd).Change io fd (s'.write fd) := by
  rw [hwrite]
  exact .same

/-- Cancelling a timer leaves the contexts alone. -/
theorem write_cancelTimer (s : State C) (d : C) : (s.cancelTimer d).write = s.write := by
  unfold State.cancelTimer
  split <;> rfl

/-- **Each step changes the contexts** one by one, if no registration is taken twice. -/
theorem change_of_step (hapart : takesTwice io s a = false) (hstep : Step io s a s')
    (fd : Int) : (s.write fd).Change io fd (s'.write fd) := by
  unfold Step step at hstep
  cases a with
  | enter d hooked stat =>
      obtain ⟨-, hmap⟩ := Option.ite_none_right_eq_some.mp hstep
      obtain ⟨_, -, rfl⟩ := Option.map_eq_some_iff.mp hmap
      exact .same
  | raw d answer =>
      dsimp only at hstep
      split at hstep
      · cases hstep
        exact .same
      · cases hstep
        exact .same
      · cases hstep
  | arm d =>
      obtain ⟨-, harm⟩ := Option.ite_none_right_eq_some.mp hstep
      split at harm <;> cases harm <;> exact .same
  | addEvent d failed =>
      obtain ⟨⟨-, hevent⟩, hadd⟩ := Option.ite_none_right_eq_some.mp hstep
      cases failed with
      | true =>
          cases hadd
          exact .same
      | false =>
          rw [if_neg Bool.false_ne_true] at hadd
          obtain ⟨hscheduler, heq⟩ := Option.ite_none_left_eq_some.mp hadd
          cases heq
          exact change_of_setWrite (t := s) rfl rfl
            (.register rfl hevent (Bool.eq_false_iff.mpr hscheduler)) fd
  | undo d | cancelTimer d =>
      obtain ⟨-, heq⟩ := Option.ite_none_right_eq_some.mp hstep
      cases heq
      exact change_of_same (write_cancelTimer s d) fd
  | yield d | resume d | test d | sockopt d | collect d | guard d _ | mark d =>
      obtain ⟨-, heq⟩ := Option.ite_none_right_eq_some.mp hstep
      cases heq
      exact .same
  | cancelEvent d ok =>
      obtain ⟨-, hcancel⟩ := Option.ite_none_right_eq_some.mp hstep
      split at hcancel
      · rename_i hboth
        obtain ⟨hok, hevent⟩ := Bool.and_eq_true_iff.mp hboth
        cases hcancel
        have hfree : (s.write (io.fd d)).triggering = 0 := by
          simpa [takesTwice, hok] using hapart
        exact change_of_setWrite (t := s) rfl rfl (.take hevent hfree) fd
      · cases hcancel
        exact .same
  | settle fd' failed =>
      obtain ⟨_, -, rfl⟩ := Option.map_eq_some_iff.mp hstep
      exact .same
  | epollWait fd' =>
      obtain ⟨-, heq⟩ := Option.ite_none_right_eq_some.mp hstep
      cases heq
      exact change_of_setWrite (t := s) rfl rfl .tell fd
  | report fd' =>
      obtain ⟨-, heq⟩ := Option.ite_none_right_eq_some.mp hstep
      cases heq
      have hfree : (s.write fd').triggering = 0 := by simpa [takesTwice] using hapart
      exact change_of_setWrite (t := s) rfl rfl (.handle hfree) fd
  | cancel fd' =>
      obtain ⟨hevent, heq⟩ := Option.ite_none_right_eq_some.mp hstep
      cases heq
      have hfree : (s.write fd').triggering = 0 := by simpa [takesTwice] using hapart
      exact change_of_setWrite (t := s) rfl rfl (.take hevent hfree) fd
  | trigger fd' =>
      obtain ⟨⟨htriggering, -⟩, heq⟩ := Option.ite_none_right_eq_some.mp hstep
      cases heq
      refine change_of_setWrite (t := s) ?_ rfl (.trigger htriggering) fd
      unfold State.trigger
      split <;> rfl
  | forget fd' =>
      obtain ⟨hforgetting, heq⟩ := Option.ite_none_right_eq_some.mp hstep
      cases heq
      exact change_of_setWrite (t := s) rfl rfl (.forget hforgetting) fd
  | schedule d | soError fd' | setConnectTimeout ms =>
      cases hstep
      exact .same
  | close fd' stat =>
      obtain ⟨fds, -, rfl⟩ := Option.map_eq_some_iff.mp hstep
      exact change_of_setWrite (t := { s with fds := fds }) rfl rfl .close fd
  | opened fd' stat =>
      obtain ⟨-, hmap⟩ := Option.ite_none_right_eq_some.mp hstep
      obtain ⟨_, -, rfl⟩ := Option.map_eq_some_iff.mp hmap
      exact .same
  | setUserNonblock fd' stat v =>
      obtain ⟨_, -, rfl⟩ := Option.map_eq_some_iff.mp hstep
      exact .same

/-- Every context stays in order. -/
theorem Orderly.step (h : Orderly io s) (hapart : takesTwice io s a = false)
    (hstep : Step io s a s') : Orderly io s' :=
  fun fd => (h fd).change (change_of_step hapart hstep fd)

end Contexts

/-! ### The call after a change of the state -/

section Views

omit [DecidableEq C] in
/-- A call is seen as it was when nothing of it has changed. -/
theorem call_of_same [DecidableEq C] (hphase : s'.phase c = s.phase c)
    (htimeout : s'.timeout c = s.timeout c) (hcancelled : s'.cancelled c = s.cancelled c)
    (htimer : s'.timer c = s.timer c)
    (hwrite : s'.write (io.fd c) = s.write (io.fd c))
    (hscheduled : s'.scheduled c = s.scheduled c)
    (hkernel : s'.kernel (io.fd c) = s.kernel (io.fd c)) : s'.call io c = s.call io c := by
  simp only [State.call, hphase, htimeout, hcancelled, htimer, hwrite, hscheduled, hkernel]

/-- The call goes on. -/
@[simp] theorem call_move (s : State C) (c : C) (phase : Phase) :
    (s.move c phase).call io c = { s.call io c with phase := phase } := by
  have hself : (s.move c phase).phase c = phase := Function.update_self ..
  unfold State.call
  rw [hself]
  rfl

/-- Another call goes on. -/
@[simp] theorem call_move_of_ne (hne : c ≠ d) (phase : Phase) :
    (s.move d phase).call io c = s.call io c :=
  call_of_same (Function.update_of_ne hne _ _) rfl rfl rfl rfl rfl rfl

/-- The timer of the call changes. -/
@[simp] theorem call_setTimer (s : State C) (c : C) (timer : TimerState) :
    (s.setTimer c timer).call io c = { s.call io c with timer := timer } := by
  have hself : (s.setTimer c timer).timer c = timer := Function.update_self ..
  unfold State.call
  rw [hself]
  rfl

/-- The timer of another call changes. -/
@[simp] theorem call_setTimer_of_ne (hne : c ≠ d) (timer : TimerState) :
    (s.setTimer d timer).call io c = s.call io c :=
  call_of_same rfl rfl rfl (Function.update_of_ne hne _ _) rfl rfl rfl

/-- The call cancels its timer. -/
@[simp] theorem call_cancelTimer (s : State C) (c : C) :
    (s.cancelTimer c).call io c = (s.call io c).cancelTimer := by
  by_cases h : s.timer c = .pending
  · have hcall : (s.call io c).timer = .pending := h
    simp only [State.cancelTimer, if_pos h, Call.cancelTimer, if_pos hcall, call_setTimer]
  · have hcall : (s.call io c).timer ≠ .pending := h
    simp only [State.cancelTimer, if_neg h, Call.cancelTimer, if_neg hcall]

/-- Another call cancels its timer. -/
@[simp] theorem call_cancelTimer_of_ne (hne : c ≠ d) :
    (s.cancelTimer d).call io c = s.call io c := by
  unfold State.cancelTimer
  split
  · exact call_setTimer_of_ne hne _
  · rfl

/-- The kernel's side of one descriptor changes. -/
theorem call_setKernel (s : State C) (fd : Int) (kernel : Kernel) (c : C) :
    (s.setKernel fd kernel).call io c =
      if fd = io.fd c then { s.call io c with kernel := kernel } else s.call io c := by
  by_cases hfd : fd = io.fd c
  · subst hfd
    have hself : (s.setKernel (io.fd c) kernel).kernel (io.fd c) = kernel :=
      Function.update_self ..
    rw [if_pos rfl]
    unfold State.call
    rw [hself]
    rfl
  · have hne : io.fd c ≠ fd := fun heq => hfd heq.symm
    rw [if_neg hfd]
    exact call_of_same rfl rfl rfl rfl rfl rfl (Function.update_of_ne hne _ _)

/-- One context changes. -/
theorem call_setWrite (s : State C) (fd : Int) (x : WriteContext C) (c : C) :
    (s.setWrite fd x).call io c =
      if fd = io.fd c then
        { s.call io c with registered := x.registers c, struck := x.strikes c, told := x.told }
      else s.call io c := by
  by_cases hfd : fd = io.fd c
  · subst hfd
    have hself : (s.setWrite (io.fd c) x).write (io.fd c) = x := Function.update_self ..
    rw [if_pos rfl]
    unfold State.call
    rw [hself]
    rfl
  · have hne : io.fd c ≠ fd := fun heq => hfd heq.symm
    rw [if_neg hfd]
    exact call_of_same rfl rfl rfl rfl (Function.update_of_ne hne _ _) rfl rfl

/-- A change of a context that the call does not see. -/
theorem call_setWrite_of_unseen {fd : Int} {x : WriteContext C}
    (h : fd = io.fd c → x.registers c = (s.write fd).registers c ∧
      x.strikes c = (s.write fd).strikes c ∧ x.told = (s.write fd).told) :
    (s.setWrite fd x).call io c = s.call io c := by
  rw [call_setWrite]
  split
  · rename_i hfd
    subst hfd
    obtain ⟨hregisters, hstrikes, htold⟩ := h rfl
    rw [hregisters, hstrikes, htold]
    rfl
  · rfl

/-- The call gets an entry in the queue. -/
@[simp] theorem call_schedule (s : State C) (c : C) :
    (s.schedule c).call io c = { s.call io c with scheduled := s.scheduled c + 1 } := by
  have hself : (s.schedule c).scheduled c = s.scheduled c + 1 := Function.update_self ..
  unfold State.call
  rw [hself]
  rfl

/-- Another call gets one. -/
@[simp] theorem call_schedule_of_ne (hne : c ≠ d) :
    (s.schedule d).call io c = s.call io c :=
  call_of_same rfl rfl rfl rfl rfl (Function.update_of_ne hne _ _) rfl

end Views

/-- A step of the call is its own. -/
theorem source_own (hactor : a.actor = some c) : a.source io c = .own a :=
  if_pos hactor

/-- A step that disturbs nobody is made by the world. -/
theorem source_world (hactor : a.actor ≠ some c) (hquiet : a.disturbs io c = false) :
    a.source io c = .world := by
  simp [Act.source, hactor, hquiet]

/-- A step of other code that disturbs the call is foreign. -/
theorem source_foreign (hactor : a.actor ≠ some c) (hdisturbs : a.disturbs io c = true) :
    a.source io c = .foreign := by
  simp [Act.source, hactor, hdisturbs]

/-- A step that leaves the call as it is. -/
theorem move_of_same (hactor : a.actor ≠ some c) (hsame : s'.call io c = s.call io c) :
    Move c (s.call io c) (a.source io c) (s'.call io c) := by
  rw [hsame]
  cases hdisturbs : a.disturbs io c with
  | false =>
      rw [source_world hactor hdisturbs]
      exact .unseen
  | true =>
      rw [source_foreign hactor hdisturbs]
      exact .missed

/-- A step of one call is a move of it, and the others see what they see of it. -/
theorem move_of_actor (hactor : a.actor = some d)
    (hown : Move d (s.call io d) (.own a) (s'.call io d))
    (hothers : d ≠ c → a.actor ≠ some c →
      Move c (s.call io c) (a.source io c) (s'.call io c)) :
    Move c (s.call io c) (a.source io c) (s'.call io c) := by
  by_cases hd : d = c
  · subst hd
    rw [source_own hactor]
    exact hown
  · refine hothers hd fun heq => hd ?_
    rw [hactor] at heq
    exact Option.some.inj heq

/-- A step of one call that the others do not see. -/
theorem move_of_own (hactor : a.actor = some d)
    (hown : Move d (s.call io d) (.own a) (s'.call io d))
    (hothers : d ≠ c → s'.call io c = s.call io c) :
    Move c (s.call io c) (a.source io c) (s'.call io c) :=
  move_of_actor hactor hown fun hd hnot => move_of_same hnot (hothers hd)

/-! ### The moves -/

omit [DecidableEq C] in
/-- What the checks on entry lead to. -/
theorem checks_cases {fds fds' : FdManager} {fd : Int} {hooked : Bool} {stat : FdStat}
    {phase : Phase} (h : checks fds fd hooked stat = some (phase, fds')) :
    phase = .passing ∨ phase = .calling ∨ phase = .returned (-1) .ebadf := by
  unfold checks at h
  split at h
  · cases h
    exact .inl rfl
  · split at h
    · cases h
    · cases h
      exact .inr (.inr rfl)
    · split at h
      · cases h
      · split at h
        · cases h
          exact .inr (.inr rfl)
        · split at h
          · cases h
            exact .inl rfl
          · split at h
            · cases h
              exact .inl rfl
            · cases h
              exact .inr (.inl rfl)

/-- The kernel's side of the descriptor changes with a step of another call. -/
theorem move_of_setKernel {fd : Int} {kernel : Kernel} (hactor : a.actor ≠ some c)
    (hdisturbs : fd = io.fd c → a.disturbs io c = true)
    (hcall : s'.call io c = (s.setKernel fd kernel).call io c) :
    Move c (s.call io c) (a.source io c) (s'.call io c) := by
  rw [call_setKernel] at hcall
  by_cases hfd : fd = io.fd c
  · rw [hcall, if_pos hfd, source_foreign hactor (hdisturbs hfd)]
    exact .touch
  · rw [if_neg hfd] at hcall
    exact move_of_same hactor hcall

omit [DecidableEq C] in
/-- With the event erased nobody is registered. -/
theorem registers_of_clear [DecidableEq C] {x : WriteContext C} (hevent : x.event = false)
    (c : C) : x.registers c = false ∧ x.strikes c = false := by
  simp [WriteContext.registers, WriteContext.strikes, hevent]

/-- The registration of the call is taken. -/
theorem call_take {fd : Int} (hregistered : (s.write fd).registers c = true)
    (hfd : fd = io.fd c) :
    (s.setWrite fd (s.write fd).take).call io c = { s.call io c with struck := true } := by
  subst hfd
  have hregisters : (s.write (io.fd c)).take.registers c = true := hregistered
  have hstrikes : (s.write (io.fd c)).take.strikes c = true := by
    rw [WriteContext.strikes, hregisters, Bool.true_and]
    exact decide_eq_true (Nat.succ_pos _)
  rw [call_setWrite, if_pos rfl, hregisters, hstrikes]
  simp only [State.call, hregistered]
  rfl

/-- The registration of another call is taken. -/
theorem call_take_of_not {fd : Int} (hnot : (s.write fd).registers c = false) :
    (s.setWrite fd (s.write fd).take).call io c = s.call io c := by
  have hregisters : (s.write fd).take.registers c = false := hnot
  refine call_setWrite_of_unseen fun _ => ⟨hregisters.trans hnot.symm, ?_, rfl⟩
  simp [WriteContext.strikes, hregisters, hnot]

/-- Who is registered is registered on the descriptor of its call. -/
theorem Orderly.fd_eq (h : Orderly io s) {fd : Int} (hregistered : (s.write fd).registers c = true) :
    fd = io.fd c := by
  obtain ⟨-, hcoroutine⟩ := Bool.and_eq_true_iff.mp hregistered
  exact (h fd).placed c (of_decide_eq_true hcoroutine)

/-- The event of the descriptor is cancelled by other code. -/
theorem move_of_take {fd : Int} (horderly : Orderly io s) (hactor : a.actor ≠ some c)
    (hdisturbs : fd = io.fd c → a.disturbs io c = true)
    (hcall : s'.call io c = (s.setWrite fd (s.write fd).take).call io c) :
    Move c (s.call io c) (a.source io c) (s'.call io c) := by
  cases hregistered : (s.write fd).registers c with
  | false => exact move_of_same hactor (hcall.trans (call_take_of_not hregistered))
  | true =>
      obtain rfl := horderly.fd_eq hregistered
      rw [hcall, call_take hregistered rfl, source_foreign hactor (hdisturbs rfl)]
      exact .take hregistered

/-- The event loop handles an event of the descriptor. -/
theorem move_of_handle (htold : 0 < (s.write (io.fd c)).told) :
    Move c (s.call io c) .world { s.call io c with
      registered := (s.write (io.fd c)).handle.registers c
      struck := (s.write (io.fd c)).handle.strikes c
      told := (s.write (io.fd c)).handle.told } := by
  have hregisters : (s.write (io.fd c)).handle.registers c = (s.write (io.fd c)).registers c := by
    unfold WriteContext.handle
    split <;> rfl
  have hless : (s.write (io.fd c)).handle.told = (s.write (io.fd c)).told - 1 := by
    unfold WriteContext.handle
    split <;> rfl
  rw [hless]
  cases hregistered : (s.write (io.fd c)).registers c with
  | true =>
      have hevent := (Bool.and_eq_true_iff.mp hregistered).1
      have hstrikes : (s.write (io.fd c)).handle.strikes c = true := by
        unfold WriteContext.strikes
        rw [hregisters, hregistered, WriteContext.handle, if_pos hevent]
        simp [WriteContext.take]
      rw [hregisters, hstrikes, hregistered]
      have hmove : Move c (s.call io c) .world { s.call io c with
          told := (s.write (io.fd c)).told - 1, struck := true } := .report htold hregistered
      simp only [State.call, hregistered] at hmove ⊢
      exact hmove
  | false =>
      have hstrikes : (s.write (io.fd c)).handle.strikes c = false := by
        unfold WriteContext.strikes
        rw [hregisters, hregistered, Bool.false_and]
      have hbefore : (s.write (io.fd c)).strikes c = false := by
        unfold WriteContext.strikes
        rw [hregistered, Bool.false_and]
      rw [hregisters, hstrikes, hregistered]
      have hmove : Move c (s.call io c) .world { s.call io c with
          told := (s.write (io.fd c)).told - 1 } := .passOver
      simp only [State.call, hregistered, hbefore] at hmove ⊢
      exact hmove

/-- What is registered is scheduled. -/
theorem move_of_trigger {fd : Int} (horderly : Orderly io s)
    (htriggering : 0 < (s.write fd).triggering) (hactor : a.actor ≠ some c)
    (hworld : a.source io c = .world) :
    Move c (s.call io c) (a.source io c) ((s.trigger fd).call io c) := by
  have hevent := (horderly fd).taken htriggering
  obtain ⟨hafter, hstrikesAfter⟩ :=
    registers_of_clear (x := (s.write fd).trigger) rfl c
  unfold State.trigger
  cases hcoroutine : (s.write fd).coroutine with
  | none => exact absurd hcoroutine ((horderly fd).held hevent).2
  | some d =>
      by_cases hd : d = c
      · subst hd
        obtain rfl := (horderly fd).placed d hcoroutine
        have hregistered : (s.write (io.fd d)).registers d = true := by
          simp [WriteContext.registers, hevent, hcoroutine]
        have hstruck : (s.write (io.fd d)).strikes d = true := by
          simp [WriteContext.strikes, hregistered, htriggering]
        rw [hworld]
        dsimp only
        rw [call_schedule, call_setWrite, if_pos rfl, hafter, hstrikesAfter]
        exact .trigger hstruck
      · have hnot : (s.write fd).registers c = false := by
          simp [WriteContext.registers, hcoroutine, hd]
        have hquiet : (s.write fd).strikes c = false := by
          simp [WriteContext.strikes, hnot]
        refine move_of_same hactor ((call_schedule_of_ne (Ne.symm hd)).trans ?_)
        exact call_setWrite_of_unseen fun _ =>
          ⟨hafter.trans hnot.symm, hstrikesAfter.trans hquiet.symm, rfl⟩

/-- A call enters. -/
theorem move_of_enter {hooked : Bool} {stat : FdStat}
    (hstep : step io s (.enter d hooked stat) = some s') :
    Move c (s.call io c) (Act.source io c (.enter d hooked stat)) (s'.call io c) := by
  obtain ⟨hphase, hmap⟩ := Option.ite_none_right_eq_some.mp hstep
  obtain ⟨⟨phase, fds⟩, hchecks, rfl⟩ := Option.map_eq_some_iff.mp hmap
  refine move_of_own rfl ?_ fun hd => ?_
  · rw [call_move]
    have hmove : Move d (s.call io d) (.own (.enter d hooked stat)) { s.call io d with
        phase := phase, timeout := (io.timeout d).getD s.connectTimeout
        cancelled := false } := .enter hphase (checks_cases hchecks)
    simp only [State.call, Function.update_self]
    exact hmove
  · refine (call_move_of_ne (Ne.symm hd) _).trans ?_
    exact call_of_same rfl (Function.update_of_ne (Ne.symm hd) _ _)
      (Function.update_of_ne (Ne.symm hd) _ _) rfl rfl rfl rfl

/-- A call makes the raw call. -/
theorem move_of_raw {answer : Answer} (hstep : step io s (.raw d answer) = some s') :
    Move c (s.call io c) (Act.source io c (.raw d answer)) (s'.call io c) := by
  obtain ⟨kernel, phase, hkernel, rfl, hphase⟩ :
      ∃ kernel phase, (s.kernel (io.fd d)).connect answer = some kernel ∧
        s' = (s.setKernel (io.fd d) kernel).move d phase ∧
        (s.phase d = .passing ∧ phase = .returned answer.result.1 answer.result.2 ∨
          s.phase d = .calling ∧ phase = afterRaw answer) := by
    unfold step at hstep
    dsimp only at hstep
    split at hstep
    · rename_i kernel hphase hkernel
      cases hstep
      exact ⟨kernel, _, hkernel, rfl, .inl ⟨hphase, rfl⟩⟩
    · rename_i kernel hphase hkernel
      cases hstep
      exact ⟨kernel, _, hkernel, rfl, .inr ⟨hphase, rfl⟩⟩
    · cases hstep
  refine move_of_actor rfl ?_ fun hd hnot => ?_
  · rw [call_move, call_setKernel, if_pos rfl]
    rcases hphase with ⟨hphase, rfl⟩ | ⟨hphase, rfl⟩
    · exact .pass hphase hkernel
    · exact .call hphase hkernel
  · refine move_of_setKernel hnot (fun hfd => ?_) (call_move_of_ne (Ne.symm hd) _)
    exact decide_eq_true ⟨hd, hfd⟩

/-- A call registers, or `addEvent` fails. -/
theorem move_of_addEvent {failed : Bool} (horderly : Orderly io s)
    (hstep : step io s (.addEvent d failed) = some s') :
    Move c (s.call io c) (Act.source io c (.addEvent d failed)) (s'.call io c) := by
  obtain ⟨⟨hphase, hclear⟩, hadd⟩ := Option.ite_none_right_eq_some.mp hstep
  cases failed with
  | true =>
      cases hadd
      refine move_of_own rfl ?_ fun hd => call_move_of_ne (Ne.symm hd) _
      rw [call_move]
      exact .fail hphase
  | false =>
      rw [if_neg Bool.false_ne_true] at hadd
      obtain ⟨-, heq⟩ := Option.ite_none_left_eq_some.mp hadd
      cases heq
      refine move_of_own rfl ?_ fun hd => ?_
      · rw [call_move, call_setWrite, if_pos rfl]
        -- nobody is on the way to an event that is not set
        have hfree : ¬ 0 < (s.write (io.fd d)).triggering := by
          intro hsome
          have hset := (horderly (io.fd d)).taken hsome
          simp [hclear] at hset
        have hregisters : ((s.write (io.fd d)).register d).registers d = true := by
          simp [WriteContext.register, WriteContext.registers]
        have hstrikes : ((s.write (io.fd d)).register d).strikes d = false := by
          simp only [WriteContext.strikes, WriteContext.register, hfree, decide_false,
            Bool.and_false]
        rw [hregisters, hstrikes]
        exact .register hphase
      · rw [call_move_of_ne (Ne.symm hd)]
        obtain ⟨hregisters, hstrikes⟩ := registers_of_clear hclear c
        have hother : ((s.write (io.fd d)).register d).registers c = false := by
          simp [WriteContext.registers, WriteContext.register, hd]
        refine call_setWrite_of_unseen fun _ => ⟨hother.trans hregisters.symm, ?_, rfl⟩
        rw [hstrikes, WriteContext.strikes, hother, Bool.false_and]

/-- The callback of a timer cancels the event of its descriptor. -/
theorem move_of_cancelEvent {ok : Bool} (horderly : Orderly io s)
    (hstep : step io s (.cancelEvent d ok) = some s') :
    Move c (s.call io c) (Act.source io c (.cancelEvent d ok)) (s'.call io c) := by
  obtain ⟨htimer, hcancel⟩ := Option.ite_none_right_eq_some.mp hstep
  split at hcancel
  · cases hcancel
    refine move_of_actor rfl ?_ fun hd hnot => ?_
    · rw [call_setTimer]
      cases hregistered : (s.write (io.fd d)).registers d with
      | true =>
          rw [call_take hregistered rfl]
          exact .strike htimer hregistered
      | false =>
          rw [call_take_of_not hregistered]
          exact .miss htimer
    · refine move_of_take horderly hnot (fun hfd => ?_) (call_setTimer_of_ne (Ne.symm hd) _)
      exact decide_eq_true ⟨hd, hfd⟩
  · cases hcancel
    refine move_of_own rfl ?_ fun hd => call_setTimer_of_ne (Ne.symm hd) _
    rw [call_setTimer]
    exact .miss htimer

/-- **Each step is a move** of each call. -/
theorem move_of_step (horderly : Orderly io s) (hapart : Apart io c s a)
    (hstep : Step io s a s') : Move c (s.call io c) (a.source io c) (s'.call io c) := by
  unfold Step at hstep
  cases a with
  | enter d hooked stat => exact move_of_enter hstep
  | raw d answer => exact move_of_raw hstep
  | arm d =>
      obtain ⟨hphase, harm⟩ := Option.ite_none_right_eq_some.mp hstep
      split at harm
      · cases harm
        refine move_of_own rfl ?_ fun hd => call_move_of_ne (Ne.symm hd) _
        rw [call_move]
        exact .skipTimer hphase
      · rename_i htimeout
        cases harm
        refine move_of_own rfl ?_ fun hd => ?_
        · rw [call_move, call_setTimer]
          exact .arm hphase htimeout
        · rw [call_move_of_ne (Ne.symm hd), call_setTimer_of_ne (Ne.symm hd)]
  | addEvent d failed => exact move_of_addEvent horderly hstep
  | undo d =>
      obtain ⟨hphase, heq⟩ := Option.ite_none_right_eq_some.mp hstep
      cases heq
      refine move_of_own rfl ?_ fun hd => ?_
      · rw [call_move, call_cancelTimer]
        exact .undo hphase
      · rw [call_move_of_ne (Ne.symm hd), call_cancelTimer_of_ne (Ne.symm hd)]
  | yield d =>
      obtain ⟨hphase, heq⟩ := Option.ite_none_right_eq_some.mp hstep
      cases heq
      refine move_of_own rfl ?_ fun hd => call_move_of_ne (Ne.symm hd) _
      rw [call_move]
      exact .yield hphase
  | resume d =>
      obtain ⟨⟨hphase, hscheduled⟩, heq⟩ := Option.ite_none_right_eq_some.mp hstep
      cases heq
      refine move_of_own rfl ?_ fun hd => ?_
      · rw [call_move]
        have hmove : Move d (s.call io d) (.own (.resume d)) { s.call io d with
            phase := .resumed, scheduled := s.scheduled d - 1 } := .resume hphase hscheduled
        simp only [State.call, Function.update_self]
        exact hmove
      · refine (call_move_of_ne (Ne.symm hd) _).trans ?_
        exact call_of_same rfl rfl rfl rfl rfl (Function.update_of_ne (Ne.symm hd) _ _) rfl
  | cancelTimer d =>
      obtain ⟨hphase, heq⟩ := Option.ite_none_right_eq_some.mp hstep
      cases heq
      refine move_of_own rfl ?_ fun hd => ?_
      · rw [call_move, call_cancelTimer]
        exact .cancelTimer hphase
      · rw [call_move_of_ne (Ne.symm hd), call_cancelTimer_of_ne (Ne.symm hd)]
  | test d =>
      obtain ⟨hphase, heq⟩ := Option.ite_none_right_eq_some.mp hstep
      cases heq
      refine move_of_own rfl ?_ fun hd => call_move_of_ne (Ne.symm hd) _
      rw [call_move]
      cases hcancelled : s.cancelled d with
      | true => exact .timedOut hphase hcancelled
      | false => exact .awake hphase hcancelled
  | sockopt d =>
      obtain ⟨hphase, heq⟩ := Option.ite_none_right_eq_some.mp hstep
      cases heq
      refine move_of_actor rfl ?_ fun hd hnot => ?_
      · rw [call_move, call_setKernel, if_pos rfl]
        exact .sockopt hphase
      · refine move_of_setKernel hnot (fun hfd => ?_) (call_move_of_ne (Ne.symm hd) _)
        exact decide_eq_true ⟨hd, hfd⟩
  | collect d =>
      obtain ⟨htimer, heq⟩ := Option.ite_none_right_eq_some.mp hstep
      cases heq
      refine move_of_own rfl ?_ fun hd => call_setTimer_of_ne (Ne.symm hd) _
      rw [call_setTimer]
      exact .collect htimer
  | guard d alive =>
      obtain ⟨⟨htimer, -⟩, heq⟩ := Option.ite_none_right_eq_some.mp hstep
      cases heq
      refine move_of_own rfl ?_ fun hd => call_setTimer_of_ne (Ne.symm hd) _
      rw [call_setTimer]
      refine .guard htimer ?_
      split
      · exact .inl rfl
      · exact .inr rfl
  | mark d =>
      obtain ⟨htimer, heq⟩ := Option.ite_none_right_eq_some.mp hstep
      cases heq
      refine move_of_own rfl ?_ fun hd => ?_
      · rw [call_setTimer]
        have hmove : Move d (s.call io d) (.own (.mark d)) { s.call io d with
            cancelled := true, timer := .marked } := .mark htimer
        simp only [State.call, Function.update_self]
        exact hmove
      · refine (call_setTimer_of_ne (Ne.symm hd) _).trans ?_
        exact call_of_same rfl rfl (Function.update_of_ne (Ne.symm hd) _ _) rfl rfl rfl rfl
  | cancelEvent d ok => exact move_of_cancelEvent horderly hstep
  | settle fd failed =>
      obtain ⟨kernel, hkernel, rfl⟩ := Option.map_eq_some_iff.mp hstep
      have hactor : (Act.settle fd failed : Act C).actor ≠ some c := by simp [Act.actor]
      by_cases hfd : fd = io.fd c
      · rw [source_world hactor rfl, call_setKernel, if_pos hfd]
        subst hfd
        exact .settle hkernel
      · exact move_of_same hactor ((call_setKernel s fd kernel c).trans (if_neg hfd))
  | epollWait fd =>
      obtain ⟨hready, heq⟩ := Option.ite_none_right_eq_some.mp hstep
      obtain ⟨-, hwritable⟩ := Bool.and_eq_true_iff.mp hready
      cases heq
      have hactor : (Act.epollWait fd : Act C).actor ≠ some c := by simp [Act.actor]
      by_cases hfd : fd = io.fd c
      · subst hfd
        rw [source_world hactor rfl, call_setWrite, if_pos rfl]
        exact .epollWait hwritable
      · exact move_of_same hactor (call_setWrite_of_unseen fun heq => absurd heq hfd)
  | report fd =>
      obtain ⟨htold, heq⟩ := Option.ite_none_right_eq_some.mp hstep
      cases heq
      have hactor : (Act.report fd : Act C).actor ≠ some c := by simp [Act.actor]
      by_cases hfd : fd = io.fd c
      · subst hfd
        rw [source_world hactor rfl, call_setWrite, if_pos rfl]
        exact move_of_handle htold
      · exact move_of_same hactor (call_setWrite_of_unseen fun heq => absurd heq hfd)
  | cancel fd =>
      obtain ⟨-, heq⟩ := Option.ite_none_right_eq_some.mp hstep
      cases heq
      have hactor : (Act.cancel fd : Act C).actor ≠ some c := by simp [Act.actor]
      exact move_of_take horderly hactor (fun hfd => decide_eq_true hfd) rfl
  | trigger fd =>
      obtain ⟨⟨htriggering, -⟩, heq⟩ := Option.ite_none_right_eq_some.mp hstep
      cases heq
      have hactor : (Act.trigger fd : Act C).actor ≠ some c := by simp [Act.actor]
      exact move_of_trigger horderly htriggering hactor rfl
  | forget fd =>
      obtain ⟨-, heq⟩ := Option.ite_none_right_eq_some.mp hstep
      cases heq
      have hactor : (Act.forget fd : Act C).actor ≠ some c := by simp [Act.actor]
      exact move_of_same hactor (call_setWrite_of_unseen fun _ => ⟨rfl, rfl, rfl⟩)
  | schedule d =>
      cases hstep
      have hd : d ≠ c := of_decide_eq_false hapart.2
      exact move_of_same (by simp [Act.actor]) (call_schedule_of_ne (Ne.symm hd))
  | close fd stat =>
      obtain ⟨fds, -, rfl⟩ := Option.map_eq_some_iff.mp hstep
      have hactor : (Act.close fd stat : Act C).actor ≠ some c := by simp [Act.actor]
      have hwritten : (({ s with fds := fds }).setWrite fd (s.write fd).close).call io c =
          s.call io c := call_setWrite_of_unseen fun _ => ⟨rfl, rfl, rfl⟩
      have hcall : (({ s with fds := fds }.setWrite fd (s.write fd).close).setKernel fd
          .closed).call io c = (s.setKernel fd .closed).call io c := by
        rw [call_setKernel, call_setKernel, hwritten]
      exact move_of_setKernel hactor (fun hfd => decide_eq_true hfd) hcall
  | opened fd stat =>
      obtain ⟨-, hmap⟩ := Option.ite_none_right_eq_some.mp hstep
      obtain ⟨r, -, rfl⟩ := Option.map_eq_some_iff.mp hmap
      have hactor : (Act.opened fd stat : Act C).actor ≠ some c := by simp [Act.actor]
      exact move_of_setKernel hactor (fun hfd => decide_eq_true hfd) rfl
  | soError fd =>
      cases hstep
      have hactor : (Act.soError fd : Act C).actor ≠ some c := by simp [Act.actor]
      exact move_of_setKernel hactor (fun hfd => decide_eq_true hfd) rfl
  | setUserNonblock fd stat v =>
      obtain ⟨fds, -, rfl⟩ := Option.map_eq_some_iff.mp hstep
      exact move_of_same (by simp [Act.actor]) rfl
  | setConnectTimeout ms =>
      cases hstep
      exact move_of_same (by simp [Act.actor]) rfl

end Steps

end Connect

end Agent
