import GServer.Library.Runs
import Mathlib.Data.Fintype.Basic
import Mathlib.Logic.Function.Basic

/-!
# Waiting for tasks

Without `m_idleFlag` the workers of `Scheduler::run` wait on `m_con` for a task or for
`stop`.  The predicate is evaluated under `m_uni_mutex`, and `m_con.wait` releases that
mutex as it blocks; but `schedule` and `stop` change what it reads under `m_mutex`, and
notify afterwards.  A notification that comes after the evaluation and before the
worker is blocked wakes nobody.

What the class adds to `stopping`, and when its `idle` returns, is left open: both come
with the steps.
-/

namespace Agent

open Runs

namespace Wait

/-- A task of the queue: the pick passes over a coroutine that is running. -/
inductive Task
  | coroutine
  | callback
deriving DecidableEq

/-- Where a worker is in `run`. -/
inductive Pc
  | outside
  | loop
  | lockUni
  | checking
  /-- The predicate was false; about to block. -/
  | deciding
  | blocked
  /-- Notified, or awake for no reason; about to take the mutex again. -/
  | notified
  | scanning
  | busy
  | idling
  | afterIdle
  | finished
deriving DecidableEq

/-- The worker is in the loop and not blocked. -/
def Pc.awake : Pc → Bool
  | .outside => false
  | .blocked => false
  | .notified => false
  | .finished => false
  | _ => true

/-- The queue and the workers.  `ones` counts the calls of `schedule` that have pushed
and are still to call `notify_one`, `alls` the calls of `stop` that are still to call
`notify_all`; `terminated` says that the worker's idle coroutine has. -/
structure State (W : Type) where
  queue : List Task
  stopping : Bool
  uniMutex : Option W
  pc : W → Pc
  terminated : W → Bool
  ones : Nat
  alls : Nat

/-- What happens next.  `more` is what the class's `stopping` asks besides; a coroutine
that is taken may have `ended`. -/
inductive Act (W : Type)
  | schedule (x : Option Task)
  | notifyOne (w : Option W)
  | stop
  | notifyAll
  | run (w : W)
  | loopTest (w : W) (more : Bool)
  | lock (w : W)
  | evaluate (w : W)
  | block (w : W)
  | spurious (w : W)
  | take (w : W) (i : Nat) (ended : Bool)
  | passOver (w : W)
  | finish (w : W)
  | idleEnds (w : W) (terminated : Bool)
  | idleTest (w : W) (more : Bool)

variable {W : Type}

/-- A new scheduler. -/
def start : State W :=
  { queue := [], stopping := false, uniMutex := none, pc := fun _ => .outside
    terminated := fun _ => false, ones := 0, alls := 0 }

/-- The predicate of `m_con.wait`, with `m_idleFlag` false. -/
def State.ready (s : State W) : Bool :=
  !s.queue.isEmpty || s.stopping

/-- `stopping`. -/
def State.stops (s : State W) (more : Bool) : Bool :=
  more && (s.stopping && s.queue.isEmpty)

section Steps

variable [DecidableEq W]

def State.move (s : State W) (w : W) (pc : Pc) : State W :=
  { s with pc := Function.update s.pc w pc }

/-- The idle branch of `run`. -/
def State.idleBranch (s : State W) (w : W) : State W :=
  if s.terminated w then s.move w .finished else s.move w .idling

def step (s : State W) : Act W → Option (State W)
  | .schedule x =>
      some { s with
        queue := s.queue ++ x.toList
        ones := if s.queue.isEmpty then s.ones + 1 else s.ones }
  | .notifyOne (some w) =>
      if 0 < s.ones ∧ s.pc w = .blocked then
        some ({ s with ones := s.ones - 1 }.move w .notified)
      else none
  | .notifyOne none => if 0 < s.ones then some { s with ones := s.ones - 1 } else none
  | .stop => some { s with stopping := true, alls := s.alls + 1 }
  | .notifyAll =>
      if 0 < s.alls then
        some { s with
          alls := s.alls - 1
          pc := fun w => if s.pc w = .blocked then .notified else s.pc w }
      else none
  | .run w => if s.pc w = .outside then some (s.move w .loop) else none
  | .loopTest w more =>
      if s.pc w = .loop then
        some (s.move w (if s.stops more then .finished else .lockUni))
      else none
  | .lock w =>
      if (s.pc w = .lockUni ∨ s.pc w = .notified) ∧ s.uniMutex = none then
        some ({ s with uniMutex := some w }.move w .checking)
      else none
  | .evaluate w =>
      if s.pc w = .checking then
        some (s.move w (if s.ready then .scanning else .deciding))
      else none
  | .block w =>
      if s.pc w = .deciding then some ({ s with uniMutex := none }.move w .blocked) else none
  | .spurious w => if s.pc w = .blocked then some (s.move w .notified) else none
  | .take w i ended =>
      if s.pc w = .scanning ∧ ∀ x ∈ s.queue.take i, x = .coroutine then
        match s.queue[i]? with
        | none => none
        | some x =>
            let s := { s with queue := s.queue.eraseIdx i, uniMutex := none }
            some (if x = .coroutine ∧ ended = true then s.idleBranch w else s.move w .busy)
      else none
  | .passOver w =>
      if s.pc w = .scanning ∧ ∀ x ∈ s.queue, x = .coroutine then
        some ({ s with uniMutex := none }.idleBranch w)
      else none
  | .finish w => if s.pc w = .busy then some (s.move w .loop) else none
  | .idleEnds w terminated =>
      if s.pc w = .idling then
        some ({ s with
          terminated := Function.update s.terminated w terminated }.move w .afterIdle)
      else none
  | .idleTest w more =>
      if s.pc w = .afterIdle then
        some (s.move w (if s.stops more then .finished else .loop))
      else none

end Steps

/-- `notify_one` wakes nobody only where nobody is blocked. -/
def Possible (s : State W) : Act W → Prop
  | .notifyOne none => ∀ w, s.pc w ≠ .blocked
  | _ => True

def Step [DecidableEq W] (s : State W) (a : Act W) (s' : State W) : Prop :=
  Possible s a ∧ step s a = some s'

/-- A notification is still to come, or has reached a worker that has not gone on yet. -/
def State.outstanding (s : State W) : Prop :=
  0 < s.ones ∨ 0 < s.alls ∨ ∃ w, s.pc w = .notified

/-- Where a worker is blocked, no notification is outstanding and nobody is awake in the
loop, there is no task and `stop` has not been called. -/
def NoneLost (s : State W) : Prop :=
  (∃ w, s.pc w = .blocked) → ¬ s.outstanding → (∀ w, (s.pc w).awake = false) →
    s.queue = [] ∧ s.stopping = false

/-- Somebody will look at the queue: a notification is outstanding, or a worker other
than `w` is awake in the loop. -/
def State.attendedBeside (s : State W) (w : W) : Prop :=
  s.outstanding ∨ ∃ u, u ≠ w ∧ (s.pc u).awake = true

/-- A worker blocks only where the predicate is still false, or others attend to what
has come since: somebody is awake for the tasks, and the `notify_all` of `stop` is still
to come.  A worker whose idle coroutine has terminated does not leave tasks behind that
nobody attends to. -/
def Attentive (s : State W) : Act W → Prop
  | .block w =>
      (s.queue = [] ∨ s.attendedBeside w) ∧ (s.stopping = false ∨ 0 < s.alls)
  | .take w i ended =>
      s.queue[i]? = some .coroutine → ended = true → s.terminated w = true →
        s.queue.eraseIdx i = [] ∨ s.attendedBeside w
  | .passOver w => s.terminated w = true → s.queue = [] ∨ s.attendedBeside w
  | _ => True

/-! ## What a step preserves -/

/-- Somebody attends to the queue. -/
def State.attended (s : State W) : Prop :=
  s.outstanding ∨ ∃ w, (s.pc w).awake = true

/-- Where a worker is blocked, tasks are attended to, and the `notify_all` of a `stop` is
still to come. -/
structure Inv (s : State W) : Prop where
  queue : s.queue = [] ∨ s.attended ∨ ∀ w, s.pc w ≠ .blocked
  stopping : s.stopping = false ∨ 0 < s.alls ∨ ∀ w, s.pc w ≠ .blocked

/-- Nobody waits at the start. -/
theorem inv_start : Inv (start : State W) where
  queue := Or.inl rfl
  stopping := Or.inl rfl

/-- The invariant says that no wake-up is lost. -/
theorem Inv.noneLost {s : State W} (h : Inv s) : NoneLost s := by
  rintro ⟨w, hw⟩ hnone hasleep
  constructor
  · rcases h.queue with hempty | (hout | ⟨u, hu⟩) | hfree
    · exact hempty
    · exact absurd hout hnone
    · rw [hasleep u] at hu
      cases hu
    · exact absurd hw (hfree w)
  · rcases h.stopping with hrunning | halls | hfree
    · exact hrunning
    · exact absurd (Or.inr (Or.inl halls)) hnone
    · exact absurd hw (hfree w)

section Preserves

variable [DecidableEq W] {s : State W} {w : W}

/-- A worker that goes on is not blocked. -/
theorem not_blocked_of_update {pc : W → Pc} {p : Pc} (hp : p ≠ .blocked)
    (h : ∀ u, pc u ≠ .blocked) : ∀ u, Function.update pc w p u ≠ .blocked :=
  (Function.forall_update_iff pc fun _ q => q ≠ .blocked).mpr ⟨hp, fun u _ => h u⟩

/-- A worker that is not blocked goes on, and is awake or notified afterwards. -/
theorem Inv.goOn (h : Inv s) {s' : State W} {p : Pc} (hpc : s'.pc = Function.update s.pc w p)
    (hp : p.awake = true ∨ p = .notified) (hstopping : s'.stopping = s.stopping)
    (halls : s'.alls = s.alls) : Inv s' := by
  have hself : s'.pc w = p := by rw [hpc, Function.update_self]
  have hne : p ≠ .blocked := by
    intro heq
    subst heq
    rcases hp with hp | hp <;> cases hp
  refine ⟨Or.inr (Or.inl ?_), ?_⟩
  · rcases hp with hp | hp
    · exact Or.inr ⟨w, by rw [hself, hp]⟩
    · exact Or.inl (Or.inr (Or.inr ⟨w, by rw [hself, hp]⟩))
  · rw [hstopping, halls, hpc]
    rcases h.stopping with hrunning | hall | hfree
    · exact Or.inl hrunning
    · exact Or.inr (Or.inl hall)
    · exact Or.inr (Or.inr (not_blocked_of_update hne hfree))

/-- Whoever is beside a worker still attends after it has gone on. -/
theorem attended_of_beside {s' : State W} {p : Pc} (hpc : s'.pc = Function.update s.pc w p)
    (hw : s.pc w ≠ .notified) (hones : s'.ones = s.ones) (halls : s'.alls = s.alls)
    (h : s.attendedBeside w) : s'.attended := by
  rcases h with (hone | hall | ⟨u, hu⟩) | ⟨u, hne, hu⟩
  · exact Or.inl (Or.inl (hones ▸ hone))
  · exact Or.inl (Or.inr (Or.inl (halls ▸ hall)))
  · have hne : u ≠ w := by
      intro heq
      exact hw (heq ▸ hu)
    refine Or.inl (Or.inr (Or.inr ⟨u, ?_⟩))
    rw [hpc, Function.update_of_ne hne, hu]
  · refine Or.inr ⟨u, ?_⟩
    rw [hpc, Function.update_of_ne hne, hu]

/-- A worker leaves, with the tasks in `rest` attended to. -/
theorem Inv.leave (h : Inv s) {s' : State W} (hpc : s'.pc = Function.update s.pc w .finished)
    (hw : s.pc w ≠ .notified) (hones : s'.ones = s.ones) (halls : s'.alls = s.alls)
    (hstopping : s'.stopping = s.stopping) (hrest : s'.queue = [] ∨ s.attendedBeside w) :
    Inv s' := by
  constructor
  · rcases hrest with hempty | hbeside
    · exact Or.inl hempty
    · exact Or.inr (Or.inl (attended_of_beside hpc hw hones halls hbeside))
  · rw [hstopping, halls, hpc]
    rcases h.stopping with hrunning | hall | hfree
    · exact Or.inl hrunning
    · exact Or.inr (Or.inl hall)
    · exact Or.inr (Or.inr (not_blocked_of_update nofun hfree))

/-- A worker that goes into its idle branch keeps the invariant. -/
theorem Inv.idleBranch (h : Inv s) {r : State W} (hpc : r.pc = s.pc)
    (hw : s.pc w ≠ .notified) (hones : r.ones = s.ones) (halls : r.alls = s.alls)
    (hstopping : r.stopping = s.stopping) (hterminated : r.terminated = s.terminated)
    (hrest : s.terminated w = true → r.queue = [] ∨ s.attendedBeside w) :
    Inv (r.idleBranch w) := by
  unfold State.idleBranch
  split
  · rename_i hterm
    refine h.leave (w := w) ?_ hw hones halls hstopping (hrest (hterminated ▸ hterm))
    rw [← hpc]
    rfl
  · refine h.goOn (w := w) (p := .idling) ?_ (Or.inl rfl) hstopping halls
    rw [← hpc]
    rfl

omit [DecidableEq W] in
/-- A scheduler that stops has no tasks. -/
theorem queue_of_stops {more : Bool} (h : s.stops more = true) : s.queue = [] := by
  simp only [State.stops, Bool.and_eq_true, List.isEmpty_iff] at h
  exact h.2.2

omit [DecidableEq W] in
/-- `schedule` owes a notification where the queue was empty. -/
theorem Inv.schedule (h : Inv s) {s' : State W}
    (hones : s'.ones = if s.queue.isEmpty then s.ones + 1 else s.ones)
    (hpc : s'.pc = s.pc) (halls : s'.alls = s.alls) (hstopping : s'.stopping = s.stopping) :
    Inv s' := by
  constructor
  · by_cases hempty : s.queue = []
    · refine Or.inr (Or.inl (Or.inl (Or.inl ?_)))
      simp [hones, hempty]
    · have hsame : s'.ones = s.ones := by simp [hones, hempty]
      rcases h.queue with hq | (hout | hawake) | hfree
      · exact absurd hq hempty
      · refine Or.inr (Or.inl (Or.inl ?_))
        rwa [State.outstanding, hsame, halls, hpc]
      · exact Or.inr (Or.inl (Or.inr (hpc ▸ hawake)))
      · exact Or.inr (Or.inr (hpc ▸ hfree))
  · rw [hstopping, halls, hpc]
    exact h.stopping

omit [DecidableEq W] in
/-- Where nobody is blocked there is nothing to keep. -/
theorem inv_of_free (h : ∀ w, s.pc w ≠ .blocked) : Inv s :=
  ⟨Or.inr (Or.inr h), Or.inr (Or.inr h)⟩

/-- A worker blocks where others attend to what has come since its predicate was
false. -/
theorem Inv.block (hw : s.pc w = .deciding) (hguard : Attentive s (.block w)) :
    Inv ({ s with uniMutex := none }.move w .blocked) := by
  obtain ⟨hqueue, hstop⟩ := hguard
  constructor
  · rcases hqueue with hempty | hbeside
    · exact Or.inl hempty
    · exact Or.inr (Or.inl (attended_of_beside rfl (by simp [hw]) rfl rfl hbeside))
  · rcases hstop with hrunning | hall
    · exact Or.inl hrunning
    · exact Or.inr (Or.inl hall)

/-- A worker that has asked `stopping` leaves or goes on. -/
theorem Inv.asked (h : Inv s) {more : Bool} {p : Pc} (hw : s.pc w ≠ .notified)
    (hp : p.awake = true) : Inv (s.move w (if s.stops more then .finished else p)) := by
  split
  · rename_i hstops
    exact h.leave rfl hw rfl rfl rfl (Or.inl (queue_of_stops hstops))
  · exact h.goOn (w := w) rfl (Or.inl hp) rfl rfl

/-- A step under the guard keeps the invariant. -/
theorem inv_step {s' : State W} {a : Act W} (h : Inv s) (hguard : Attentive s a)
    (hstep : Step s a s') : Inv s' := by
  obtain ⟨hpossible, hstep⟩ := hstep
  unfold step at hstep
  cases a with
  | schedule x =>
      cases hstep
      exact h.schedule rfl rfl rfl rfl
  | notifyOne o =>
      cases o with
      | some w =>
          obtain ⟨-, heq⟩ := Option.ite_none_right_eq_some.mp hstep
          cases heq
          exact h.goOn (w := w) rfl (Or.inr rfl) rfl rfl
      | none =>
          obtain ⟨-, heq⟩ := Option.ite_none_right_eq_some.mp hstep
          cases heq
          exact inv_of_free hpossible
  | stop =>
      cases hstep
      refine ⟨?_, Or.inr (Or.inl (Nat.succ_pos _))⟩
      exact Or.inr (Or.inl (Or.inl (Or.inr (Or.inl (Nat.succ_pos _)))))
  | notifyAll =>
      obtain ⟨-, heq⟩ := Option.ite_none_right_eq_some.mp hstep
      cases heq
      apply inv_of_free
      intro w
      dsimp only
      split
      · nofun
      · assumption
  | run w | lock w | finish w | idleEnds w terminated =>
      obtain ⟨-, heq⟩ := Option.ite_none_right_eq_some.mp hstep
      cases heq
      exact h.goOn (w := w) rfl (Or.inl rfl) rfl rfl
  | spurious w =>
      obtain ⟨-, heq⟩ := Option.ite_none_right_eq_some.mp hstep
      cases heq
      exact h.goOn (w := w) rfl (Or.inr rfl) rfl rfl
  | evaluate w =>
      obtain ⟨-, heq⟩ := Option.ite_none_right_eq_some.mp hstep
      cases heq
      split
      · exact h.goOn (w := w) rfl (Or.inl rfl) rfl rfl
      · exact h.goOn (w := w) rfl (Or.inl rfl) rfl rfl
  | block w =>
      obtain ⟨hpc, heq⟩ := Option.ite_none_right_eq_some.mp hstep
      cases heq
      exact Inv.block hpc hguard
  | take w i ended =>
      obtain ⟨hscan, heq⟩ := Option.ite_none_right_eq_some.mp hstep
      split at heq
      · cases heq
      · rename_i x hx
        cases heq
        split
        · rename_i hended
          refine h.idleBranch rfl (by simp [hscan.1]) rfl rfl rfl rfl ?_
          exact hguard (hended.1 ▸ hx) hended.2
        · exact h.goOn (w := w) rfl (Or.inl rfl) rfl rfl
  | passOver w =>
      obtain ⟨hscan, heq⟩ := Option.ite_none_right_eq_some.mp hstep
      cases heq
      exact h.idleBranch rfl (by simp [hscan.1]) rfl rfl rfl rfl hguard
  | loopTest w more =>
      obtain ⟨hpc, heq⟩ := Option.ite_none_right_eq_some.mp hstep
      cases heq
      exact h.asked (by simp [hpc]) rfl
  | idleTest w more =>
      obtain ⟨hpc, heq⟩ := Option.ite_none_right_eq_some.mp hstep
      cases heq
      exact h.asked (by simp [hpc]) rfl

/-- **No lost wake-up.**  For any number of workers, in every run in which a worker blocks
only where its predicate is still false or others attend to what has come since, and none
leaves unattended tasks behind: where a worker is blocked, no notification is outstanding
and nobody is awake in the loop, there is no task and `stop` has not been called. -/
theorem reachable_noneLost (h : ReachableUnder (· = start) Step Attentive s) : NoneLost s := by
  refine (h.invariant (I := Inv) ?_ ?_).noneLost
  · intro s hs
    subst hs
    exact inv_start
  · intro s a s' hs hguard hstep
    exact inv_step hs hguard hstep

end Preserves

section Runs

variable [Fintype W] [DecidableEq W]

instance (s : State W) : Decidable s.outstanding :=
  inferInstanceAs (Decidable (_ ∨ _ ∨ ∃ w, s.pc w = .notified))

instance (s : State W) (w : W) : Decidable (s.attendedBeside w) :=
  inferInstanceAs (Decidable (_ ∨ ∃ u, u ≠ w ∧ (s.pc u).awake = true))

instance (s : State W) : DecidablePred (Attentive s) := fun a => by
  cases a with
  | block w => exact inferInstanceAs (Decidable (_ ∧ _))
  | take w i ended => exact inferInstanceAs (Decidable (_ → _ → _ → _))
  | passOver w => exact inferInstanceAs (Decidable (_ → _))
  | _ => exact inferInstanceAs (Decidable True)

instance (s : State W) : DecidablePred (Possible s) := fun a => by
  cases a with
  | notifyOne o =>
      cases o with
      | none => exact inferInstanceAs (Decidable (∀ w, s.pc w ≠ .blocked))
      | some w => exact inferInstanceAs (Decidable True)
  | _ => exact inferInstanceAs (Decidable True)

/-- A step, if it is possible. -/
def stepIf (s : State W) (a : Act W) : Option (State W) :=
  if Possible s a then step s a else none

theorem step_of_stepIf {s s' : State W} {a : Act W} (h : stepIf s a = some s') : Step s a s' :=
  Option.ite_none_right_eq_some.mp h

end Runs

/-- The worker goes from the test of the loop to the evaluation of its predicate. -/
def comesToWait : List (Act Unit) :=
  [.loopTest () true, .lock (), .evaluate ()]

/-- The task and its notification come before the worker is blocked. -/
theorem early_notification_is_lost :
    ¬ ∀ s : State Unit, Reachable (· = start) Step s → NoneLost s := by
  intro hall
  let acts := .run () :: comesToWait ++ [.schedule (some .callback), .notifyOne none, .block ()]
  obtain ⟨s, hreach, hview⟩ : ∃ s : State Unit, Reachable (· = start) Step s ∧
      (s.queue, s.pc (), s.ones, s.alls) = ([.callback], .blocked, 0, 0) :=
    exists_view rfl (fun _ _ _ h => ⟨trivial, step_of_stepIf h⟩) acts (by decide)
  simp only [Prod.mk.injEq] at hview
  obtain ⟨hqueue, hpc, hones, halls⟩ := hview
  have hnone : ¬ s.outstanding := by
    rintro (hone | hall | ⟨w, hw⟩)
    · omega
    · omega
    · rw [hpc] at hw
      cases hw
  have hlost := hall s hreach ⟨(), hpc⟩ hnone fun w => by rw [hpc, Pc.awake]
  rw [hqueue] at hlost
  cases hlost.1

/-- The task comes while the worker is blocked: it is taken, and the worker blocks again. -/
theorem reachable_noneLost_of_late_task :
    ∃ s : State Unit, ReachableUnder (· = start) Step Attentive s ∧
      (s.queue, s.pc ()) = ([], .blocked) ∧ NoneLost s := by
  let acts := .run () :: comesToWait ++ [.block (), .schedule (some .callback),
    .notifyOne (some ()), .lock (), .evaluate (), .take () 0 false, .finish ()] ++
    comesToWait ++ [.block ()]
  obtain ⟨s, hreach, hview⟩ : ∃ s : State Unit, ReachableUnder (· = start) Step Attentive s ∧
      (s.queue, s.pc ()) = ([], .blocked) :=
    exists_guarded_view rfl (fun _ _ _ h => step_of_stepIf h) acts (by decide)
  exact ⟨s, hreach, hview, reachable_noneLost hreach⟩

end Wait

end Agent
