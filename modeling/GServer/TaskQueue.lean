import Mathlib.Data.List.Induction
import Mathlib.Data.List.Perm.Basic

/-!
# The task queue of the scheduler

`Scheduler::schedule` appends tasks to the list `m_coroutines`, and drops those that
hold nothing.  A task is a coroutine or a callback, and may be pinned to a thread.
`Scheduler::run` takes the first task of the list that is not pinned to another
thread and whose coroutine is not executing, from wherever it stands.

A call of `schedule` and a pick are one step each.  The tasks that were taken are
recorded with the threads that took them.
-/

namespace Agent

namespace TaskQueue

/-- What `schedule` is given: a `Coroutine::ptr` or a `std::function`, which may be
null. -/
inductive CorOrCb (Co Cb : Type)
  | coroutine (c : Option Co)
  | cb (f : Option Cb)
deriving DecidableEq

/-- `CoroutineAndThread`. -/
structure CoroutineAndThread (Co Cb : Type) where
  coroutine : Option Co
  cb : Option Cb
  threadId : Int
deriving DecidableEq

variable {Co Cb : Type}

/-- `CoroutineAndThread(cc, thread)`. -/
def CoroutineAndThread.new (thread : Int) : CorOrCb Co Cb → CoroutineAndThread Co Cb
  | .coroutine c => { coroutine := c, cb := none, threadId := thread }
  | .cb f => { coroutine := none, cb := f, threadId := thread }

/-- `ct.coroutine || ct.cb`. -/
def CoroutineAndThread.holds (ct : CoroutineAndThread Co Cb) : Bool :=
  ct.coroutine.isSome || ct.cb.isSome

/-- What a pointer to a task points to once it has been swapped into a
`CoroutineAndThread`. -/
def CorOrCb.swapped : CorOrCb Co Cb → CorOrCb Co Cb
  | .coroutine _ => .coroutine none
  | .cb _ => .cb none

/-- `Scheduler::scheduleNoLock`: `need_tickle` and the queue. -/
def scheduleNoLock (coroutines : List (CoroutineAndThread Co Cb)) (cc : CorOrCb Co Cb)
    (thread : Int) : Bool × List (CoroutineAndThread Co Cb) :=
  let ct := CoroutineAndThread.new thread cc
  (coroutines.isEmpty, if ct.holds then coroutines ++ [ct] else coroutines)

/-- `Scheduler::schedule` on a range: `need_tickle`, the queue and what is left in the
range. -/
def scheduleRange (coroutines : List (CoroutineAndThread Co Cb)) :
    List (CorOrCb Co Cb) → Bool × List (CoroutineAndThread Co Cb) × List (CorOrCb Co Cb)
  | [] => (false, coroutines, [])
  | cc :: rest =>
      let first := scheduleNoLock coroutines cc (-1)
      let others := scheduleRange first.2 rest
      (first.1 || others.1, others.2.1, cc.swapped :: others.2.2)

/-- The loop of `Scheduler::run` over the queue: the task it takes, if any, and the
queue it leaves; `none` where `AGENT_ASSERT(it -> coroutine || it -> cb)` fails.
`exec` tells which coroutines are in state `EXEC`. -/
def pick (thread : Int) (exec : Co → Bool) :
    List (CoroutineAndThread Co Cb) →
      Option (Option (CoroutineAndThread Co Cb) × List (CoroutineAndThread Co Cb))
  | [] => some (none, [])
  | it :: rest =>
      let skip := (pick thread exec rest).map fun r => (r.1, it :: r.2)
      if it.threadId ≠ -1 ∧ it.threadId ≠ thread then skip
      else if !it.holds then none
      else if it.coroutine.any exec then skip
      else some (some it, rest)

/-- The queue, and the tasks that have been taken with the threads that took them. -/
structure State (Co Cb : Type) where
  coroutines : List (CoroutineAndThread Co Cb)
  taken : List (Int × CoroutineAndThread Co Cb)

/-- A call of `schedule`, or a pick by the worker of a thread while the coroutines of
`exec` are executing. -/
inductive Act (Co Cb : Type)
  | schedule (cc : CorOrCb Co Cb) (thread : Int)
  | scheduleRange (range : List (CorOrCb Co Cb))
  | pick (thread : Int) (exec : Co → Bool)

/-- An empty queue. -/
def start : State Co Cb :=
  { coroutines := [], taken := [] }

/-- One step; `none` where the assertion fails. -/
def step (s : State Co Cb) : Act Co Cb → Option (State Co Cb)
  | .schedule cc thread =>
      some { s with coroutines := (scheduleNoLock s.coroutines cc thread).2 }
  | .scheduleRange range =>
      some { s with coroutines := (scheduleRange s.coroutines range).2.1 }
  | .pick thread exec =>
      (pick thread exec s.coroutines).map fun r =>
        { coroutines := r.2
          taken := s.taken ++ (r.1.map fun ct => (thread, ct)).toList }

/-! ## The discipline -/

/-- The task that a caller asks for: the coroutine or the callback it passes, for the
thread it names.  A null one asks for nothing. -/
def CorOrCb.task (thread : Int) : CorOrCb Co Cb → Option (CoroutineAndThread Co Cb)
  | .coroutine (some c) => some ⟨some c, none, thread⟩
  | .cb (some f) => some ⟨none, some f, thread⟩
  | .coroutine none => none
  | .cb none => none

/-- The tasks that a call asks for; those of a range are for any thread. -/
def Act.offers : Act Co Cb → List (CoroutineAndThread Co Cb)
  | .schedule cc thread => (cc.task thread).toList
  | .scheduleRange range => range.filterMap (CorOrCb.task (-1))
  | .pick _ _ => []

/-- All the tasks of a sequence of calls, in their order. -/
def offered (acts : List (Act Co Cb)) : List (CoroutineAndThread Co Cb) :=
  acts.flatMap Act.offers

/-- The worker of the thread may take the task. -/
def Eligible (thread : Int) (exec : Co → Bool) (ct : CoroutineAndThread Co Cb) : Prop :=
  (ct.threadId = -1 ∨ ct.threadId = thread) ∧ ∀ c, ct.coroutine = some c → exec c = false

/-- A pick takes the first task that the worker may take, if there is one, and leaves
the others as they are. -/
def TakesOldest (s : State Co Cb) (thread : Int) (exec : Co → Bool) : Prop :=
  (step s (.pick thread exec) = some s ∧ ∀ ct ∈ s.coroutines, ¬ Eligible thread exec ct) ∨
  ∃ before ct after, s.coroutines = before ++ ct :: after ∧ Eligible thread exec ct ∧
    (∀ older ∈ before, ¬ Eligible thread exec older) ∧
    step s (.pick thread exec) =
      some { coroutines := before ++ after, taken := s.taken ++ [(thread, ct)] }

/-- After the calls and picks: every task that was passed on has been taken once or is
queued, and nothing else; the queue is in the order of the calls; a pinned task was taken
by its own thread; and a worker that picks takes the oldest task it may take. -/
structure Disciplined (acts : List (Act Co Cb)) (s : State Co Cb) : Prop where
  once : (s.taken.map Prod.snd ++ s.coroutines).Perm (offered acts)
  ordered : s.coroutines.Sublist (offered acts)
  pinned : ∀ t ∈ s.taken, t.2.threadId = -1 ∨ t.2.threadId = t.1
  oldest : ∀ thread exec, TakesOldest s thread exec

/-! ## The operations -/

instance (thread : Int) (exec : Co → Bool) (ct : CoroutineAndThread Co Cb) :
    Decidable (Eligible thread exec ct) :=
  decidable_of_iff ((ct.threadId = -1 ∨ ct.threadId = thread) ∧ ct.coroutine.any exec = false)
    (by cases h : ct.coroutine <;> simp [Eligible, h])

/-- Null callbacks and coroutines are dropped, the others appended as the tasks that the
caller asks for. -/
theorem scheduleNoLock_eq (coroutines : List (CoroutineAndThread Co Cb)) (cc : CorOrCb Co Cb)
    (thread : Int) :
    (scheduleNoLock coroutines cc thread).2 = coroutines ++ (cc.task thread).toList := by
  cases cc with
  | coroutine c =>
      cases c with
      | none => exact (List.append_nil coroutines).symm
      | some c => rfl
  | cb f =>
      cases f with
      | none => exact (List.append_nil coroutines).symm
      | some f => rfl

/-- A range is appended in its order, and what it held is moved out of it. -/
theorem scheduleRange_eq (range : List (CorOrCb Co Cb)) :
    ∀ coroutines : List (CoroutineAndThread Co Cb), (scheduleRange coroutines range).2 =
      (coroutines ++ range.filterMap (CorOrCb.task (-1)), range.map CorOrCb.swapped) := by
  induction range with
  | nil => simp [scheduleRange]
  | cons cc rest ih =>
      intro coroutines
      simp only [scheduleRange, ih, scheduleNoLock_eq, List.map_cons, List.append_assoc]
      cases htask : cc.task (-1) with
      | none => rw [List.filterMap_cons_none htask, Option.toList_none, List.nil_append]
      | some ct =>
          rw [List.filterMap_cons_some htask, Option.toList_some, List.singleton_append]

/-- The loop takes the first task that the worker may take. -/
theorem pick_eq {coroutines : List (CoroutineAndThread Co Cb)}
    (hholds : ∀ ct ∈ coroutines, ct.holds = true) (thread : Int) (exec : Co → Bool) :
    pick thread exec coroutines =
      some (coroutines.find? (fun ct => decide (Eligible thread exec ct)),
        coroutines.eraseP (fun ct => decide (Eligible thread exec ct))) := by
  induction coroutines with
  | nil => rfl
  | cons it rest ih =>
      have hrest := ih fun ct hct => hholds ct (List.mem_cons_of_mem it hct)
      have hit : ¬ (!it.holds) = true := by simp [hholds it List.mem_cons_self]
      unfold pick
      simp only [hrest, Option.map_some, if_neg hit]
      by_cases hpinned : it.threadId ≠ -1 ∧ it.threadId ≠ thread
      · have hnot : ¬ Eligible thread exec it := fun h => by
          rcases h.1 with h | h
          · exact hpinned.1 h
          · exact hpinned.2 h
        simp [hpinned, hnot]
      · have hmine : it.threadId = -1 ∨ it.threadId = thread := by
          by_contra h
          exact hpinned (not_or.mp h)
        rw [if_neg hpinned]
        cases hexec : it.coroutine.any exec with
        | true =>
            have hnot : ¬ Eligible thread exec it := by
              intro h
              obtain ⟨c, hc, hrun⟩ := (Option.any_eq_true _ _).mp hexec
              simp [h.2 c hc] at hrun
            simp [hnot]
        | false =>
            have hyes : Eligible thread exec it := by
              refine ⟨hmine, fun c hc => ?_⟩
              simpa [hc] using hexec
            simp [hyes]

/-- A pick takes the oldest task it may take. -/
theorem takesOldest {s : State Co Cb} (hholds : ∀ ct ∈ s.coroutines, ct.holds = true)
    (thread : Int) (exec : Co → Bool) : TakesOldest s thread exec := by
  have hpick := pick_eq hholds thread exec
  by_cases hnone : ∃ ct ∈ s.coroutines, Eligible thread exec ct
  · obtain ⟨ct, hct, helig⟩ := hnone
    obtain ⟨ct, before, after, hbefore, hsome, hsplit, herase⟩ :=
      List.exists_of_eraseP (p := fun ct => decide (Eligible thread exec ct)) hct
        (decide_eq_true helig)
    have hbefore' : ∀ older ∈ before, ¬ Eligible thread exec older := fun older holder =>
      of_decide_eq_false (by simpa using hbefore older holder)
    have hfind : s.coroutines.find? (fun ct => decide (Eligible thread exec ct)) = some ct := by
      rw [hsplit, List.find?_append, List.find?_eq_none.mpr hbefore]
      simp [of_decide_eq_true hsome]
    refine Or.inr ⟨before, ct, after, hsplit, of_decide_eq_true hsome, hbefore', ?_⟩
    simp [step, hpick, hfind, herase]
  · have hall : ∀ ct ∈ s.coroutines, ¬ Eligible thread exec ct := fun ct hct helig =>
      hnone ⟨ct, hct, helig⟩
    have hfind : s.coroutines.find? (fun ct => decide (Eligible thread exec ct)) = none :=
      List.find?_eq_none.mpr fun ct hct => by simpa using hall ct hct
    have herase : s.coroutines.eraseP (fun ct => decide (Eligible thread exec ct)) =
        s.coroutines :=
      List.eraseP_of_forall_not fun ct hct => by simpa using hall ct hct
    refine Or.inl ⟨?_, hall⟩
    simp [step, hpick, hfind, herase]

/-- What a step does: it appends what it is offered, or it moves one task out of the
queue. -/
theorem step_cases {s : State Co Cb} (hholds : ∀ ct ∈ s.coroutines, ct.holds = true)
    (a : Act Co Cb) :
    step s a = some { s with coroutines := s.coroutines ++ a.offers } ∨
    ∃ thread before ct after, a.offers = [] ∧ s.coroutines = before ++ ct :: after ∧
      (ct.threadId = -1 ∨ ct.threadId = thread) ∧
      step s a = some { coroutines := before ++ after, taken := s.taken ++ [(thread, ct)] } := by
  cases a with
  | schedule cc thread =>
      refine Or.inl ?_
      simp only [step, Act.offers, scheduleNoLock_eq]
  | scheduleRange range =>
      refine Or.inl ?_
      simp only [step, Act.offers, scheduleRange_eq]
  | pick thread exec =>
      rcases takesOldest hholds thread exec with ⟨hstep, -⟩ |
        ⟨before, ct, after, hsplit, helig, -, hstep⟩
      · refine Or.inl ?_
        rw [hstep, Act.offers, List.append_nil]
      · exact Or.inr ⟨thread, before, ct, after, rfl, hsplit, helig.1, hstep⟩

/-- A task that is asked for passes the assertion of `run`. -/
theorem holds_of_task {thread : Int} {cc : CorOrCb Co Cb} {ct : CoroutineAndThread Co Cb}
    (h : cc.task thread = some ct) : ct.holds = true := by
  cases cc with
  | coroutine c =>
      cases c with
      | none => cases h
      | some c =>
          cases h
          rfl
  | cb f =>
      cases f with
      | none => cases h
      | some f =>
          cases h
          rfl

/-- What is offered is a task. -/
theorem holds_of_offers {a : Act Co Cb} {ct : CoroutineAndThread Co Cb}
    (h : ct ∈ a.offers) : ct.holds = true := by
  cases a with
  | schedule cc thread => exact holds_of_task (Option.mem_toList.mp h)
  | scheduleRange range =>
      obtain ⟨cc, -, hcc⟩ := List.mem_filterMap.mp h
      exact holds_of_task hcc
  | pick thread exec => cases h

/-- The offers of one more call come last. -/
theorem offered_append (acts : List (Act Co Cb)) (a : Act Co Cb) :
    offered (acts ++ [a]) = offered acts ++ a.offers := by
  simp [offered]

/-- Everything in the queue was passed on, and holds a task. -/
theorem Disciplined.holds {acts : List (Act Co Cb)} {s : State Co Cb} (h : Disciplined acts s) :
    ∀ ct ∈ s.coroutines, ct.holds = true := by
  intro ct hct
  obtain ⟨a, -, ha⟩ := List.mem_flatMap.mp (h.ordered.subset hct)
  exact holds_of_offers ha

/-- A state is disciplined if its tasks are accounted for. -/
theorem disciplined_of_accounts {acts : List (Act Co Cb)} {s : State Co Cb}
    (hholds : ∀ ct ∈ s.coroutines, ct.holds = true)
    (honce : (s.taken.map Prod.snd ++ s.coroutines).Perm (offered acts))
    (hordered : s.coroutines.Sublist (offered acts))
    (hpinned : ∀ t ∈ s.taken, t.2.threadId = -1 ∨ t.2.threadId = t.1) : Disciplined acts s :=
  ⟨honce, hordered, hpinned, takesOldest hholds⟩

/-- Each step is possible and keeps the discipline. -/
theorem disciplined_step {acts : List (Act Co Cb)} {s : State Co Cb} (h : Disciplined acts s)
    (a : Act Co Cb) : ∃ s', step s a = some s' ∧ Disciplined (acts ++ [a]) s' := by
  have hoffered := offered_append acts a
  rcases step_cases h.holds a with hstep |
    ⟨thread, before, ct, after, hnothing, hsplit, hmine, hstep⟩
  · refine ⟨_, hstep, disciplined_of_accounts ?_ ?_ ?_ h.pinned⟩
    · intro ct hct
      rcases List.mem_append.mp hct with hct | hct
      · exact h.holds ct hct
      · exact holds_of_offers hct
    · rw [hoffered, ← List.append_assoc]
      exact h.once.append_right a.offers
    · rw [hoffered]
      exact h.ordered.append_right a.offers
  · have hrest : (before ++ after).Sublist s.coroutines := by
      rw [hsplit]
      exact (List.sublist_cons_self ct after).append_left before
    rw [hnothing, List.append_nil] at hoffered
    refine ⟨_, hstep, disciplined_of_accounts (fun other hother =>
      h.holds other (hrest.subset hother)) ?_ ?_ ?_⟩
    · -- the task that is taken leaves the queue for the history
      have hmove : (ct :: (before ++ after)).Perm s.coroutines := by
        rw [hsplit]
        exact List.perm_middle.symm
      have hcalc : ((s.taken ++ [(thread, ct)]).map Prod.snd ++ (before ++ after)).Perm
          (s.taken.map Prod.snd ++ s.coroutines) := by
        simpa using hmove.append_left (s.taken.map Prod.snd)
      rw [hoffered]
      exact hcalc.trans h.once
    · rw [hoffered]
      exact hrest.trans h.ordered
    · intro t ht
      rcases List.mem_append.mp ht with ht | ht
      · exact h.pinned t ht
      · obtain rfl := List.mem_singleton.mp ht
        exact hmine

/-- **Task queue discipline.**  Every sequence of calls of `schedule` and picks by any
workers runs without a failed assertion, takes every task once or keeps it queued, gives
pinned tasks to their threads only, and leaves a state in which every worker takes the
oldest task it may take. -/
theorem run_disciplined (acts : List (Act Co Cb)) :
    ∃ s, acts.foldlM step start = some s ∧ Disciplined acts s := by
  induction acts using List.reverseRecOn with
  | nil =>
      refine ⟨start, rfl, disciplined_of_accounts ?_ ?_ ?_ ?_⟩
      · exact fun ct hct => absurd hct List.not_mem_nil
      · exact List.Perm.refl []
      · exact List.Sublist.refl []
      · exact fun t ht => absurd ht List.not_mem_nil
  | append_singleton acts a ih =>
      obtain ⟨s, hrun, hs⟩ := ih
      obtain ⟨s', hstep, hs'⟩ := disciplined_step hs a
      refine ⟨s', ?_, hs'⟩
      rw [List.foldlM_append, hrun]
      simpa using hstep

/-- The worker of thread 3 passes over the callback for thread 5 and over a coroutine
that is executing; the null callback was not queued. -/
example :
    let acts : List (Act Nat Nat) :=
      [.schedule (.cb (some 1)) 5, .scheduleRange [.coroutine (some 7), .cb none, .cb (some 2)],
        .pick 3 (· == 7)]
    (acts.foldlM step start).map (fun s => s.taken) = some [(3, ⟨none, some 2, -1⟩)] := by
  decide

end TaskQueue

end Agent
