import GServer.PendingEvents

/-!
# The handlers of the registrations

A slot is reused by the registrations of its event.  `triggerEvent` leaves the
handler it has used in the slot, so a slot can hold the callback of an earlier
registration beside the coroutine of the present one, and `triggerEvent` prefers
the callback.  `handlersFit` asks of an `addEvent` that this does not happen;
then every trigger schedules the handler of the most recent `addEvent`.
-/

namespace Agent

open Runs

namespace EventSystem

variable {S Co Cb W : Type}

/-- The registration finds no leftover handler in its way: not both of them, and
no callback if it stores the coroutine. -/
def handlersFit (s : EventSystem S Co Cb W) (a : EventAct S Co Cb W) : Bool :=
  s.accountable a &&
    match a with
    | .addEvent fd ev handler _ _ =>
        let slot := s.manager.slot fd ev
        slot.scheduler.isSome ||
          (!(slot.coroutine.isSome && slot.cb.isSome) &&
            match handler with
            | .callback _ => true
            | .caller _ _ => slot.cb.isNone)
    | _ => true

/-- Every trigger was of a registered event and scheduled one task, the handler of
the most recent `addEvent` for the event; and the assertion on the two handlers
has not failed. -/
structure RunsOwnHandlers (s : EventSystem S Co Cb W) : Prop where
  triggered : ∀ t ∈ s.triggers, t.1.registered = true ∧
    ∃ scheduler task, t.2 = some task ∧ t.1.scheduled = some (scheduler, task)
  noCrash : s.crash ≠ some .nullScheduler ∧ s.crash ≠ some .outOfRange
  assertion : s.crash ≠ some .handlersStored

/-- The slots of the registered events hold the handlers of the most recent
registrations. -/
def HandlersCurrent (contexts : List (FdContext S Co Cb))
    (latest : Nat → EventType → Option (Task Co Cb)) : Prop :=
  ∀ fd ev ctx, contexts[fd]? = some ctx → ctx.event.has ev = true →
    (ctx.getContext ev).task.isSome = true ∧ (ctx.getContext ev).task = latest fd ev

/-- The invariant with the handlers. -/
structure HandlerInv (s : EventSystem S Co Cb W) : Prop where
  inv : Inv s
  current : HandlersCurrent s.manager.contexts s.latest
  scheduled : ∀ t ∈ s.triggers,
    ∃ scheduler task, t.2 = some task ∧ t.1.scheduled = some (scheduler, task)
  assertion : s.crash ≠ some .handlersStored

/-- The invariant says that only registered handlers have run. -/
theorem HandlerInv.runsOwnHandlers {s : EventSystem S Co Cb W} (h : HandlerInv s) :
    RunsOwnHandlers s :=
  ⟨fun t ht => ⟨h.inv.triggered t ht, h.scheduled t ht⟩, h.inv.noCrash, h.assertion⟩

/-- Nothing has run at the start. -/
theorem handlerInv_new : HandlerInv (new : EventSystem S Co Cb W) where
  inv := inv_new
  current := fun fd ev ctx hctx hev => by
    have hmem : ctx ∈ (IOManager.new : IOManager S Co Cb).contexts :=
      List.mem_of_getElem? hctx
    rw [IOManager.contexts_new] at hmem
    obtain rfl := List.eq_of_mem_replicate hmem
    cases ev <;> simp [FdContext.new, EventMask.has] at hev
  scheduled := fun _ ht => absurd ht List.not_mem_nil
  assertion := by simp [new]

/-- What an operation triggers is the handler of the most recent registration. -/
theorem scheduled_of_keeps {s : EventSystem S Co Cb W} (h : HandlerInv s)
    {r : Result S Co Cb} {new : Option (Nat × EventType)} (hkeeps : s.manager.Keeps r new) :
    ∀ t ∈ s.triggers ++ r.triggers.map (fun t => (t, s.latest t.fd t.ev)),
      ∃ scheduler task, t.2 = some task ∧ t.1.scheduled = some (scheduler, task) := by
  intro t ht
  rcases List.mem_append.mp ht with ht | ht
  · exact h.scheduled t ht
  · obtain ⟨t₀, ht₀, rfl⟩ := List.mem_map.mp ht
    obtain ⟨-, ctx, scheduler, hctx, hev, hsch⟩ := hkeeps.triggers t₀ ht₀
    obtain ⟨hsome, hlatest⟩ := h.current t₀.fd t₀.ev ctx hctx hev
    obtain ⟨task, htask⟩ := Option.isSome_iff_exists.mp hsome
    refine ⟨scheduler, task, hlatest.symm.trans htask, ?_⟩
    rw [hsch, htask]
    rfl

/-- An operation that registers nothing keeps the handlers. -/
theorem HandlerInv.finish {s : EventSystem S Co Cb W} (h : HandlerInv s)
    {res : Except Crash (Result S Co Cb)} (hfine : s.manager.Fine none res) :
    HandlerInv (s.finish (fun _ => s.latest) res) := by
  refine ⟨h.inv.finish hfine _, ?_, ?_, ?_⟩
  · cases res with
    | error crash => exact h.current
    | ok r =>
        intro fd ev ctx hctx hev
        have hkeeps : s.manager.Keeps r none := by simpa [IOManager.Fine] using hfine
        obtain ⟨ctx₀, hctx₀, hev₀, hslot⟩ := hkeeps.old fd ev ctx hctx hev (by simp)
        rw [hslot]
        exact h.current fd ev ctx₀ hctx₀ hev₀
  · cases res with
    | error crash => exact h.scheduled
    | ok r => exact scheduled_of_keeps h hfine
  · cases res with
    | error crash => simpa [EventSystem.finish] using hfine.2.2 rfl
    | ok r => exact h.assertion

/-- What a fitting registration stores is what its event will trigger. -/
theorem task_stored {slot : EventContext S Co Cb} {handler : Handler Co Cb}
    {this : Option S}
    (hfit : ∀ c exec, handler = .caller c exec → slot.cb = none) :
    (IOManager.stored slot handler this).task = some handler.task := by
  cases handler with
  | callback f => rfl
  | caller c exec =>
      simp [IOManager.stored, EventContext.task, Handler.task, hfit c exec rfl]

/-- A fitting registration makes its handler the current one. -/
theorem HandlerInv.addEvent {s : EventSystem S Co Cb W} (h : HandlerInv s) {fd : Nat}
    {ev : EventType} {handler : Handler Co Cb} {this : Option S} {ok : Bool}
    (hfit : s.handlersFit (.addEvent fd ev handler this ok) = true) :
    HandlerInv (s.finish (fun ret fd' ev' =>
        if ret ∧ fd' = fd ∧ ev' = ev then some handler.task else s.latest fd' ev')
      (s.manager.addEvent fd ev handler this ok)) := by
  simp only [handlersFit, Bool.and_eq_true] at hfit
  obtain ⟨hacc, hslot⟩ := hfit
  obtain ⟨hfine, hstored, hboth⟩ := addEvent_spec h.inv hacc
  cases hres : s.manager.addEvent fd ev handler this ok with
  | error crash =>
      rw [hres] at hfine hboth
      refine ⟨h.inv.finish hfine _, h.current, h.scheduled, ?_⟩
      intro hcrash
      obtain rfl := Option.some.inj hcrash
      obtain ⟨hsch, hco, hcb⟩ := hboth rfl
      simp [hsch, hco, hcb] at hslot
  | ok r =>
      rw [hres] at hfine
      have hkeeps : s.manager.Keeps r (if r.ret then some (fd, ev) else none) := hfine
      refine ⟨h.inv.finish hfine _, ?_, scheduled_of_keeps h hkeeps, h.assertion⟩
      intro fd' ev' ctx hctx hev
      by_cases hnew : r.ret = true ∧ fd' = fd ∧ ev' = ev
      · obtain ⟨hret, rfl, rfl⟩ := hnew
        obtain ⟨hsch, ctx', hctx', hslot'⟩ := hstored r hres hret
        obtain rfl : ctx' = ctx := Option.some.inj (hctx'.symm.trans hctx)
        have htask : (ctx'.getContext ev').task = some handler.task := by
          rw [hslot']
          refine task_stored fun c exec hcaller => ?_
          subst hcaller
          simp only [hsch, Option.isSome_none, Bool.false_or, Bool.and_eq_true] at hslot
          simpa using hslot.2
        simp [EventSystem.finish, hret, htask]
      · have hne : (if r.ret then some (fd, ev) else none) ≠ some (fd', ev') := by
          intro heq
          split at heq
          · rename_i hret
            obtain ⟨rfl, rfl⟩ : fd = fd' ∧ ev = ev' := by simpa using heq
            exact hnew ⟨hret, rfl, rfl⟩
          · cases heq
        obtain ⟨ctx₀, hctx₀, hev₀, hslot₀⟩ := hkeeps.old fd' ev' ctx hctx hev hne
        simp only [EventSystem.finish, if_neg hnew, hslot₀]
        exact h.current fd' ev' ctx₀ hctx₀ hev₀

variable [DecidableEq W]

/-- Fitting steps keep the invariant with the handlers. -/
theorem step_handlerInv {s s' : EventSystem S Co Cb W} {a : EventAct S Co Cb W}
    (h : HandlerInv s) (hfit : s.handlersFit a = true) (hstep : Step s a s') :
    HandlerInv s' := by
  have hacc : s.accountable a = true := by
    simp only [handlersFit, Bool.and_eq_true] at hfit
    exact hfit.1
  have withBatch : ∀ w batch, (∀ e ∈ batch, e.fd < s.manager.contexts.length) →
      HandlerInv { s with batches := Function.update s.batches w batch } :=
    fun w batch hbatch =>
      ⟨h.inv.withBatch hbatch, h.current, h.scheduled, h.assertion⟩
  rcases step_cases h.inv hacc hstep with ⟨w, batch, hbatch, rfl⟩ |
    ⟨fd, ev, handler, this, ok, rfl, rfl⟩ | ⟨w, batch, res, hbatch, hfine, rfl⟩ |
    ⟨res, hfine, rfl⟩
  · exact withBatch w batch hbatch
  · exact h.addEvent hfit
  · exact (withBatch w batch hbatch).finish hfine
  · exact h.finish hfine

/-- **Every registration runs its own handler.**  In every run of fitting steps
each trigger schedules the handler of the most recent `addEvent` and nothing
else, and the assertion on the handlers does not fail. -/
theorem reachable_runsOwnHandlers {s : EventSystem S Co Cb W}
    (h : ReachableUnder (· = new) Step (fun s a => s.handlersFit a = true) s) :
    RunsOwnHandlers s :=
  (h.invariant (fun _ h0 => h0 ▸ handlerInv_new)
    (fun _ _ _ hinv hfit hstep => step_handlerInv hinv hfit hstep)).runsOwnHandlers

/-- Callback 7 runs for the first registration of `READ` on descriptor 3; then
coroutine 1 registers the same event, which becomes ready. -/
def callbackThenCoroutine : List (EventAct Unit Nat Nat Unit) :=
  [.addEvent 3 .read (.callback 7) (some ()) true,
    .epollWait () [⟨3, true, false, false, false⟩],
    .handle (),
    .addEvent 3 .read (.caller 1 true) (some ()) true,
    .epollWait () [⟨3, true, false, false, false⟩],
    .handle ()]

/-- The second time the event is triggered callback 7 is scheduled again, and
coroutine 1 is not. -/
theorem trigger_schedules_stale_callback :
    ¬ ∀ s : EventSystem Unit Nat Nat Unit,
      Reachable (· = new) Step s → RunsOwnHandlers s := by
  intro hown
  obtain ⟨s, hreach, htriggers⟩ : ∃ s : EventSystem Unit Nat Nat Unit,
      Reachable (· = new) Step s ∧ s.triggers.map (fun t => (t.2, t.1.scheduled)) =
        [(some (.cb 7), some ((), .cb 7)), (some (.coroutine 1), some ((), .cb 7))] :=
    exists_view rfl (fun _ _ _ h => ⟨trivial, h⟩) callbackThenCoroutine (by decide +kernel)
  have hmem : (some (.coroutine 1), some ((), .cb 7)) ∈
      s.triggers.map (fun t => (t.2, t.1.scheduled)) := by simp [htriggers]
  obtain ⟨t, ht, heq⟩ := List.mem_map.mp hmem
  obtain ⟨-, scheduler, task, hlatest, hsch⟩ := (hown s hreach).triggered t ht
  have hco : some task = some (Task.coroutine 1) :=
    hlatest.symm.trans (congrArg Prod.fst heq)
  have hcb : some (scheduler, task) = some ((), Task.cb 7) :=
    hsch.symm.trans (congrArg Prod.snd heq)
  cases hco
  cases hcb

/-- A coroutine and then a callback are registered for the same event, and each is
triggered. -/
theorem reachable_runsOwnHandlers_of_alternation :
    ∃ s : EventSystem Unit Nat Nat Unit,
      ReachableUnder (· = new) Step (fun s a => s.handlersFit a = true) s ∧
      s.triggers.length = 2 ∧ RunsOwnHandlers s := by
  let alternation : List (EventAct Unit Nat Nat Unit) :=
    [.addEvent 3 .read (.caller 1 true) (some ()) true,
      .epollWait () [⟨3, true, false, false, false⟩],
      .handle (),
      .addEvent 3 .read (.callback 7) (some ()) true,
      .cancelAll 3 true]
  obtain ⟨s, hreach, htriggers⟩ : ∃ s : EventSystem Unit Nat Nat Unit,
      ReachableUnder (· = new) Step (fun s a => s.handlersFit a = true) s ∧
        s.triggers.length = 2 :=
    exists_guarded_view rfl (fun _ _ _ h => h) alternation (by decide +kernel)
  exact ⟨s, hreach, htriggers, reachable_runsOwnHandlers hreach⟩

end EventSystem

end Agent
