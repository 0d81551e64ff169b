import GServer.IOManagerInvariant
import Mathlib

/-!
# Runs of the event system

`EventSystem.Inv` carries the invariant of the manager over the runs of the
event system, with the batches of the workers.  It is kept by every step that
is `accountable`: `addEvent` is called by a thread of a scheduler, no call names
the descriptor just past the vector, and a worker handles a result only when
all or none of its events are still registered.
-/

namespace Agent

open Runs

/-- Every event of `n` is in `m`. -/
def EventMask.includes (m n : EventMask) : Bool :=
  (!n.read || m.read) && (!n.write || m.write)

/-- A mask has what a part of it has. -/
theorem EventMask.has_of_includes {m n : EventMask} (h : m.includes n = true)
    {ev : EventType} (hn : n.has ev = true) : m.has ev = true := by
  cases ev <;> simp_all [EventMask.includes, EventMask.has]

namespace EventSystem

variable {S Co Cb W : Type}

/-- The step keeps the accounts in order, as far as its own arguments go. -/
def accountable (s : EventSystem S Co Cb W) : EventAct S Co Cb W → Bool
  | .addEvent fd _ _ this _ =>
      this.isSome && (decide (fd < s.manager.contexts.length) || decide (fd * 3 / 2 < 2 ^ 31))
  | .delEvent fd _ _ => fd != s.manager.contexts.length
  | .cancelEvent fd _ _ => fd != s.manager.contexts.length
  | .cancelAll fd _ => fd != s.manager.contexts.length
  | .epollWait _ _ => true
  | .handle w =>
      match s.batches w with
      | [] => true
      | e :: _ =>
          match s.manager.contexts[e.fd]? with
          | none => true
          | some ctx =>
              ctx.event.disjoint (IOManager.realEvents e) ||
                ctx.event.includes (IOManager.realEvents e)

/-- `m_pendingEventCount` is the number of registered events, and only registered
events are triggered, which have a scheduler. -/
structure Accounted (s : EventSystem S Co Cb W) : Prop where
  count : s.manager.pendingEventCount = s.manager.registered
  nonneg : 0 ≤ s.manager.pendingEventCount
  triggered : ∀ t ∈ s.triggers, t.1.registered = true
  scheduler : ∀ ctx ∈ s.manager.contexts, ∀ ev, ctx.event.has ev = true →
    (ctx.getContext ev).scheduler.isSome = true
  noCrash : s.crash ≠ some .nullScheduler ∧ s.crash ≠ some .outOfRange

/-- The invariant of the system. -/
structure Inv (s : EventSystem S Co Cb W) : Prop where
  manager : s.manager.Inv
  batches : ∀ w, ∀ e ∈ s.batches w, e.fd < s.manager.contexts.length
  triggered : ∀ t ∈ s.triggers, t.1.registered = true
  noCrash : s.crash ≠ some .nullScheduler ∧ s.crash ≠ some .outOfRange

/-- The invariant accounts for every registration. -/
theorem Inv.accounted {s : EventSystem S Co Cb W} (h : Inv s) : Accounted s where
  count := h.manager.count
  nonneg := by
    rw [h.manager.count]
    exact Int.natCast_nonneg _
  triggered := h.triggered
  scheduler := fun ctx hctx ev hev => (h.manager.registers ctx hctx ev).symm.trans hev
  noCrash := h.noCrash

/-- Nothing is pending at the start. -/
theorem inv_new : Inv (new : EventSystem S Co Cb W) where
  manager := IOManager.inv_new
  batches := fun _ _ he => absurd he List.not_mem_nil
  triggered := fun _ ht => absurd ht List.not_mem_nil
  noCrash := ⟨by simp [new], by simp [new]⟩

/-- What a fine operation leaves is in order. -/
theorem Inv.finish {s : EventSystem S Co Cb W} (h : Inv s) {res : Except Crash (Result S Co Cb)}
    {new : Option (Nat × EventType)} (hfine : s.manager.Fine new res)
    (register : Bool → Nat → EventType → Option (Task Co Cb)) :
    Inv (s.finish register res) := by
  cases res with
  | error crash =>
      exact ⟨h.manager, h.batches, h.triggered, by simpa [EventSystem.finish] using hfine.1,
        by simpa [EventSystem.finish] using hfine.2.1⟩
  | ok r =>
      refine ⟨hfine.inv, fun w e he => Nat.lt_of_lt_of_le (h.batches w e he) hfine.grows,
        fun t ht => ?_, h.noCrash⟩
      rcases List.mem_append.mp ht with ht | ht
      · exact h.triggered t ht
      · obtain ⟨t₀, ht₀, rfl⟩ := List.mem_map.mp ht
        exact (hfine.triggers t₀ ht₀).1

/-- The two halves of `accountable` for `addEvent`. -/
theorem addEvent_spec {s : EventSystem S Co Cb W} (h : Inv s) {fd : Nat} {ev : EventType}
    {handler : Handler Co Cb} {this : Option S} {ok : Bool}
    (hacc : s.accountable (.addEvent fd ev handler this ok) = true) :
    s.manager.Fine (some (fd, ev)) (s.manager.addEvent fd ev handler this ok) ∧
    (∀ r, s.manager.addEvent fd ev handler this ok = .ok r → r.ret = true →
      (s.manager.slot fd ev).scheduler = none ∧
      ∃ ctx, r.manager.contexts[fd]? = some ctx ∧
        ctx.getContext ev = IOManager.stored (s.manager.slot fd ev) handler this) ∧
    (s.manager.addEvent fd ev handler this ok = .error .handlersStored →
      (s.manager.slot fd ev).scheduler = none ∧
      (s.manager.slot fd ev).coroutine.isSome = true ∧
      (s.manager.slot fd ev).cb.isSome = true) := by
  simp only [accountable, Bool.and_eq_true, Bool.or_eq_true, decide_eq_true_eq] at hacc
  exact IOManager.addEvent_spec h.manager hacc.1 hacc.2

variable [DecidableEq W]

/-- A worker takes some of what it had, or of what is registered. -/
theorem Inv.withBatch {s : EventSystem S Co Cb W} (h : Inv s) {w : W} {batch : List EpollEvent}
    (hbatch : ∀ e ∈ batch, e.fd < s.manager.contexts.length) :
    Inv { s with batches := Function.update s.batches w batch } := by
  refine ⟨h.manager, fun u e he => ?_, h.triggered, h.noCrash⟩
  by_cases hu : u = w
  · subst hu
    exact hbatch e (by simpa using he)
  · exact h.batches u e (by simpa [Function.update_of_ne hu] using he)

/-- What an accountable step does: a worker gets a batch, or an operation on the
manager is fine. -/
theorem step_cases {s s' : EventSystem S Co Cb W} {a : EventAct S Co Cb W} (h : Inv s)
    (hacc : s.accountable a = true) (hstep : Step s a s') :
    (∃ w batch, (∀ e ∈ batch, e.fd < s.manager.contexts.length) ∧
      s' = { s with batches := Function.update s.batches w batch }) ∨
    (∃ fd ev handler this ok, a = .addEvent fd ev handler this ok ∧
      s' = s.finish (fun ret fd' ev' =>
          if ret ∧ fd' = fd ∧ ev' = ev then some handler.task else s.latest fd' ev')
        (s.manager.addEvent fd ev handler this ok)) ∨
    (∃ w batch res, (∀ e ∈ batch, e.fd < s.manager.contexts.length) ∧
      s.manager.Fine none res ∧
      s' = { s with batches := Function.update s.batches w batch }.finish
        (fun _ => s.latest) res) ∨
    (∃ res, s.manager.Fine none res ∧ s' = s.finish (fun _ => s.latest) res) := by
  unfold Step step at hstep
  split at hstep
  · cases hstep
  cases a with
  | addEvent fd ev handler this ok =>
      obtain rfl := Option.some.inj hstep
      exact Or.inr (Or.inl ⟨fd, ev, handler, this, ok, rfl, rfl⟩)
  | delEvent fd ev ok =>
      obtain rfl := Option.some.inj hstep
      exact Or.inr (Or.inr (Or.inr
        ⟨_, IOManager.delEvent_fine h.manager (by simpa [accountable] using hacc), rfl⟩))
  | cancelEvent fd ev ok =>
      obtain rfl := Option.some.inj hstep
      exact Or.inr (Or.inr (Or.inr
        ⟨_, IOManager.cancelEvent_fine h.manager (by simpa [accountable] using hacc), rfl⟩))
  | cancelAll fd ok =>
      obtain rfl := Option.some.inj hstep
      exact Or.inr (Or.inr (Or.inr
        ⟨_, IOManager.cancelAll_fine h.manager (by simpa [accountable] using hacc), rfl⟩))
  | epollWait w batch =>
      simp only [Option.ite_none_right_eq_some, Bool.and_eq_true, List.all_eq_true] at hstep
      obtain ⟨⟨-, hreport⟩, heq⟩ := hstep
      obtain rfl := Option.some.inj heq
      refine Or.inl ⟨w, batch, fun e he => ?_, rfl⟩
      have := hreport e he
      unfold IOManager.mayReport at this
      split at this
      · cases this
      · rename_i ctx hctx
        exact (List.getElem?_eq_some_iff.mp hctx).1
  | handle w =>
      dsimp only at hstep
      cases hbatch : s.batches w with
      | nil => simp [hbatch] at hstep
      | cons e rest =>
          simp only [hbatch] at hstep
          obtain rfl := Option.some.inj hstep
          have hin : ∀ e' ∈ e :: rest, e'.fd < s.manager.contexts.length := fun e' he' =>
            h.batches w e' (hbatch ▸ he')
          have hctx := List.getElem?_eq_getElem (hin e List.mem_cons_self)
          refine Or.inr (Or.inr (Or.inl ⟨w, rest, _,
            fun e' he' => hin e' (List.mem_cons_of_mem e he'),
            IOManager.handleEvent_fine h.manager hctx fun hmeets ev hreal => ?_, rfl⟩))
          simp only [accountable, hbatch, hctx, hmeets, Bool.false_or] at hacc
          exact EventMask.has_of_includes hacc hreal

/-- Accountable steps keep the invariant. -/
theorem step_inv {s s' : EventSystem S Co Cb W} {a : EventAct S Co Cb W} (h : Inv s)
    (hacc : s.accountable a = true) (hstep : Step s a s') : Inv s' := by
  rcases step_cases h hacc hstep with ⟨w, batch, hbatch, rfl⟩ |
    ⟨fd, ev, handler, this, ok, rfl, rfl⟩ | ⟨w, batch, res, hbatch, hfine, rfl⟩ |
    ⟨res, hfine, rfl⟩
  · exact h.withBatch hbatch
  · exact h.finish (addEvent_spec h hacc).1 _
  · exact (h.withBatch hbatch).finish hfine _
  · exact h.finish hfine _

/-- **Pending-event accounting.**  In every run of accountable steps the counter is
the number of registered events, and only registered events are triggered. -/
theorem reachable_accounted {s : EventSystem S Co Cb W}
    (h : ReachableUnder (· = new) Step (fun s a => s.accountable a = true) s) :
    Accounted s :=
  (h.invariant (fun _ h0 => h0 ▸ inv_new)
    (fun _ _ _ hinv hacc hstep => step_inv hinv hacc hstep)).accounted

/-- Both events of descriptor 3 are reported ready; `WRITE` is deleted before the
worker handles the result. -/
def staleResult : List (EventAct Unit Nat Nat Unit) :=
  [.addEvent 3 .read (.callback 1) (some ()) true,
    .addEvent 3 .write (.callback 2) (some ()) true,
    .epollWait () [⟨3, true, true, false, false⟩],
    .delEvent 3 .write true,
    .handle ()]

/-- The stale result triggers `WRITE`, whose slot has no scheduler any more. -/
theorem stale_result_uses_null_scheduler :
    ¬ ∀ s : EventSystem Unit Nat Nat Unit, Reachable (· = new) Step s → Accounted s := by
  intro haccounted
  obtain ⟨s, hreach, hcrash⟩ : ∃ s : EventSystem Unit Nat Nat Unit,
      Reachable (· = new) Step s ∧ s.crash = some .nullScheduler :=
    exists_view rfl (fun _ _ _ h => ⟨trivial, h⟩) staleResult (by decide +kernel)
  exact (haccounted s hreach).noCrash.1 hcrash

/-- Both events of descriptor 40 are registered and triggered by one result. -/
theorem reachable_accounted_of_ready :
    ∃ s : EventSystem Unit Nat Nat Unit,
      ReachableUnder (· = new) Step (fun s a => s.accountable a = true) s ∧
      s.triggers.length = 2 ∧ Accounted s := by
  let ready : List (EventAct Unit Nat Nat Unit) :=
    [.addEvent 40 .read (.callback 1) (some ()) true,
      .addEvent 40 .write (.caller 2 true) (some ()) true,
      .epollWait () [⟨40, true, true, false, true⟩],
      .handle ()]
  obtain ⟨s, hreach, htriggers⟩ : ∃ s : EventSystem Unit Nat Nat Unit,
      ReachableUnder (· = new) Step (fun s a => s.accountable a = true) s ∧
        s.triggers.length = 2 :=
    exists_guarded_view rfl (fun _ _ _ h => h) ready (by decide +kernel)
  exact ⟨s, hreach, htriggers, reachable_accounted hreach⟩

end EventSystem

end Agent
