import GServer.IOManagerInvariant
import Mathlib

/-!
# Readiness dispatch

`idle` handles the results of one `epoll_wait` one after the other.  For each of
them it works out the events to trigger, registers the others again with
`epoll_ctl` and triggers.  An error or a hang-up concerns every registered event,
but the source drops the two bits and keeps the rest of the mask as it is.

`Wakes` says that a given set of events is triggered and the rest stays
registered.  The code wakes `realEvents`; the purpose is to wake `concerned`.
-/

namespace Agent

variable {S Co Cb : Type}

namespace EventMask

/-- `m & ~n`. -/
def without (m n : EventMask) : EventMask :=
  { read := m.read && !n.read, write := m.write && !n.write }

@[simp] theorem has_without (m n : EventMask) (ev : EventType) :
    (m.without n).has ev = (m.has ev && !n.has ev) := by
  cases ev <;> rfl

/-- The event alone, if `b` says so. -/
def single (ev : EventType) (b : Bool) : EventMask :=
  match ev with
  | .read => ⟨b, false⟩
  | .write => ⟨false, b⟩

theorem has_single_self (ev : EventType) (b : Bool) : (single ev b).has ev = b := by
  cases ev <;> rfl

/-- One event is not the other. -/
theorem has_single_of_ne {ev ev' : EventType} (h : ev' ≠ ev) (b : Bool) :
    (single ev b).has ev' = false := by
  cases ev <;> cases ev' <;> first | rfl | exact absurd rfl h

/-- Masks with the same events are equal. -/
theorem ext_has {m n : EventMask} (h : ∀ ev, m.has ev = n.has ev) : m = n := by
  have hread : m.read = n.read := h .read
  have hwrite : m.write = n.write := h .write
  cases m
  cases n
  simp_all

/-- No event is in the empty mask. -/
theorem isNone_iff {m : EventMask} : m.isNone = true ↔ ∀ ev, m.has ev = false := by
  constructor
  · intro h ev
    cases ev <;> simp_all [isNone, has]
  · intro h
    have hread : m.read = false := h .read
    have hwrite : m.write = false := h .write
    simp [isNone, hread, hwrite]

end EventMask

/-- The operations of `epoll_ctl` in `idle`. -/
inductive CtlOp
  | mod
  | del
deriving DecidableEq

/-- A call of `epoll_ctl`; `events` is given together with `EPOLLET`. -/
structure EpollCtl where
  op : CtlOp
  fd : Nat
  events : EventMask
deriving DecidableEq

/-- What `idle` does for one result: its `epoll_ctl`, unless it passes the result over,
and its calls of `triggerEvent`. -/
structure Dispatch (S Co Cb : Type) where
  event : EpollEvent
  ctl : Option EpollCtl
  triggers : List (Trigger S Co Cb)

namespace FdContext

/-- Without a scheduler the trigger crashes. -/
theorem triggerEvent_of_none {ctx : FdContext S Co Cb} {ev : EventType}
    (hnone : (ctx.getContext ev).scheduler = none) :
    ctx.triggerEvent ev = .error .nullScheduler := by
  have hslot : ∀ mask : EventMask,
      { ctx with event := mask }.getContext ev = ctx.getContext ev := fun mask => by
    cases ev <;> rfl
  simp only [triggerEvent, hslot, hnone]

end FdContext

namespace EpollEvent

/-- `EPOLLIN` or `EPOLLOUT` is in the mask. -/
def ready (e : EpollEvent) : EventType → Bool
  | .read => e.epollin
  | .write => e.epollout

/-- `EPOLLERR` or `EPOLLHUP` is in the mask. -/
def failed (e : EpollEvent) : Bool :=
  e.epollerr || e.epollhup

end EpollEvent

namespace IOManager

/-- The registered events of a descriptor. -/
def eventOf (m : IOManager S Co Cb) (fd : Nat) : EventMask :=
  match m.contexts[fd]? with
  | none => ⟨false, false⟩
  | some ctx => ctx.event

/-- The `epoll_ctl` for the events that stay registered. -/
def ctlFor (fd : Nat) (left : EventMask) : EpollCtl :=
  { op := if left.isNone then .del else .mod, fd := fd, events := left }

/-- The `epoll_ctl` that `idle` calls for a result; none if it passes the result over. -/
def epollCtl (m : IOManager S Co Cb) (e : EpollEvent) : Option EpollCtl :=
  match m.contexts[e.fd]? with
  | none => none
  | some ctx =>
      if ctx.event.disjoint (realEvents e) then none
      else some (ctlFor e.fd (ctx.event.without (realEvents e)))

/-- The loop of `IOManager::idle` over a batch. -/
def dispatch (m : IOManager S Co Cb) :
    List EpollEvent → Except Crash (List (Dispatch S Co Cb) × IOManager S Co Cb)
  | [] => .ok ([], m)
  | e :: rest =>
      match m.handleEvent e with
      | .error crash => .error crash
      | .ok r =>
          match r.manager.dispatch rest with
          | .error crash => .error crash
          | .ok (ds, m') =>
              .ok ({ event := e, ctl := m.epollCtl e, triggers := r.triggers } :: ds, m')

/-- The registered events that a result concerns: those that are ready, and all of
them after an error or a hang-up. -/
def concerned (m : IOManager S Co Cb) (e : EpollEvent) : EventMask :=
  { read := (m.eventOf e.fd).read && (e.epollin || e.epollerr || e.epollhup)
    write := (m.eventOf e.fd).write && (e.epollout || e.epollerr || e.epollhup) }

/-- The triggers wake exactly the events of the mask, each once and with the handler
of its slot, and the other events of the descriptor stay registered. -/
structure Wakes (m m' : IOManager S Co Cb) (fd : Nat) (mask : EventMask)
    (triggers : List (Trigger S Co Cb)) : Prop where
  woken : ∀ ev, ev ∈ triggers.map Trigger.ev ↔ mask.has ev = true
  once : (triggers.map Trigger.ev).Nodup
  handlers : ∀ t ∈ triggers, t.fd = fd ∧ ∃ scheduler,
    (m.slot fd t.ev).scheduler = some scheduler ∧
      t.scheduled = (m.slot fd t.ev).task.map (fun task => (scheduler, task))
  left : m'.eventOf fd = (m.eventOf fd).without mask

/-- A result is dispatched: the events it concerns are woken, and `epoll_ctl` is given
the ones that are left.  There is nothing to call it for if the result concerns none. -/
structure Dispatched (m m' : IOManager S Co Cb) (d : Dispatch S Co Cb) : Prop where
  wakes : Wakes m m' d.event.fd (m.concerned d.event) d.triggers
  ctl : d.ctl =
    if (m.concerned d.event).isNone then none
    else some (ctlFor d.event.fd (m'.eventOf d.event.fd))

/-- The loop comes to its end, and every result of the batch is dispatched. -/
def DispatchesAll (m : IOManager S Co Cb) (batch : List EpollEvent) : Prop :=
  ∃ ds m', m.dispatch batch = .ok (ds, m') ∧ ds.map Dispatch.event = batch ∧
    ∀ d ∈ ds, Dispatched m m' d

/-- With an error or a hang-up, the result has the bit of every registered event. -/
def Announces (m : IOManager S Co Cb) (e : EpollEvent) : Prop :=
  e.failed = true → ∀ ev, (m.eventOf e.fd).has ev = true → e.ready ev = true

/-- The events that are ready have a scheduler. -/
def Schedulable (m : IOManager S Co Cb) (e : EpollEvent) : Prop :=
  ∀ ev, e.ready ev = true → (m.slot e.fd ev).scheduler.isSome = true

/-! ## The masks -/

@[simp] theorem has_realEvents (e : EpollEvent) (ev : EventType) :
    (realEvents e).has ev = e.ready ev := by
  unfold realEvents
  cases ev <;> cases e.epollerr <;> cases e.epollhup <;> rfl

/-- An event is concerned when it is registered and ready, or failed. -/
theorem has_concerned (m : IOManager S Co Cb) (e : EpollEvent) (ev : EventType) :
    (m.concerned e).has ev = ((m.eventOf e.fd).has ev && (e.ready ev || e.failed)) := by
  cases ev <;> simp [concerned, EventMask.has, EpollEvent.ready, EpollEvent.failed, Bool.or_assoc]

/-- A result has the bits of registered events only. -/
theorem registered_of_mayReport {m : IOManager S Co Cb} {e : EpollEvent}
    (h : m.mayReport e = true) {ev : EventType} (hready : e.ready ev = true) :
    (m.eventOf e.fd).has ev = true := by
  cases hctx : m.contexts[e.fd]? with
  | none => simp [mayReport, hctx] at h
  | some ctx =>
      simp only [mayReport, hctx] at h
      simp only [eventOf, hctx]
      cases ev <;> simp_all [EpollEvent.ready, EventMask.has]

/-- The bits of the mask are the events concerned, unless an error or a hang-up is
reported without the bit of a registered event. -/
theorem realEvents_eq_concerned_iff {m : IOManager S Co Cb} {e : EpollEvent}
    (h : m.mayReport e = true) : realEvents e = m.concerned e ↔ m.Announces e := by
  constructor
  · intro heq hfailed ev hev
    have hhas := congrArg (fun mask => EventMask.has mask ev) heq
    simpa [has_concerned, hev, hfailed] using hhas
  · intro hann
    refine EventMask.ext_has (fun ev => ?_)
    rw [has_realEvents, has_concerned]
    cases hready : e.ready ev with
    | true => simp [registered_of_mayReport h hready]
    | false =>
        cases hev : (m.eventOf e.fd).has ev with
        | false => rfl
        | true =>
            cases hfailed : e.failed with
            | false => rfl
            | true =>
                rw [hann hfailed ev hev] at hready
                cases hready

/-- In a manager that is in order every registered event has a scheduler. -/
theorem schedulable_of_inv {m : IOManager S Co Cb} (hinv : Inv m) {e : EpollEvent}
    (h : m.mayReport e = true) : m.Schedulable e := by
  intro ev hready
  have hev := registered_of_mayReport h hready
  cases hctx : m.contexts[e.fd]? with
  | none => simp [mayReport, hctx] at h
  | some ctx =>
      simp only [eventOf, hctx] at hev
      simp only [slot, hctx]
      exact (hinv.registers ctx (List.mem_of_getElem? hctx) ev).symm.trans hev

/-! ## Triggering -/

/-- Only the slot and the bit of one event may have changed. -/
structure Elsewhere (m m' : IOManager S Co Cb) (fd : Nat) (ev : EventType) : Prop where
  length : m'.contexts.length = m.contexts.length
  others : ∀ fd', fd' ≠ fd → m'.contexts[fd']? = m.contexts[fd']?
  slots : ∀ ev', ev' ≠ ev → m'.slot fd ev' = m.slot fd ev'

/-- Nothing is triggered for an empty mask. -/
theorem wakes_nothing (m : IOManager S Co Cb) (fd : Nat) {mask : EventMask}
    (h : mask.isNone = true) : Wakes m m fd mask [] where
  woken := fun ev => by
    simp [EventMask.isNone_iff.mp h ev]
  once := List.nodup_nil
  handlers := fun t ht => absurd ht List.not_mem_nil
  left := EventMask.ext_has (fun ev => by
    simp [EventMask.isNone_iff.mp h ev])

/-- A trigger under a test that does not read the context, of an event with a scheduler. -/
theorem triggerIf_wakes {m : IOManager S Co Cb} {fd : Nat} (ev : EventType) (b : Bool)
    (hfd : fd < m.contexts.length)
    (hsch : b = true → (m.slot fd ev).scheduler.isSome = true) :
    ∃ r, m.triggerIf fd ev (fun _ => b) = .ok r ∧
      Wakes m r.manager fd (.single ev b) r.triggers ∧ Elsewhere m r.manager fd ev := by
  have hctx := List.getElem?_eq_getElem hfd
  generalize m.contexts[fd] = ctx at hctx
  cases b with
  | false =>
      exact ⟨⟨true, [], m⟩, by simp [triggerIf, hctx],
        wakes_nothing m fd (by cases ev <;> rfl), rfl, fun _ _ => rfl, fun _ _ => rfl⟩
  | true =>
      have hslot : ∀ ev', m.slot fd ev' = ctx.getContext ev' := fun ev' => by
        simp [slot, hctx]
      obtain ⟨scheduler, hsome⟩ := Option.isSome_iff_exists.mp (hsch rfl)
      rw [hslot] at hsome
      refine ⟨_, triggerIf_of_scheduler hctx rfl hsome, ⟨fun ev' => ?_, ?_, ?_, ?_⟩,
        List.length_set, fun fd' hne => List.getElem?_set_ne (Ne.symm hne), fun ev' hne => ?_⟩
      · by_cases hev : ev' = ev
        · subst hev
          simp [EventMask.has_single_self]
        · simp [EventMask.has_single_of_ne hev, hev]
      · simp
      · intro t ht
        obtain rfl := List.mem_singleton.mp ht
        exact ⟨rfl, scheduler, (hslot ev).symm ▸ hsome, by rw [hslot]⟩
      · refine EventMask.ext_has (fun ev' => ?_)
        simp only [eventOf, hctx, List.getElem?_set_self hfd, FdContext.event_setContext,
          EventMask.has_without]
        by_cases hev : ev' = ev
        · subst hev
          simp [EventMask.has_single_self]
        · rw [EventMask.has_erase_of_ne hev, EventMask.has_single_of_ne hev]
          simp
      · rw [hslot]
        simp only [slot, List.getElem?_set_self hfd]
        rw [FdContext.getContext_setContext_of_ne hne]
        cases ev' <;> rfl

/-- Without a scheduler it crashes. -/
theorem triggerIf_crash {m : IOManager S Co Cb} {fd : Nat} {ev : EventType}
    (hfd : fd < m.contexts.length) (hnone : (m.slot fd ev).scheduler = none) :
    m.triggerIf fd ev (fun _ => true) = .error .nullScheduler := by
  have hctx := List.getElem?_eq_getElem hfd
  simp only [slot, hctx] at hnone
  simp only [triggerIf, hctx, FdContext.triggerEvent_of_none hnone, if_true]

/-- Two sets of events that have nothing in common are woken one after the other. -/
theorem Wakes.trans {m m₁ m₂ : IOManager S Co Cb} {fd : Nat} {mask n₁ n₂ : EventMask}
    {ts₁ ts₂ : List (Trigger S Co Cb)} (h₁ : Wakes m m₁ fd n₁ ts₁) (h₂ : Wakes m₁ m₂ fd n₂ ts₂)
    (hmask : ∀ ev, mask.has ev = (n₁.has ev || n₂.has ev))
    (hdisjoint : ∀ ev, n₁.has ev = true → n₂.has ev = true → False)
    (hslots : ∀ ev, n₂.has ev = true → m₁.slot fd ev = m.slot fd ev) :
    Wakes m m₂ fd mask (ts₁ ++ ts₂) where
  woken := fun ev => by
    rw [List.map_append, List.mem_append, h₁.woken, h₂.woken, hmask, Bool.or_eq_true]
  once := by
    rw [List.map_append, List.nodup_append']
    refine ⟨h₁.once, h₂.once, fun ev hev₁ hev₂ => ?_⟩
    exact hdisjoint ev ((h₁.woken ev).mp hev₁) ((h₂.woken ev).mp hev₂)
  handlers := fun t ht => by
    rcases List.mem_append.mp ht with ht | ht
    · exact h₁.handlers t ht
    · have hev := (h₂.woken t.ev).mp (List.mem_map_of_mem ht)
      rw [← hslots t.ev hev]
      exact h₂.handlers t ht
  left := EventMask.ext_has (fun ev => by
    rw [h₂.left, h₁.left]
    simp only [EventMask.has_without, hmask, Bool.not_or, Bool.and_assoc])

/-- `READ` and then `WRITE`, each if the mask has it. -/
theorem triggerBoth_wakes {m : IOManager S Co Cb} {fd : Nat} (mask : EventMask)
    (hfd : fd < m.contexts.length)
    (hsch : ∀ ev, mask.has ev = true → (m.slot fd ev).scheduler.isSome = true) :
    ∃ r, m.triggerBoth fd (fun ev _ => mask.has ev) = .ok r ∧
      Wakes m r.manager fd mask r.triggers ∧
      ∀ fd', fd' ≠ fd → r.manager.contexts[fd']? = m.contexts[fd']? := by
  obtain ⟨r, hr, hwakes, helse⟩ := triggerIf_wakes .read (mask.has .read) hfd (hsch .read)
  have hslot : r.manager.slot fd .write = m.slot fd .write := helse.slots .write (by simp)
  obtain ⟨r', hr', hwakes', helse'⟩ := triggerIf_wakes (m := r.manager) .write (mask.has .write)
    (helse.length.symm ▸ hfd) (hslot.symm ▸ hsch .write)
  refine ⟨⟨true, r.triggers ++ r'.triggers, r'.manager⟩, by simp only [triggerBoth, hr, hr'],
    ?_, fun fd' hne => ?_⟩
  · refine hwakes.trans hwakes' (fun ev => ?_) (fun ev => ?_) (fun ev hev => ?_)
    · cases ev <;> simp [EventMask.single, EventMask.has]
    · cases ev <;> simp [EventMask.single, EventMask.has]
    · cases ev with
      | read => simp [EventMask.single, EventMask.has] at hev
      | write => exact hslot
  · exact (helse'.others fd' hne).trans (helse.others fd' hne)

/-- One of the events of the mask has no scheduler. -/
theorem triggerBoth_crash {m : IOManager S Co Cb} {fd : Nat} {mask : EventMask}
    (hfd : fd < m.contexts.length) {ev : EventType} (hev : mask.has ev = true)
    (hnone : (m.slot fd ev).scheduler = none) :
    ∃ crash, m.triggerBoth fd (fun ev _ => mask.has ev) = .error crash := by
  by_cases hread : mask.has .read = true → (m.slot fd .read).scheduler.isSome = true
  · obtain ⟨r, hr, -, helse⟩ := triggerIf_wakes .read (mask.has .read) hfd hread
    cases ev with
    | read =>
        rw [hnone] at hread
        cases hread hev
    | write =>
        have hcrash := triggerIf_crash (m := r.manager) (helse.length.symm ▸ hfd)
          ((helse.slots .write (by simp)).symm ▸ hnone)
        exact ⟨.nullScheduler, by simp only [triggerBoth, hr, hev, hcrash]⟩
  · obtain ⟨hhas, hsch⟩ := Classical.not_imp.mp hread
    have hcrash := triggerIf_crash hfd (Option.not_isSome_iff_eq_none.mp hsch)
    exact ⟨.nullScheduler, by simp only [triggerBoth, hhas, hcrash]⟩

/-! ## One result -/

/-- `epoll` reports descriptors of the table only. -/
theorem lt_of_mayReport {m : IOManager S Co Cb} {e : EpollEvent} (h : m.mayReport e = true) :
    e.fd < m.contexts.length := by
  cases hctx : m.contexts[e.fd]? with
  | none => simp [mayReport, hctx] at h
  | some ctx => exact (List.getElem?_eq_some_iff.mp hctx).1

/-- A result that has bits of registered events only is passed over if it has none. -/
theorem disjoint_eq_isNone {m : IOManager S Co Cb} {e : EpollEvent} (h : m.mayReport e = true) :
    (m.eventOf e.fd).disjoint (realEvents e) = (realEvents e).isNone := by
  have hhas : ∀ ev, (realEvents e).has ev = true → (m.eventOf e.fd).has ev = true := by
    intro ev hready
    rw [has_realEvents] at hready
    exact registered_of_mayReport h hready
  have hread : (realEvents e).read = true → (m.eventOf e.fd).read = true := hhas .read
  have hwrite : (realEvents e).write = true → (m.eventOf e.fd).write = true := hhas .write
  unfold EventMask.disjoint EventMask.isNone
  cases hr : (realEvents e).read <;> cases hw : (realEvents e).write <;> simp_all

/-- What is left of the mask decides the call of `epoll_ctl`. -/
theorem epollCtl_eq {m : IOManager S Co Cb} {e : EpollEvent} (h : m.mayReport e = true) :
    m.epollCtl e =
      if (realEvents e).isNone then none
      else some (ctlFor e.fd ((m.eventOf e.fd).without (realEvents e))) := by
  rw [← disjoint_eq_isNone h]
  have hctx := List.getElem?_eq_getElem (lt_of_mayReport h)
  simp only [epollCtl, eventOf, hctx]

/-- The body of the loop wakes the events of the mask. -/
theorem handleEvent_wakes {m : IOManager S Co Cb} {e : EpollEvent} (h : m.mayReport e = true)
    (hsch : m.Schedulable e) :
    ∃ r, m.handleEvent e = .ok r ∧ Wakes m r.manager e.fd (realEvents e) r.triggers ∧
      ∀ fd, fd ≠ e.fd → r.manager.contexts[fd]? = m.contexts[fd]? := by
  have hctx := List.getElem?_eq_getElem (lt_of_mayReport h)
  have hdisjoint := disjoint_eq_isNone h
  simp only [eventOf, hctx] at hdisjoint
  cases hnone : (realEvents e).isNone with
  | true =>
      refine ⟨⟨true, [], m⟩, ?_, wakes_nothing m e.fd hnone, fun _ _ => rfl⟩
      simp only [handleEvent, hctx, hdisjoint, hnone, if_true]
  | false =>
      obtain ⟨r, hr, hwakes, hothers⟩ := triggerBoth_wakes (realEvents e) (lt_of_mayReport h)
        (fun ev hev => hsch ev ((has_realEvents e ev).symm.trans hev))
      refine ⟨r, ?_, hwakes, hothers⟩
      simp only [handleEvent, hctx, hdisjoint, hnone, hr, if_false, Bool.false_eq_true]

/-- An event that cannot be scheduled ends the process. -/
theorem handleEvent_crash {m : IOManager S Co Cb} {e : EpollEvent} (h : m.mayReport e = true)
    (hsch : ¬ m.Schedulable e) : ∃ crash, m.handleEvent e = .error crash := by
  have hctx := List.getElem?_eq_getElem (lt_of_mayReport h)
  have hdisjoint := disjoint_eq_isNone h
  simp only [eventOf, hctx] at hdisjoint
  obtain ⟨ev, hnot⟩ := not_forall.mp hsch
  obtain ⟨hready, hnone⟩ := Classical.not_imp.mp hnot
  have hhas : (realEvents e).has ev = true := (has_realEvents e ev).trans hready
  have hsome : (realEvents e).isNone = false := by
    cases hall : (realEvents e).isNone with
    | false => rfl
    | true =>
        rw [EventMask.isNone_iff.mp hall ev] at hhas
        cases hhas
  obtain ⟨crash, hcrash⟩ := triggerBoth_crash (lt_of_mayReport h) hhas
    (Option.not_isSome_iff_eq_none.mp hnone)
  refine ⟨crash, ?_⟩
  simp only [handleEvent, hctx, hdisjoint, hsome, hcrash, if_false, Bool.false_eq_true]

/-- Waking the bits of the mask is waking the events concerned exactly if the result
announces them. -/
theorem dispatched_iff {m m' : IOManager S Co Cb} {d : Dispatch S Co Cb}
    (h : m.mayReport d.event = true) (hctl : d.ctl = m.epollCtl d.event)
    (hwakes : Wakes m m' d.event.fd (realEvents d.event) d.triggers) :
    Dispatched m m' d ↔ m.Announces d.event := by
  rw [← realEvents_eq_concerned_iff h]
  constructor
  · intro hd
    refine EventMask.ext_has (fun ev => ?_)
    rw [Bool.eq_iff_iff, ← hwakes.woken, hd.wakes.woken]
  · intro heq
    refine ⟨heq ▸ hwakes, ?_⟩
    rw [← heq, hctl, epollCtl_eq h, hwakes.left]

/-! ## A batch -/

/-- The events of a descriptor depend on its context only. -/
theorem eventOf_congr {m m' : IOManager S Co Cb} {fd : Nat}
    (h : m'.contexts[fd]? = m.contexts[fd]?) : m'.eventOf fd = m.eventOf fd := by
  simp only [eventOf, h]

/-- The slots of a descriptor depend on its context only. -/
theorem slot_congr {m m' : IOManager S Co Cb} {fd : Nat}
    (h : m'.contexts[fd]? = m.contexts[fd]?) (ev : EventType) : m'.slot fd ev = m.slot fd ev := by
  simp only [slot, h]

/-- What is woken depends on the contexts only. -/
theorem Wakes.congr {m m' n n' : IOManager S Co Cb} {fd : Nat} {mask : EventMask}
    {ts : List (Trigger S Co Cb)} (hw : Wakes m m' fd mask ts)
    (h : n.contexts[fd]? = m.contexts[fd]?) (h' : n'.contexts[fd]? = m'.contexts[fd]?) :
    Wakes n n' fd mask ts where
  woken := hw.woken
  once := hw.once
  handlers := fun t ht => by
    rw [slot_congr h]
    exact hw.handlers t ht
  left := by rw [eventOf_congr h', eventOf_congr h, hw.left]

/-- The other results of a batch find their contexts as they were. -/
theorem rest_same {m m' : IOManager S Co Cb} {e : EpollEvent} {rest : List EpollEvent}
    (hfresh : e.fd ∉ rest.map EpollEvent.fd)
    (hothers : ∀ fd, fd ≠ e.fd → m'.contexts[fd]? = m.contexts[fd]?) :
    ∀ e' ∈ rest, m'.contexts[e'.fd]? = m.contexts[e'.fd]? := by
  intro e' he'
  refine hothers e'.fd (fun heq => hfresh ?_)
  exact heq ▸ List.mem_map_of_mem he'

/-- **What the loop does.**  Where no registration changes and every event that is ready
has a scheduler, each result of the batch wakes the events of its mask. -/
theorem dispatch_wakes {m : IOManager S Co Cb} {batch : List EpollEvent}
    (hone : (batch.map EpollEvent.fd).Nodup) (hmay : ∀ e ∈ batch, m.mayReport e = true)
    (hsch : ∀ e ∈ batch, m.Schedulable e) :
    ∃ ds m', m.dispatch batch = .ok (ds, m') ∧ ds.map Dispatch.event = batch ∧
      (∀ d ∈ ds, d.ctl = m.epollCtl d.event ∧
        Wakes m m' d.event.fd (realEvents d.event) d.triggers) ∧
      ∀ fd, fd ∉ batch.map EpollEvent.fd → m'.contexts[fd]? = m.contexts[fd]? := by
  induction batch generalizing m with
  | nil => exact ⟨[], m, rfl, rfl, fun d hd => absurd hd List.not_mem_nil, fun _ _ => rfl⟩
  | cons e rest ih =>
      obtain ⟨r, hr, hwakes, hothers⟩ :=
        handleEvent_wakes (hmay e List.mem_cons_self) (hsch e List.mem_cons_self)
      obtain ⟨hfresh, hone⟩ := List.nodup_cons.mp hone
      have hsame := rest_same hfresh hothers
      obtain ⟨ds, m', hrun, hevents, hall, hframe⟩ := ih (m := r.manager) hone
        (fun e' he' => by
          simpa only [mayReport, hsame e' he'] using hmay e' (List.mem_cons_of_mem e he'))
        (fun e' he' ev hready => by
          rw [slot_congr (hsame e' he')]
          exact hsch e' (List.mem_cons_of_mem e he') ev hready)
      refine ⟨⟨e, m.epollCtl e, r.triggers⟩ :: ds, m', by simp only [dispatch, hr, hrun],
        by simp [hevents], fun d hd => ?_, fun fd hfd => ?_⟩
      · rcases List.mem_cons.mp hd with rfl | hd
        · exact ⟨rfl, hwakes.congr rfl (hframe e.fd hfresh)⟩
        · have hsame := hsame d.event (hevents ▸ List.mem_map_of_mem hd)
          obtain ⟨hctl, hd⟩ := hall d hd
          refine ⟨hctl.trans ?_, hd.congr hsame.symm rfl⟩
          simp only [epollCtl, hsame]
      · have hne : fd ≠ e.fd ∧ fd ∉ rest.map EpollEvent.fd := by
          simpa only [List.map_cons, List.mem_cons, not_or] using hfd
        exact (hframe fd hne.2).trans (hothers fd hne.1)

/-- A batch with an event that cannot be scheduled ends the process. -/
theorem dispatch_crash {m : IOManager S Co Cb} {batch : List EpollEvent}
    (hone : (batch.map EpollEvent.fd).Nodup) (hmay : ∀ e ∈ batch, m.mayReport e = true)
    (hsch : ¬ ∀ e ∈ batch, m.Schedulable e) : ∃ crash, m.dispatch batch = .error crash := by
  induction batch generalizing m with
  | nil => exact absurd (fun e he => absurd he List.not_mem_nil) hsch
  | cons e rest ih =>
      by_cases hhead : m.Schedulable e
      · obtain ⟨r, hr, -, hothers⟩ := handleEvent_wakes (hmay e List.mem_cons_self) hhead
        obtain ⟨hfresh, hone⟩ := List.nodup_cons.mp hone
        have hsame := rest_same hfresh hothers
        obtain ⟨crash, hcrash⟩ := ih (m := r.manager) hone
          (fun e' he' => by
            simpa only [mayReport, hsame e' he'] using hmay e' (List.mem_cons_of_mem e he'))
          (fun hall => hsch (fun e' he' => by
            rcases List.mem_cons.mp he' with rfl | he'
            · exact hhead
            · intro ev hready
              rw [← slot_congr (hsame e' he')]
              exact hall e' he' ev hready))
        exact ⟨crash, by simp only [dispatch, hr, hcrash]⟩
      · obtain ⟨crash, hcrash⟩ := handleEvent_crash (hmay e List.mem_cons_self) hhead
        exact ⟨crash, by simp only [dispatch, hcrash]⟩

/-- **Readiness dispatch.**  For a batch with one result for each descriptor and with bits
of registered events only, the loop triggers exactly the events that the results concern
and registers the others again if and only if every error or hang-up comes with the bits
of all registered events, and every event that is ready has a scheduler. -/
theorem dispatchesAll_iff {m : IOManager S Co Cb} {batch : List EpollEvent}
    (hone : (batch.map EpollEvent.fd).Nodup) (hmay : ∀ e ∈ batch, m.mayReport e = true) :
    m.DispatchesAll batch ↔ ∀ e ∈ batch, m.Announces e ∧ m.Schedulable e := by
  by_cases hsch : ∀ e ∈ batch, m.Schedulable e
  · obtain ⟨ds, m', hrun, hevents, hall, -⟩ := dispatch_wakes hone hmay hsch
    have hiff : ∀ d ∈ ds, Dispatched m m' d ↔ m.Announces d.event := fun d hd =>
      dispatched_iff (hmay d.event (hevents ▸ List.mem_map_of_mem hd)) (hall d hd).1 (hall d hd).2
    constructor
    · rintro ⟨ds', m'', hrun', -, hdispatched⟩ e he
      obtain ⟨rfl, rfl⟩ : ds = ds' ∧ m' = m'' := by
        simpa [hrun] using hrun'
      rw [← hevents] at he
      obtain ⟨d, hd, rfl⟩ := List.mem_map.mp he
      exact ⟨(hiff d hd).mp (hdispatched d hd), hsch d.event (hevents ▸ List.mem_map_of_mem hd)⟩
    · intro h
      refine ⟨ds, m', hrun, hevents, fun d hd => (hiff d hd).mpr ?_⟩
      exact (h d.event (hevents ▸ List.mem_map_of_mem hd)).1
  · constructor
    · rintro ⟨ds, m', hrun, -⟩
      obtain ⟨crash, hcrash⟩ := dispatch_crash hone hmay hsch
      rw [hcrash] at hrun
      cases hrun
    · intro h
      exact absurd (fun e he => (h e he).2) hsch

/-- The context of a descriptor that coroutine 7 waits to read from. -/
def awaited : FdContext Unit Nat Nat :=
  { read := ⟨some (), some 7, none⟩, write := .empty, event := ⟨true, false⟩ }

/-- Coroutine 7 waits to read from descriptor 5. -/
def oneReader : IOManager Unit Nat Nat :=
  { contexts := (new : IOManager Unit Nat Nat).contexts.set 5 awaited, pendingEventCount := 1 }

/-- One coroutine waits for data. -/
theorem addEvent_oneReader :
    (new : IOManager Unit Nat Nat).addEvent 5 .read (.caller 7 true) (some ()) true =
      .ok ⟨true, [], oneReader⟩ := by
  have hnew : (new : IOManager Unit Nat Nat).contexts[5]? = some .new := by
    rw [contexts_new]
    rfl
  have hlt : ((5 : Nat) : Int) < (new : IOManager Unit Nat Nat).contexts.length := by
    simp [contexts_new]
  rw [addEvent, withContext, intSize_eq inv_new.small, if_pos hlt, register, hnew]
  rfl

/-- Its context has the event set. -/
theorem oneReader_context : oneReader.contexts[5]? = some awaited := by
  refine List.getElem?_set_self ?_
  simp [contexts_new]

/-- The peer sends and hangs up, and the reader is woken. -/
theorem oneReader_is_woken : oneReader.DispatchesAll [⟨5, true, false, false, true⟩] := by
  refine (dispatchesAll_iff (by simp) ?_).mpr ?_
  · simp [mayReport, oneReader_context, awaited]
  · intro e he
    obtain rfl := List.mem_singleton.mp he
    refine ⟨fun _ ev hev => ?_, fun ev hready => ?_⟩
    · cases ev with
      | read => rfl
      | write => simp [eventOf, oneReader_context, awaited, EventMask.has] at hev
    · cases ev with
      | read => simp [slot, oneReader_context, awaited, FdContext.getContext]
      | write => cases hready

/-- The peer hangs up without having sent anything: nobody is woken and no `epoll_ctl`
called. -/
theorem hang_up_wakes_nobody :
    (new : IOManager Unit Nat Nat).addEvent 5 .read (.caller 7 true) (some ()) true =
        .ok ⟨true, [], oneReader⟩ ∧
      oneReader.mayReport ⟨5, false, false, false, true⟩ = true ∧
      oneReader.dispatch [⟨5, false, false, false, true⟩] =
        .ok ([⟨⟨5, false, false, false, true⟩, none, []⟩], oneReader) ∧
      ¬ oneReader.DispatchesAll [⟨5, false, false, false, true⟩] := by
  have hrun : oneReader.dispatch [⟨5, false, false, false, true⟩] =
      .ok ([⟨⟨5, false, false, false, true⟩, none, []⟩], oneReader) := by
    simp [dispatch, handleEvent, epollCtl, oneReader_context, awaited, EventMask.disjoint,
      realEvents]
  refine ⟨addEvent_oneReader, by simp [mayReport, oneReader_context], hrun, ?_⟩
  rintro ⟨ds, m', hrun', -, hall⟩
  rw [hrun] at hrun'
  obtain ⟨rfl, rfl⟩ := Prod.ext_iff.mp (Except.ok.inj hrun')
  have hconcerned : (oneReader.concerned ⟨5, false, false, false, true⟩).has .read = true := by
    simp [concerned, eventOf, oneReader_context, awaited, EventMask.has]
  have hmem := ((hall _ List.mem_cons_self).wakes.woken .read).mpr hconcerned
  exact absurd hmem List.not_mem_nil

end IOManager

end Agent
