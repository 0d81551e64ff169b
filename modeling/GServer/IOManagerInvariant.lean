import GServer.IOManager
import Mathlib

/-!
# Accounting of the pending events

`IOManager.Inv` says that an event is registered exactly when its slot has a
scheduler and that the counter is the number of registered events.  `Keeps`
says what one operation does: it keeps the invariant, triggers registered
events only, with the handlers of their slots, and leaves the slots of the
events that stay registered alone.

A worker that handles a stale result triggers every event of the result as
soon as one of them is still registered.  `Accountable` rules this out, together
with the calls that leave the vector.
-/

namespace Agent

open Runs

variable {S Co Cb : Type}

namespace EventMask

@[simp] theorem has_erase_self (m : EventMask) (ev : EventType) :
    (m.erase ev).has ev = false := by
  cases ev <;> rfl

@[simp] theorem has_insert_self (m : EventMask) (ev : EventType) :
    (m.insert ev).has ev = true := by
  cases ev <;> rfl

/-- Erasing one event leaves the other. -/
theorem has_erase_of_ne {m : EventMask} {ev ev' : EventType} (h : ev' ≠ ev) :
    (m.erase ev).has ev' = m.has ev' := by
  cases ev <;> cases ev' <;> first | rfl | exact absurd rfl h

/-- Inserting one event leaves the other. -/
theorem has_insert_of_ne {m : EventMask} {ev ev' : EventType} (h : ev' ≠ ev) :
    (m.insert ev).has ev' = m.has ev' := by
  cases ev <;> cases ev' <;> first | rfl | exact absurd rfl h

/-- Erasing an event that is set leaves one less. -/
theorem card_erase {m : EventMask} {ev : EventType} (h : m.has ev = true) :
    (m.erase ev).card + 1 = m.card := by
  cases ev <;> simp_all [has, erase, card]
  omega

/-- Inserting an event that is not set makes one more. -/
theorem card_insert {m : EventMask} {ev : EventType} (h : m.has ev = false) :
    (m.insert ev).card = m.card + 1 := by
  cases ev <;> simp_all [has, insert, card]
  omega

end EventMask

namespace FdContext

@[simp] theorem getContext_setContext_self (ctx : FdContext S Co Cb)
    (slot : EventContext S Co Cb) (ev : EventType) :
    (ctx.setContext slot ev).getContext ev = slot := by
  cases ev <;> rfl

/-- Writing one slot leaves the other. -/
theorem getContext_setContext_of_ne {ctx : FdContext S Co Cb}
    {slot : EventContext S Co Cb} {ev ev' : EventType} (h : ev' ≠ ev) :
    (ctx.setContext slot ev).getContext ev' = ctx.getContext ev' := by
  cases ev <;> cases ev' <;> first | rfl | exact absurd rfl h

@[simp] theorem event_setContext (ctx : FdContext S Co Cb)
    (slot : EventContext S Co Cb) (ev : EventType) :
    (ctx.setContext slot ev).event = ctx.event := by
  cases ev <;> rfl

/-- An event is registered exactly when its slot has a scheduler. -/
def Registers (ctx : FdContext S Co Cb) : Prop :=
  ∀ ev, ctx.event.has ev = (ctx.getContext ev).scheduler.isSome

/-- A new context has nothing registered, and says so. -/
theorem registers_new : (new : FdContext S Co Cb).Registers := by
  intro ev
  cases ev <;> rfl

/-- Changing a slot and its bit together keeps the two in agreement. -/
theorem Registers.set {ctx : FdContext S Co Cb} (h : ctx.Registers) {ev : EventType}
    {mask : EventMask} {slot : EventContext S Co Cb}
    (hself : mask.has ev = slot.scheduler.isSome)
    (hother : ∀ ev', ev' ≠ ev → mask.has ev' = ctx.event.has ev') :
    ({ ctx with event := mask }.setContext slot ev).Registers := by
  intro ev'
  by_cases hev : ev' = ev
  · subst hev
    simpa using hself
  · rw [getContext_setContext_of_ne hev, event_setContext, hother ev' hev, h ev']
    cases ev' <;> rfl

/-- An event whose slot has a scheduler is triggered with the handler of the slot. -/
theorem triggerEvent_of_scheduler {ctx : FdContext S Co Cb} {ev : EventType} {scheduler : S}
    (hsch : (ctx.getContext ev).scheduler = some scheduler) :
    ctx.triggerEvent ev =
      .ok ((ctx.getContext ev).task.map (fun task => (scheduler, task)),
        { ctx with event := ctx.event.erase ev }.setContext
          { ctx.getContext ev with scheduler := none } ev) := by
  have hslot : ∀ mask : EventMask,
      { ctx with event := mask }.getContext ev = ctx.getContext ev := fun mask => by
    cases ev <;> rfl
  simp only [triggerEvent, hslot, hsch]

end FdContext

namespace IOManager

/-- The number of registered events. -/
def registered (m : IOManager S Co Cb) : Nat :=
  (m.contexts.map (fun ctx => ctx.event.card)).sum

/-- The vector is within the range of `int`, every context agrees with its
slots, and the counter is right. -/
structure Inv (m : IOManager S Co Cb) : Prop where
  big : 32 ≤ m.contexts.length
  small : m.contexts.length < 2 ^ 31
  registers : ∀ ctx ∈ m.contexts, ctx.Registers
  count : m.pendingEventCount = m.registered

/-- A small table has its size as an `int`. -/
theorem intSize_eq {m : IOManager S Co Cb} (h : m.contexts.length < 2 ^ 31) :
    m.intSize = m.contexts.length := by
  unfold intSize Int.bmod
  dsimp only
  split <;> omega

/-- One term of a sum is exchanged. -/
theorem sum_map_set {α : Type} (f : α → Nat) {b : α} :
    ∀ {l : List α} {i : Nat} {a : α}, l[i]? = some a →
      ((l.set i b).map f).sum + f a = (l.map f).sum + f b := by
  intro l
  induction l with
  | nil => intro i a h; simp at h
  | cons x xs ih =>
      intro i a h
      cases i with
      | zero =>
          obtain rfl : x = a := by simpa using h
          simp only [List.set_cons_zero, List.map_cons, List.sum_cons]
          omega
      | succ j =>
          have := ih (i := j) (a := a) (by simpa using h)
          simp only [List.set_cons_succ, List.map_cons, List.sum_cons]
          omega

/-- One context changes, and the counter by as much as its events. -/
theorem Inv.set {m : IOManager S Co Cb} (h : Inv m) {fd : Nat}
    {ctx ctx' : FdContext S Co Cb} {count : Int} (hctx : m.contexts[fd]? = some ctx)
    (hreg : ctx'.Registers)
    (hcount : count + ctx.event.card = m.pendingEventCount + ctx'.event.card) :
    Inv { contexts := m.contexts.set fd ctx', pendingEventCount := count } where
  big := by simpa using h.big
  small := by simpa using h.small
  registers := fun c hc => by
    rcases List.mem_or_eq_of_mem_set hc with hc | rfl
    · exact h.registers c hc
    · exact hreg
  count := by
    have hsum := sum_map_set (fun c : FdContext S Co Cb => c.event.card) (b := ctx') hctx
    have := h.count
    simp only [registered] at this ⊢
    omega

/-- A larger vector has the same events. -/
theorem Inv.contextResize {m : IOManager S Co Cb} (h : Inv m) {size : Nat}
    (hgrow : m.contexts.length ≤ size) (hsmall : size < 2 ^ 31) :
    Inv (m.contextResize size) := by
  have htake : m.contexts.take size = m.contexts := List.take_of_length_le hgrow
  refine ⟨?_, ?_, fun ctx hctx => ?_, ?_⟩
  · have := h.big
    simp only [IOManager.contextResize, htake, List.length_append, List.length_replicate]
    omega
  · simp only [IOManager.contextResize, htake, List.length_append, List.length_replicate]
    omega
  · simp only [IOManager.contextResize, htake] at hctx
    rcases List.mem_append.mp hctx with hctx | hctx
    · exact h.registers ctx hctx
    · obtain rfl := List.eq_of_mem_replicate hctx
      exact FdContext.registers_new
  · have hnew : (FdContext.new : FdContext S Co Cb).event.card = 0 := rfl
    have := h.count
    simpa [IOManager.contextResize, registered, htake, hnew, List.sum_replicate_nat]
      using this

/-- A new manager has 32 contexts. -/
theorem contexts_new : (new : IOManager S Co Cb).contexts = List.replicate 32 .new := by
  simp [new, IOManager.contextResize]

/-- A new manager is in order. -/
theorem inv_new : Inv (new : IOManager S Co Cb) where
  big := by simp [contexts_new]
  small := by simp [contexts_new]
  registers := fun ctx hctx => by
    rw [contexts_new] at hctx
    obtain rfl := List.eq_of_mem_replicate hctx
    exact FdContext.registers_new
  count := by
    have hnone : (FdContext.new : FdContext S Co Cb).event.card = 0 := rfl
    simp only [registered, contexts_new, List.map_replicate, hnone, List.sum_replicate_nat]
    rfl

/-- What an operation that returns does.  `new` is the event it registers. -/
structure Keeps (m : IOManager S Co Cb) (r : Result S Co Cb)
    (new : Option (Nat × EventType)) : Prop where
  inv : Inv r.manager
  grows : m.contexts.length ≤ r.manager.contexts.length
  triggers : ∀ t ∈ r.triggers, t.registered = true ∧
    ∃ ctx scheduler, m.contexts[t.fd]? = some ctx ∧ ctx.event.has t.ev = true ∧
      t.scheduled = (ctx.getContext t.ev).task.map (fun task => (scheduler, task))
  old : ∀ fd ev ctx', r.manager.contexts[fd]? = some ctx' → ctx'.event.has ev = true →
    new ≠ some (fd, ev) →
    ∃ ctx, m.contexts[fd]? = some ctx ∧ ctx.event.has ev = true ∧
      ctx'.getContext ev = ctx.getContext ev

/-- Nothing is done. -/
theorem Keeps.refl {m : IOManager S Co Cb} (h : Inv m) (ret : Bool) :
    Keeps m ⟨ret, [], m⟩ none where
  inv := h
  grows := Nat.le_refl _
  triggers := fun _ ht => absurd ht List.not_mem_nil
  old := fun _ _ ctx hctx hev _ => ⟨ctx, hctx, hev, rfl⟩

/-- Two parts of an operation, one after the other. -/
theorem Keeps.trans {m : IOManager S Co Cb} {r r' : Result S Co Cb}
    {new : Option (Nat × EventType)} (h : Keeps m r none) (h' : Keeps r.manager r' new)
    (ret : Bool) : Keeps m ⟨ret, r.triggers ++ r'.triggers, r'.manager⟩ new where
  inv := h'.inv
  grows := Nat.le_trans h.grows h'.grows
  triggers := fun t ht => by
    rcases List.mem_append.mp ht with ht | ht
    · exact h.triggers t ht
    · obtain ⟨hreg, ctx, scheduler, hctx, hev, hsch⟩ := h'.triggers t ht
      obtain ⟨ctx₀, hctx₀, hev₀, hslot⟩ := h.old t.fd t.ev ctx hctx hev (by simp)
      exact ⟨hreg, ctx₀, scheduler, hctx₀, hev₀, hslot ▸ hsch⟩
  old := fun fd ev ctx hctx hev hne => by
    obtain ⟨ctx₁, hctx₁, hev₁, hslot₁⟩ := h'.old fd ev ctx hctx hev hne
    obtain ⟨ctx₀, hctx₀, hev₀, hslot₀⟩ := h.old fd ev ctx₁ hctx₁ hev₁ (by simp)
    exact ⟨ctx₀, hctx₀, hev₀, hslot₁.trans hslot₀⟩

/-- An operation after a change of the vector that triggers nothing. -/
theorem Keeps.after {m m' : IOManager S Co Cb} {r : Result S Co Cb} {ret : Bool}
    {new : Option (Nat × EventType)} (h : Keeps m ⟨ret, [], m'⟩ none) (h' : Keeps m' r new) :
    Keeps m r new :=
  h.trans h' r.ret

/-- Reading a slot of the vector after one context was changed. -/
theorem get_set {m : IOManager S Co Cb} {fd fd' : Nat} {ctx ctx' ctx'' : FdContext S Co Cb}
    (hctx : m.contexts[fd]? = some ctx) (hget : (m.contexts.set fd ctx')[fd']? = some ctx'') :
    (fd' = fd ∧ ctx' = ctx'') ∨ (fd' ≠ fd ∧ m.contexts[fd']? = some ctx'') := by
  by_cases hfd : fd' = fd
  · subst hfd
    have hlt := (List.getElem?_eq_some_iff.mp hctx).1
    rw [List.getElem?_set_self hlt] at hget
    exact Or.inl ⟨rfl, Option.some.inj hget⟩
  · rw [List.getElem?_set_ne (Ne.symm hfd)] at hget
    exact Or.inr ⟨hfd, hget⟩

/-- **One slot changes.**  The operation replaces the slot and the bit of `ev` in
the context of `fd`; everything else stays. -/
theorem Keeps.ofSet {m : IOManager S Co Cb} (h : Inv m) {fd : Nat} {ev : EventType}
    {ctx : FdContext S Co Cb} {mask : EventMask} {slot : EventContext S Co Cb}
    {count : Int} {ret : Bool} {triggers : List (Trigger S Co Cb)}
    {new : Option (Nat × EventType)}
    (hctx : m.contexts[fd]? = some ctx)
    (hself : mask.has ev = slot.scheduler.isSome)
    (hother : ∀ ev', ev' ≠ ev → mask.has ev' = ctx.event.has ev')
    (hcount : count + ctx.event.card = m.pendingEventCount + mask.card)
    (htriggers : ∀ t ∈ triggers, t.registered = true ∧
      ∃ ctx scheduler, m.contexts[t.fd]? = some ctx ∧ ctx.event.has t.ev = true ∧
        t.scheduled = (ctx.getContext t.ev).task.map (fun task => (scheduler, task)))
    (hnew : mask.has ev = true → new = some (fd, ev)) :
    Keeps m ⟨ret, triggers,
      { contexts := m.contexts.set fd ({ ctx with event := mask }.setContext slot ev)
        pendingEventCount := count }⟩ new where
  inv := h.set hctx ((h.registers ctx (List.mem_of_getElem? hctx)).set hself hother)
    (by simpa using hcount)
  grows := by simp
  triggers := htriggers
  old := fun fd' ev' ctx'' hget hev hne => by
    rcases get_set hctx hget with ⟨rfl, rfl⟩ | ⟨-, hget⟩
    · by_cases hev' : ev' = ev
      · subst hev'
        exact absurd (hnew (by simpa using hev)) hne
      · refine ⟨ctx, hctx, ?_, ?_⟩
        · rw [← hother ev' hev']
          simpa using hev
        · rw [FdContext.getContext_setContext_of_ne hev']
          cases ev' <;> rfl
    · exact ⟨ctx'', hget, hev, rfl⟩

/-- A slot of the resized vector is an old one or new. -/
theorem get_contextResize {m : IOManager S Co Cb} {size fd : Nat}
    {ctx : FdContext S Co Cb} (hgrow : m.contexts.length ≤ size)
    (hget : (m.contextResize size).contexts[fd]? = some ctx) :
    m.contexts[fd]? = some ctx ∨ (m.contexts[fd]? = none ∧ ctx = .new) := by
  simp only [contextResize, List.take_of_length_le hgrow] at hget
  by_cases hfd : fd < m.contexts.length
  · rw [List.getElem?_append_left hfd] at hget
    exact Or.inl hget
  · rw [List.getElem?_append_right (by omega)] at hget
    exact Or.inr ⟨List.getElem?_eq_none (by omega),
      List.eq_of_mem_replicate (List.mem_of_getElem? hget)⟩

/-- The table grows. -/
theorem keeps_contextResize {m : IOManager S Co Cb} (h : Inv m) {size : Nat}
    (hgrow : m.contexts.length ≤ size) (hsmall : size < 2 ^ 31) (ret : Bool) :
    Keeps m ⟨ret, [], m.contextResize size⟩ none where
  inv := h.contextResize hgrow hsmall
  grows := by
    simp only [contextResize, List.take_of_length_le hgrow, List.length_append]
    omega
  triggers := fun _ ht => absurd ht List.not_mem_nil
  old := fun fd ev ctx hget hev _ => by
    rcases get_contextResize hgrow hget with hctx | ⟨-, rfl⟩
    · exact ⟨ctx, hctx, hev, rfl⟩
    · cases ev <;> simp [FdContext.new, EventMask.has] at hev

/-! ## The operations -/

/-- The operation returns and keeps the manager in order, or it stops at one of
the assertions; at the one on the handlers only if it is to register an event.
`new` is the event it registers when it returns true. -/
def Fine (m : IOManager S Co Cb) (new : Option (Nat × EventType)) :
    Except Crash (Result S Co Cb) → Prop
  | .error crash => crash ≠ .nullScheduler ∧ crash ≠ .outOfRange ∧
      (new = none → crash ≠ .handlersStored)
  | .ok r => Keeps m r (if r.ret then new else none)

/-- The test says so, and the slot has a scheduler. -/
theorem triggerIf_of_scheduler {m : IOManager S Co Cb} {fd : Nat} {ev : EventType}
    {test : FdContext S Co Cb → Bool} {ctx : FdContext S Co Cb} {scheduler : S}
    (hctx : m.contexts[fd]? = some ctx) (hfire : test ctx = true)
    (hsch : (ctx.getContext ev).scheduler = some scheduler) :
    m.triggerIf fd ev test = .ok ⟨true,
      [⟨fd, ev, ctx.event.has ev,
        (ctx.getContext ev).task.map (fun task => (scheduler, task))⟩],
      { contexts := m.contexts.set fd ({ ctx with event := ctx.event.erase ev }.setContext
          { ctx.getContext ev with scheduler := none } ev)
        pendingEventCount := m.pendingEventCount - 1 }⟩ := by
  simp only [triggerIf, hctx, hfire, FdContext.triggerEvent_of_scheduler hsch, if_true]

/-- Triggering an event if a test says so, which it does for registered events
only. -/
theorem triggerIf_spec {m : IOManager S Co Cb} (h : Inv m) {fd : Nat} {ev : EventType}
    (test : FdContext S Co Cb → Bool) {ctx : FdContext S Co Cb}
    (hctx : m.contexts[fd]? = some ctx) (htest : test ctx = true → ctx.event.has ev = true) :
    ∃ r, m.triggerIf fd ev test = .ok r ∧ Keeps m r none ∧
      ∃ ctx', r.manager.contexts[fd]? = some ctx' ∧
        ∀ ev', ev' ≠ ev → ctx'.event.has ev' = ctx.event.has ev' := by
  by_cases hfire : test ctx = true
  · have hev := htest hfire
    have hsome : (ctx.getContext ev).scheduler.isSome = true :=
      (h.registers ctx (List.mem_of_getElem? hctx) ev).symm.trans hev
    obtain ⟨scheduler, hsch⟩ := Option.isSome_iff_exists.mp hsome
    refine ⟨_, triggerIf_of_scheduler hctx hfire hsch, ?_, ?_⟩
    · refine Keeps.ofSet h hctx (by simp) (fun ev' hne => EventMask.has_erase_of_ne hne)
        ?_ (fun t ht => ?_) (by simp)
      · have := EventMask.card_erase hev
        omega
      · obtain rfl := List.mem_singleton.mp ht
        exact ⟨hev, ctx, scheduler, hctx, hev, rfl⟩
    · have hlt := (List.getElem?_eq_some_iff.mp hctx).1
      refine ⟨_, List.getElem?_set_self hlt, fun ev' hne => ?_⟩
      rw [FdContext.event_setContext]
      exact EventMask.has_erase_of_ne hne
  · exact ⟨⟨true, [], m⟩, by simp [triggerIf, hctx, hfire], .refl h true, ctx, hctx,
      fun _ _ => rfl⟩

/-- Both events are triggered where they are set. -/
theorem triggerBoth_spec {m : IOManager S Co Cb} (h : Inv m) {fd : Nat}
    (test : EventType → FdContext S Co Cb → Bool) {ctx : FdContext S Co Cb}
    (hctx : m.contexts[fd]? = some ctx)
    (htest : ∀ ev ctx', ctx'.event.has ev = ctx.event.has ev → test ev ctx' = true →
      ctx'.event.has ev = true) :
    ∃ r, m.triggerBoth fd test = .ok r ∧ Keeps m r none ∧
      ∃ ctx', r.manager.contexts[fd]? = some ctx' := by
  obtain ⟨r, hr, hkeeps, ctx₁, hctx₁, hsame⟩ :=
    triggerIf_spec h (test .read) hctx (htest .read ctx rfl)
  obtain ⟨r', hr', hkeeps', ctx₂, hctx₂, -⟩ := triggerIf_spec hkeeps.inv (test .write) hctx₁
    (htest .write ctx₁ (hsame .write (by simp)))
  exact ⟨_, by simp only [triggerBoth, hr, hr'], hkeeps.trans hkeeps' true, ctx₂, hctx₂⟩

/-- A descriptor that passes the test of the source and is not the size itself is
in the vector. -/
theorem get_of_le {m : IOManager S Co Cb} {fd : Nat}
    (hfd : fd ≠ m.contexts.length) (hle : ¬ (m.contexts.length : Int) < fd) :
    ∃ ctx, m.contexts[fd]? = some ctx :=
  ⟨_, List.getElem?_eq_getElem (by omega)⟩

/-- `delEvent` is in order for any descriptor but the size of the table. -/
theorem delEvent_fine {m : IOManager S Co Cb} (h : Inv m) {fd : Nat} {ev : EventType}
    {ok : Bool} (hfd : fd ≠ m.contexts.length) : Fine m none (m.delEvent fd ev ok) := by
  unfold delEvent
  rw [intSize_eq h.small]
  split
  · exact .refl h false
  · rename_i hle
    obtain ⟨ctx, hctx⟩ := get_of_le hfd hle
    simp only [hctx]
    split
    · exact .refl h false
    · rename_i hdo
      have hev : ctx.event.has ev = true := by
        cases hhas : ctx.event.has ev <;> simp_all
      refine Keeps.ofSet h hctx (by simp [EventContext.empty])
        (fun ev' hne => EventMask.has_erase_of_ne hne) ?_
        (fun t ht => absurd ht List.not_mem_nil) (by simp)
      have := EventMask.card_erase hev
      omega

/-- `cancelEvent` is in order for any descriptor but the size of the table. -/
theorem cancelEvent_fine {m : IOManager S Co Cb} (h : Inv m) {fd : Nat} {ev : EventType}
    {ok : Bool} (hfd : fd ≠ m.contexts.length) : Fine m none (m.cancelEvent fd ev ok) := by
  unfold cancelEvent
  rw [intSize_eq h.small]
  split
  · exact .refl h false
  · rename_i hle
    obtain ⟨ctx, hctx⟩ := get_of_le hfd hle
    simp only [hctx]
    split
    · exact .refl h false
    · rename_i hdo
      have hev : ctx.event.has ev = true := by
        cases hhas : ctx.event.has ev <;> simp_all
      obtain ⟨r, hr, hkeeps, -⟩ := triggerIf_spec h (fun _ => true) hctx (fun _ => hev)
      simpa [hr, Fine] using hkeeps

/-- `cancelAll` is in order for any descriptor but the size of the table. -/
theorem cancelAll_fine {m : IOManager S Co Cb} (h : Inv m) {fd : Nat} {ok : Bool}
    (hfd : fd ≠ m.contexts.length) : Fine m none (m.cancelAll fd ok) := by
  unfold cancelAll
  rw [intSize_eq h.small]
  split
  · exact .refl h false
  · rename_i hle
    obtain ⟨ctx, hctx⟩ := get_of_le hfd hle
    simp only [hctx]
    split
    · exact .refl h false
    · obtain ⟨r, hr, hkeeps, ctx', hctx'⟩ := triggerBoth_spec h
        (fun ev ctx => ctx.event.has ev) hctx (fun _ _ _ hhas => hhas)
      simp only [hr, hctx']
      split
      · simpa [Fine] using hkeeps
      · exact ⟨by simp, by simp, by simp⟩

/-- A result whose events are all registered, or none of them, is handled. -/
theorem handleEvent_fine {m : IOManager S Co Cb} (h : Inv m) {e : EpollEvent}
    {ctx : FdContext S Co Cb} (hctx : m.contexts[e.fd]? = some ctx)
    (hclean : ctx.event.disjoint (realEvents e) = false →
      ∀ ev, (realEvents e).has ev = true → ctx.event.has ev = true) :
    Fine m none (m.handleEvent e) := by
  unfold handleEvent
  simp only [hctx]
  split
  · exact .refl h true
  · rename_i hmeets
    obtain ⟨r, hr, hkeeps, -⟩ := triggerBoth_spec h (fun ev _ => (realEvents e).has ev) hctx
      (fun ev ctx' hsame hreal => hsame.trans (hclean (by simpa using hmeets) ev hreal))
    simpa [hr, Fine] using hkeeps

/-- The handlers stored for an event; an event without a context has none. -/
def slot (m : IOManager S Co Cb) (fd : Nat) (ev : EventType) : EventContext S Co Cb :=
  match m.contexts[fd]? with
  | none => .empty
  | some ctx => ctx.getContext ev

/-- What `addEvent` makes of the slot. -/
def stored (slot : EventContext S Co Cb) (handler : Handler Co Cb) (this : Option S) :
    EventContext S Co Cb :=
  match handler with
  | .callback f => { slot with scheduler := this, cb := some f }
  | .caller c _ => { slot with scheduler := this, coroutine := some c }

/-- The first half of `addEvent` provides the context and keeps the slots. -/
theorem withContext_spec {m : IOManager S Co Cb} (h : Inv m) {fd : Nat}
    (hfd : fd < m.contexts.length ∨ fd * 3 / 2 < 2 ^ 31) :
    ∃ m', m.withContext fd = m' ∧ Keeps m ⟨false, [], m'⟩ none ∧
      ∃ ctx, m'.contexts[fd]? = some ctx ∧ ∀ ev, ctx.getContext ev = m.slot fd ev := by
  unfold withContext
  rw [intSize_eq h.small]
  by_cases hlt : fd < m.contexts.length
  · refine ⟨m, if_pos (by omega), .refl h false, _, List.getElem?_eq_getElem hlt,
      fun ev => ?_⟩
    simp [slot, List.getElem?_eq_getElem hlt]
  · have hbig := h.big
    have hgrow : m.contexts.length ≤ fd * 3 / 2 := by omega
    refine ⟨_, if_neg (by omega), keeps_contextResize h hgrow (by omega) false, .new, ?_,
      fun ev => ?_⟩
    · simp only [contextResize, List.take_of_length_le hgrow]
      rw [List.getElem?_append_right (by omega), List.getElem?_replicate, if_pos (by omega)]
    · have hnone : m.contexts[fd]? = none := List.getElem?_eq_none (by omega)
      cases ev <;> simp [slot, hnone, FdContext.new, FdContext.getContext]

/-- The second half of `addEvent`, by a thread of a scheduler. -/
theorem register_spec {m : IOManager S Co Cb} (h : Inv m) {fd : Nat} (ev : EventType)
    (handler : Handler Co Cb) {this : Option S} (ok : Bool) {ctx : FdContext S Co Cb}
    (hthis : this.isSome = true) (hctx : m.contexts[fd]? = some ctx) :
    Fine m (some (fd, ev)) (m.register fd ev handler this ok) ∧
    (∀ r, m.register fd ev handler this ok = .ok r → r.ret = true →
      (ctx.getContext ev).scheduler = none ∧
      ∃ ctx', r.manager.contexts[fd]? = some ctx' ∧
        ctx'.getContext ev = stored (ctx.getContext ev) handler this) ∧
    (m.register fd ev handler this ok = .error .handlersStored →
      (ctx.getContext ev).scheduler = none ∧
      (ctx.getContext ev).coroutine.isSome = true ∧ (ctx.getContext ev).cb.isSome = true) := by
  have hlt := (List.getElem?_eq_some_iff.mp hctx).1
  simp only [register, hctx]
  by_cases hhas : ctx.event.has ev = true
  · simp [hhas, Fine]
  rw [if_neg hhas]
  have hhas : ctx.event.has ev = false := by simpa using hhas
  cases ok with
  | false =>
      refine ⟨.refl h false, fun r hr hret => ?_, by simp⟩
      obtain rfl := Except.ok.inj hr
      simp at hret
  | true =>
      rw [if_neg (by simp)]
      by_cases hsch : (ctx.getContext ev).scheduler.isSome = true
      · simp [hsch, Fine]
      rw [if_neg hsch]
      have hnone : (ctx.getContext ev).scheduler = none := by simpa using hsch
      by_cases hboth : ((ctx.getContext ev).coroutine.isSome &&
          (ctx.getContext ev).cb.isSome) = true
      · rw [if_pos hboth]
        exact ⟨⟨by simp, by simp, by simp⟩, fun r hr => by simp at hr,
          fun _ => ⟨hnone, by simpa using hboth⟩⟩
      rw [if_neg hboth]
      have hcard := EventMask.card_insert hhas
      have store : ∀ slot : EventContext S Co Cb, slot.scheduler = this →
          Keeps m ⟨true, [],
            { contexts := m.contexts.set fd
                ({ ctx with event := ctx.event.insert ev }.setContext slot ev)
              pendingEventCount := m.pendingEventCount + 1 }⟩ (some (fd, ev)) := by
        intro slot hthis'
        exact Keeps.ofSet h hctx (by simp [hthis', hthis])
          (fun ev' hne => EventMask.has_insert_of_ne hne) (by omega)
          (fun t ht => absurd ht List.not_mem_nil) (fun _ => rfl)
      cases handler with
      | callback f =>
          refine ⟨store _ rfl, fun r hr _ => ?_, by simp⟩
          obtain rfl := Except.ok.inj hr
          exact ⟨hnone, _, List.getElem?_set_self hlt, by simp [stored]⟩
      | caller c exec =>
          cases exec with
          | true =>
              refine ⟨store _ rfl, fun r hr _ => ?_, by simp⟩
              obtain rfl := Except.ok.inj hr
              exact ⟨hnone, _, List.getElem?_set_self hlt, by simp [stored]⟩
          | false => simp [Fine]

/-- `addEvent` by a thread of a scheduler. -/
theorem addEvent_spec {m : IOManager S Co Cb} (h : Inv m) {fd : Nat} {ev : EventType}
    {handler : Handler Co Cb} {this : Option S} {ok : Bool} (hthis : this.isSome = true)
    (hfd : fd < m.contexts.length ∨ fd * 3 / 2 < 2 ^ 31) :
    Fine m (some (fd, ev)) (m.addEvent fd ev handler this ok) ∧
    (∀ r, m.addEvent fd ev handler this ok = .ok r → r.ret = true →
      (m.slot fd ev).scheduler = none ∧
      ∃ ctx, r.manager.contexts[fd]? = some ctx ∧
        ctx.getContext ev = stored (m.slot fd ev) handler this) ∧
    (m.addEvent fd ev handler this ok = .error .handlersStored →
      (m.slot fd ev).scheduler = none ∧
      (m.slot fd ev).coroutine.isSome = true ∧ (m.slot fd ev).cb.isSome = true) := by
  obtain ⟨m', hm', hkeeps, ctx, hctx, hslot⟩ := withContext_spec h hfd
  obtain ⟨hfine, hstored, hboth⟩ :=
    register_spec hkeeps.inv ev handler ok hthis hctx
  rw [hslot] at hstored hboth
  unfold addEvent
  rw [hm']
  refine ⟨?_, hstored, hboth⟩
  cases hr : m'.register fd ev handler this ok with
  | error crash =>
      rw [hr] at hfine
      exact hfine
  | ok r =>
      rw [hr] at hfine
      exact hkeeps.after hfine

end IOManager

end Agent
