import GServer.IOManagerInvariant
import Mathlib

/-!
# Event operations that fail

A call of `addEvent`, `delEvent`, `cancelEvent` or `cancelAll` can fail because
the event is not registered, because `epoll_ctl` fails or because the descriptor
is not in `m_fdContexts`.  Every update comes after the last step that can fail,
so a failed call on a descriptor of the vector leaves its context, the counter and
the scheduler as they were.

The three operations that do not grow the vector test the descriptor with
`(int)m_fdContexts.size() < fd`, which lets the size itself through.  Which
descriptor that is depends on the descriptors that `addEvent` was given before:
`EventSystem.tableSize` computes it from them.
-/

namespace Agent

variable {S Co Cb : Type}

/-- A call of an event operation; `ok` tells whether its `epoll_ctl` succeeds. -/
inductive EventCall (S Co Cb : Type)
  | addEvent (fd : Nat) (ev : EventType) (handler : Handler Co Cb) (this : Option S)
      (ok : Bool)
  | delEvent (fd : Nat) (ev : EventType) (ok : Bool)
  | cancelEvent (fd : Nat) (ev : EventType) (ok : Bool)
  | cancelAll (fd : Nat) (ok : Bool)

/-- The descriptor a call is about. -/
def EventCall.fd : EventCall S Co Cb → Nat
  | .addEvent fd _ _ _ _ => fd
  | .delEvent fd _ _ => fd
  | .cancelEvent fd _ _ => fd
  | .cancelAll fd _ => fd

/-- Whether the call is one of `addEvent`, which grows the vector. -/
def EventCall.adds : EventCall S Co Cb → Bool
  | .addEvent .. => true
  | _ => false

namespace IOManager

/-- One call. -/
def call (m : IOManager S Co Cb) : EventCall S Co Cb → Except Crash (Result S Co Cb)
  | .addEvent fd ev handler this ok => m.addEvent fd ev handler this ok
  | .delEvent fd ev ok => m.delEvent fd ev ok
  | .cancelEvent fd ev ok => m.cancelEvent fd ev ok
  | .cancelAll fd ok => m.cancelAll fd ok

/-- The call left the context of the descriptor, the counter and the queue of the
scheduler alone. -/
structure Unchanged (m : IOManager S Co Cb) (fd : Nat) (r : Result S Co Cb) : Prop where
  context : r.manager.contexts[fd]? = m.contexts[fd]?
  count : r.manager.pendingEventCount = m.pendingEventCount
  queue : r.triggers = []

/-- The call stays within `m_fdContexts`, and beyond it returns false at once. -/
structure SafeLookup (m : IOManager S Co Cb) (c : EventCall S Co Cb) : Prop where
  inRange : m.call c ≠ .error .outOfRange
  unknown : m.contexts.length ≤ c.fd → m.call c = .ok ⟨false, [], m⟩

/-! ## A failed call changes nothing -/

/-- A call that does nothing changes nothing. -/
theorem Unchanged.refl (m : IOManager S Co Cb) (fd : Nat) (ret : Bool) :
    Unchanged m fd ⟨ret, [], m⟩ :=
  ⟨rfl, rfl, rfl⟩

/-- `resize` keeps what lies below the new size. -/
theorem contextResize_getElem? {m : IOManager S Co Cb} {size fd : Nat} (hsize : fd < size)
    (hfd : fd < m.contexts.length) :
    (m.contextResize size).contexts[fd]? = m.contexts[fd]? := by
  have hlt : fd < (m.contexts.take size).length := by
    rw [List.length_take]
    omega
  simp [contextResize, List.getElem?_append_left hlt, hsize]

/-- The second half of `addEvent` fails only in `epoll_ctl`, before it writes
anything. -/
theorem register_failed {m : IOManager S Co Cb} {fd : Nat} {ev : EventType}
    {handler : Handler Co Cb} {this : Option S} {ok : Bool} {r : Result S Co Cb}
    (hrun : m.register fd ev handler this ok = .ok r) (hret : r.ret = false) :
    r = ⟨false, [], m⟩ ∧ ∃ ctx, m.contexts[fd]? = some ctx := by
  unfold register at hrun
  cases hctx : m.contexts[fd]? with
  | none => simp [hctx] at hrun
  | some ctx =>
      refine ⟨?_, ctx, rfl⟩
      simp only [hctx] at hrun
      cases hhas : ctx.event.has ev with
      | true => simp [hhas] at hrun
      | false =>
          cases ok with
          | false =>
              obtain rfl : ⟨false, [], m⟩ = r := by simpa [hhas] using hrun
              rfl
          | true =>
              simp only [hhas, Bool.false_eq_true, if_false, Bool.not_true] at hrun
              -- what is stored is reported as a success
              split at hrun
              · cases hrun
              split at hrun
              · cases hrun
              cases handler with
              | callback f =>
                  obtain rfl := Except.ok.inj hrun
                  cases hret
              | caller c exec =>
                  cases exec with
                  | false => simp at hrun
                  | true =>
                      simp only [if_true] at hrun
                      obtain rfl := Except.ok.inj hrun
                      cases hret

/-- `addEvent` that fails has registered nothing. -/
theorem addEvent_failed {m : IOManager S Co Cb} {fd : Nat} {ev : EventType}
    {handler : Handler Co Cb} {this : Option S} {ok : Bool} {r : Result S Co Cb}
    (hfd : fd < m.contexts.length) (hrun : m.addEvent fd ev handler this ok = .ok r)
    (hret : r.ret = false) : Unchanged m fd r := by
  obtain ⟨rfl, ctx, hctx⟩ := register_failed hrun hret
  unfold withContext at hctx ⊢
  split
  · exact .refl m fd false
  · rename_i hge
    -- a vector that grew has the descriptor
    rw [if_neg hge] at hctx
    have hsize : fd < fd * 3 / 2 := by
      have hlt := (List.getElem?_eq_some_iff.mp hctx).1
      simp only [contextResize, List.length_append, List.length_take,
        List.length_replicate] at hlt
      omega
    exact ⟨contextResize_getElem? hsize hfd, rfl, rfl⟩

/-- What triggers an event returns true. -/
theorem triggerIf_ret {m : IOManager S Co Cb} {fd : Nat} {ev : EventType}
    {test : FdContext S Co Cb → Bool} {r : Result S Co Cb}
    (hrun : m.triggerIf fd ev test = .ok r) : r.ret = true := by
  unfold triggerIf at hrun
  cases hctx : m.contexts[fd]? with
  | none => simp [hctx] at hrun
  | some ctx =>
      simp only [hctx] at hrun
      split at hrun
      · cases htrigger : ctx.triggerEvent ev with
        | error crash => simp [htrigger] at hrun
        | ok p =>
            simp only [htrigger] at hrun
            obtain rfl := Except.ok.inj hrun
            rfl
      · obtain rfl := Except.ok.inj hrun
        rfl

/-- A trigger never fails. -/
theorem triggerBoth_ret {m : IOManager S Co Cb} {fd : Nat}
    {test : EventType → FdContext S Co Cb → Bool} {r : Result S Co Cb}
    (hrun : m.triggerBoth fd test = .ok r) : r.ret = true := by
  unfold triggerBoth at hrun
  cases hread : m.triggerIf fd .read (test .read) with
  | error crash => simp [hread] at hrun
  | ok r₁ =>
      cases hwrite : r₁.manager.triggerIf fd .write (test .write) with
      | error crash => simp [hread, hwrite] at hrun
      | ok r₂ =>
          simp only [hread, hwrite] at hrun
          obtain rfl := Except.ok.inj hrun
          rfl

/-- `delEvent` that fails has deleted nothing. -/
theorem delEvent_failed {m : IOManager S Co Cb} {fd : Nat} {ev : EventType} {ok : Bool}
    {r : Result S Co Cb} (hrun : m.delEvent fd ev ok = .ok r) (hret : r.ret = false) :
    r = ⟨false, [], m⟩ := by
  unfold delEvent at hrun
  split at hrun
  · exact (Except.ok.inj hrun).symm
  cases hctx : m.contexts[fd]? with
  | none => simp [hctx] at hrun
  | some ctx =>
      simp only [hctx] at hrun
      split at hrun
      · exact (Except.ok.inj hrun).symm
      · obtain rfl := Except.ok.inj hrun
        cases hret

/-- `cancelEvent` that fails has cancelled nothing. -/
theorem cancelEvent_failed {m : IOManager S Co Cb} {fd : Nat} {ev : EventType} {ok : Bool}
    {r : Result S Co Cb} (hrun : m.cancelEvent fd ev ok = .ok r) (hret : r.ret = false) :
    r = ⟨false, [], m⟩ := by
  unfold cancelEvent at hrun
  split at hrun
  · exact (Except.ok.inj hrun).symm
  cases hctx : m.contexts[fd]? with
  | none => simp [hctx] at hrun
  | some ctx =>
      simp only [hctx] at hrun
      split at hrun
      · exact (Except.ok.inj hrun).symm
      · simp [triggerIf_ret hrun] at hret

/-- `cancelAll` that fails has cancelled nothing. -/
theorem cancelAll_failed {m : IOManager S Co Cb} {fd : Nat} {ok : Bool}
    {r : Result S Co Cb} (hrun : m.cancelAll fd ok = .ok r) (hret : r.ret = false) :
    r = ⟨false, [], m⟩ := by
  unfold cancelAll at hrun
  split at hrun
  · exact (Except.ok.inj hrun).symm
  cases hctx : m.contexts[fd]? with
  | none => simp [hctx] at hrun
  | some ctx =>
      simp only [hctx] at hrun
      split at hrun
      · exact (Except.ok.inj hrun).symm
      · cases hboth : m.triggerBoth fd (fun ev ctx => ctx.event.has ev) with
        | error crash => simp [hboth] at hrun
        | ok r' =>
            simp only [hboth] at hrun
            cases hctx' : r'.manager.contexts[fd]? with
            | none => simp [hctx'] at hrun
            | some ctx' =>
                simp only [hctx'] at hrun
                split at hrun
                · obtain rfl := Except.ok.inj hrun
                  simp [triggerBoth_ret hboth] at hret
                · cases hrun

/-- **Failed event operations change nothing.**  A call on a descriptor of the vector
that fails leaves the context, the counter and the queue unchanged. -/
theorem failed_call_unchanged (m : IOManager S Co Cb) (c : EventCall S Co Cb)
    (r : Result S Co Cb) (hfd : c.fd < m.contexts.length) (hrun : m.call c = .ok r)
    (hret : r.ret = false) : Unchanged m c.fd r := by
  cases c with
  | addEvent fd ev handler this ok => exact addEvent_failed hfd hrun hret
  | delEvent fd ev ok => exact delEvent_failed hrun hret ▸ .refl m fd false
  | cancelEvent fd ev ok => exact cancelEvent_failed hrun hret ▸ .refl m fd false
  | cancelAll fd ok => exact cancelAll_failed hrun hret ▸ .refl m fd false

/-- Descriptor 5 awaits a read; `epoll_ctl` fails in `cancelEvent`. -/
def oneAwaited : IOManager Unit Nat Nat :=
  { contexts := List.replicate 5 .new ++
      [{ read := { scheduler := some (), coroutine := some 1, cb := none }
         write := .empty, event := ⟨true, false⟩ }]
    pendingEventCount := 1 }

/-- `epoll_ctl` refuses, and the event is still awaited. -/
theorem failed_cancelEvent_unchanged :
    let r : Result Unit Nat Nat := ⟨false, [], oneAwaited⟩
    oneAwaited.call (.cancelEvent 5 .read false) = .ok r ∧ Unchanged oneAwaited 5 r := by
  intro r
  have hrun : oneAwaited.call (.cancelEvent 5 .read false) = .ok r := by
    simp [call, cancelEvent, oneAwaited, r, EventMask.has, intSize_eq]
  exact ⟨hrun, failed_call_unchanged oneAwaited _ r (by decide) hrun rfl⟩

/-! ## Descriptors outside the vector -/

/-- `triggerIf` on a descriptor of the vector stays in it and keeps its size. -/
theorem triggerIf_inRange {m : IOManager S Co Cb} {fd : Nat} (ev : EventType)
    (test : FdContext S Co Cb → Bool) (hfd : fd < m.contexts.length) :
    m.triggerIf fd ev test ≠ .error .outOfRange ∧
    ∀ r, m.triggerIf fd ev test = .ok r →
      r.manager.contexts.length = m.contexts.length := by
  have hctx := List.getElem?_eq_getElem hfd
  simp only [triggerIf, hctx]
  split
  · unfold FdContext.triggerEvent
    dsimp only
    cases hsch : (FdContext.getContext { m.contexts[fd] with
        event := m.contexts[fd].event.erase ev } ev).scheduler with
    | none => simp
    | some scheduler =>
        refine ⟨by simp, fun r hr => ?_⟩
        obtain rfl := Except.ok.inj hr
        simp
  · refine ⟨by simp, fun r hr => ?_⟩
    obtain rfl := Except.ok.inj hr
    rfl

/-- A trigger stays within the table. -/
theorem triggerBoth_inRange {m : IOManager S Co Cb} {fd : Nat}
    (test : EventType → FdContext S Co Cb → Bool) (hfd : fd < m.contexts.length) :
    m.triggerBoth fd test ≠ .error .outOfRange ∧
    ∀ r, m.triggerBoth fd test = .ok r →
      r.manager.contexts.length = m.contexts.length := by
  obtain ⟨hread, hlen⟩ := triggerIf_inRange .read (test .read) hfd
  cases hr₁ : m.triggerIf fd .read (test .read) with
  | error crash =>
      rw [hr₁] at hread
      simpa [triggerBoth, hr₁] using hread
  | ok r₁ =>
      have hlen₁ := hlen r₁ hr₁
      obtain ⟨hwrite, hlen'⟩ :=
        triggerIf_inRange (m := r₁.manager) .write (test .write) (hlen₁.symm ▸ hfd)
      cases hr₂ : r₁.manager.triggerIf fd .write (test .write) with
      | error crash =>
          rw [hr₂] at hwrite
          simpa [triggerBoth, hr₁, hr₂] using hwrite
      | ok r₂ =>
          refine ⟨by simp [triggerBoth, hr₁, hr₂], fun r hr => ?_⟩
          simp only [triggerBoth, hr₁, hr₂] at hr
          obtain rfl := Except.ok.inj hr
          exact (hlen' r₂ hr₂).trans hlen₁

/-- A call on a descriptor of the vector stays in it and keeps its size, unless it
is `addEvent`. -/
theorem call_inRange {m : IOManager S Co Cb} {c : EventCall S Co Cb} (hadds : c.adds = false)
    (hfd : c.fd < m.contexts.length) :
    m.call c ≠ .error .outOfRange ∧
    ∀ r, m.call c = .ok r → r.manager.contexts.length = m.contexts.length := by
  have hrefl : ∀ r : Result S Co Cb, (.ok ⟨false, [], m⟩ : Except Crash _) = .ok r →
      r.manager.contexts.length = m.contexts.length := by
    intro r hr
    obtain rfl := Except.ok.inj hr
    rfl
  cases c with
  | addEvent fd ev handler this ok => cases hadds
  | delEvent fd ev ok =>
      have hlt : fd < m.contexts.length := hfd
      simp only [call, delEvent, List.getElem?_eq_getElem hlt]
      split
      · exact ⟨by simp, hrefl⟩
      split
      · exact ⟨by simp, hrefl⟩
      · refine ⟨by simp, fun r hr => ?_⟩
        obtain rfl := Except.ok.inj hr
        simp
  | cancelEvent fd ev ok =>
      have hlt : fd < m.contexts.length := hfd
      simp only [call, cancelEvent, List.getElem?_eq_getElem hlt]
      split
      · exact ⟨by simp, hrefl⟩
      split
      · exact ⟨by simp, hrefl⟩
      · exact triggerIf_inRange ev _ hlt
  | cancelAll fd ok =>
      have hlt : fd < m.contexts.length := hfd
      simp only [call, cancelAll, List.getElem?_eq_getElem hlt]
      split
      · exact ⟨by simp, hrefl⟩
      split
      · exact ⟨by simp, hrefl⟩
      obtain ⟨hboth, hlen⟩ := triggerBoth_inRange (fun ev ctx => ctx.event.has ev) hlt
      cases hr : m.triggerBoth fd (fun ev ctx => ctx.event.has ev) with
      | error crash =>
          rw [hr] at hboth
          simpa using hboth
      | ok r =>
          have hlt' := Nat.lt_of_lt_of_eq hlt (hlen r hr).symm
          simp only [List.getElem?_eq_getElem hlt']
          split
          · refine ⟨by simp, fun r' hr' => ?_⟩
            obtain rfl := Except.ok.inj hr'
            exact hlen r hr
          · simp

theorem intSize_le (m : IOManager S Co Cb) : m.intSize ≤ m.contexts.length := by
  unfold intSize Int.bmod
  dsimp only
  split <;> omega

/-- What the three operations do where the test of the source fails, and where it
passes beyond the vector. -/
theorem call_unknown {m : IOManager S Co Cb} {c : EventCall S Co Cb} (hadds : c.adds = false)
    (hfd : m.contexts.length ≤ c.fd) :
    m.call c = if m.intSize < c.fd then .ok ⟨false, [], m⟩ else .error .outOfRange := by
  have hnone : m.contexts[c.fd]? = none := List.getElem?_eq_none hfd
  cases c with
  | addEvent fd ev handler this ok => cases hadds
  | delEvent fd ev ok | cancelEvent fd ev ok | cancelAll fd ok =>
      simp only [EventCall.fd] at hnone ⊢
      simp only [call, delEvent, cancelEvent, cancelAll, hnone]
      rfl

/-- The three operations are safe on every descriptor but the size. -/
theorem safeLookup_iff {m : IOManager S Co Cb} {c : EventCall S Co Cb} (hadds : c.adds = false)
    (hint : c.fd < 2 ^ 31) : SafeLookup m c ↔ c.fd ≠ m.contexts.length := by
  constructor
  · rintro ⟨hin, -⟩ heq
    rw [heq] at hint
    have hpass : ¬ m.intSize < c.fd := by
      rw [intSize_eq hint, heq]
      exact Int.lt_irrefl _
    rw [call_unknown hadds (Nat.le_of_eq heq.symm), if_neg hpass] at hin
    exact hin rfl
  · intro hne
    rcases Nat.lt_or_gt_of_ne hne with hlt | hgt
    · exact ⟨(call_inRange hadds hlt).1, fun hle => absurd hle (Nat.not_le_of_lt hlt)⟩
    · have hsmall : m.intSize < c.fd :=
        Int.lt_of_le_of_lt m.intSize_le (Int.ofNat_lt.mpr hgt)
      have hcall := call_unknown hadds (Nat.le_of_lt hgt)
      rw [if_pos hsmall] at hcall
      exact ⟨by simp [hcall], fun _ => hcall⟩

/-- The table has the size that it is given. -/
theorem contextResize_length (m : IOManager S Co Cb) (size : Nat) :
    (m.contextResize size).contexts.length = size := by
  simp only [contextResize, List.length_append, List.length_take, List.length_replicate]
  omega

/-- A registration leaves the size of the table. -/
theorem register_length {m : IOManager S Co Cb} {fd : Nat} {ev : EventType}
    {handler : Handler Co Cb} {this : Option S} {ok : Bool} {r : Result S Co Cb}
    (hrun : m.register fd ev handler this ok = .ok r) :
    r.manager.contexts.length = m.contexts.length := by
  unfold register at hrun
  cases hctx : m.contexts[fd]? with
  | none => simp [hctx] at hrun
  | some ctx =>
      simp only [hctx] at hrun
      split at hrun
      · cases hrun
      split at hrun
      · obtain rfl := Except.ok.inj hrun
        rfl
      split at hrun
      · cases hrun
      split at hrun
      · cases hrun
      cases handler with
      | callback f =>
          obtain rfl := Except.ok.inj hrun
          simp
      | caller c exec =>
          cases exec with
          | false => simp at hrun
          | true =>
              simp only [if_true] at hrun
              obtain rfl := Except.ok.inj hrun
              simp

end IOManager

namespace EventSystem

open IOManager

variable {W : Type} [DecidableEq W]

/-- The size of `m_fdContexts` after a step, from its size before. -/
def grow (size : Nat) : EventAct S Co Cb W → Nat
  | .addEvent fd _ _ _ _ => if (fd : Int) < Int.bmod size (2 ^ 32) then size else fd * 3 / 2
  | _ => size

/-- The size of `m_fdContexts` after a history of steps. -/
def tableSize (acts : List (EventAct S Co Cb W)) : Nat :=
  acts.foldl grow 32

/-- The table grows for a descriptor that it does not hold. -/
theorem withContext_length (m : IOManager S Co Cb) (fd : Nat) :
    (m.withContext fd).contexts.length =
      if (fd : Int) < Int.bmod m.contexts.length (2 ^ 32) then m.contexts.length
      else fd * 3 / 2 := by
  unfold withContext intSize
  by_cases hlt : (fd : Int) < Int.bmod m.contexts.length (2 ^ 32)
  · rw [if_pos hlt, if_pos hlt]
  · rw [if_neg hlt, if_neg hlt, contextResize_length]

/-- Every operation but `addEvent` leaves the size alone. -/
theorem call_length {m : IOManager S Co Cb} {c : EventCall S Co Cb} (hadds : c.adds = false)
    {r : Result S Co Cb} (hrun : m.call c = .ok r) :
    r.manager.contexts.length = m.contexts.length := by
  rcases Nat.lt_or_ge c.fd m.contexts.length with hlt | hge
  · exact (call_inRange hadds hlt).2 r hrun
  · rw [call_unknown hadds hge] at hrun
    split at hrun
    · obtain rfl := Except.ok.inj hrun
      rfl
    · cases hrun

/-- An event leaves the size of the table. -/
theorem handleEvent_length {m : IOManager S Co Cb} {e : EpollEvent} {r : Result S Co Cb}
    (hrun : m.handleEvent e = .ok r) : r.manager.contexts.length = m.contexts.length := by
  unfold handleEvent at hrun
  cases hctx : m.contexts[e.fd]? with
  | none => simp [hctx] at hrun
  | some ctx =>
      simp only [hctx] at hrun
      split at hrun
      · obtain rfl := Except.ok.inj hrun
        rfl
      · exact (triggerBoth_inRange _ (List.getElem?_eq_some_iff.mp hctx).1).2 r hrun

omit [DecidableEq W] in
/-- A step that leaves the system running leaves the manager of its operation. -/
theorem finish_alive {s : EventSystem S Co Cb W}
    {register : Bool → Nat → EventType → Option (Task Co Cb)}
    {res : Except Crash (Result S Co Cb)} (halive : (s.finish register res).crash = none) :
    ∃ r, res = .ok r ∧ (s.finish register res).manager = r.manager := by
  cases res with
  | error crash => simp [finish] at halive
  | ok r => exact ⟨r, rfl, rfl⟩

/-- A step of a running system makes the vector as large as its history says. -/
theorem step_length {s s' : EventSystem S Co Cb W} {a : EventAct S Co Cb W}
    (hstep : s.step a = some s') (halive : s'.crash = none) :
    s'.manager.contexts.length = grow s.manager.contexts.length a := by
  unfold step at hstep
  split at hstep
  · cases hstep
  cases a with
  | addEvent fd ev handler this ok =>
      obtain rfl := Option.some.inj hstep
      obtain ⟨r, hr, hmanager⟩ := finish_alive halive
      rw [hmanager, register_length hr]
      exact withContext_length s.manager fd
  | delEvent fd ev ok =>
      obtain rfl := Option.some.inj hstep
      obtain ⟨r, hr, hmanager⟩ := finish_alive halive
      let c : EventCall S Co Cb := .delEvent fd ev ok
      have hcall : s.manager.call c = .ok r := hr
      exact hmanager ▸ call_length rfl hcall
  | cancelEvent fd ev ok =>
      obtain rfl := Option.some.inj hstep
      obtain ⟨r, hr, hmanager⟩ := finish_alive halive
      let c : EventCall S Co Cb := .cancelEvent fd ev ok
      have hcall : s.manager.call c = .ok r := hr
      exact hmanager ▸ call_length rfl hcall
  | cancelAll fd ok =>
      obtain rfl := Option.some.inj hstep
      obtain ⟨r, hr, hmanager⟩ := finish_alive halive
      let c : EventCall S Co Cb := .cancelAll fd ok
      have hcall : s.manager.call c = .ok r := hr
      exact hmanager ▸ call_length rfl hcall
  | epollWait w batch =>
      obtain ⟨-, heq⟩ := Option.ite_none_right_eq_some.mp hstep
      obtain rfl := Option.some.inj heq
      rfl
  | handle w =>
      cases hbatch : s.batches w with
      | nil => simp [hbatch] at hstep
      | cons e rest =>
          simp only [hbatch] at hstep
          obtain rfl := Option.some.inj hstep
          obtain ⟨r, hr, hmanager⟩ := finish_alive halive
          exact hmanager ▸ handleEvent_length hr

/-- A system that has crashed makes no further step. -/
theorem alive_of_run {acts : List (EventAct S Co Cb W)} {s s' : EventSystem S Co Cb W}
    (hrun : acts.foldlM step s = some s') (halive : s'.crash = none) : s.crash = none := by
  cases acts with
  | nil =>
      obtain rfl : s = s' := by simpa using hrun
      exact halive
  | cons a acts =>
      rw [List.foldlM_cons] at hrun
      obtain ⟨t, ht, -⟩ := Option.bind_eq_some_iff.mp hrun
      by_contra hcrash
      have hnone : s.step a = none := if_pos (Option.isSome_iff_ne_none.mpr hcrash)
      rw [hnone] at ht
      cases ht

/-- The size of the table is that of its largest `addEvent`. -/
theorem run_length (acts : List (EventAct S Co Cb W)) :
    ∀ {s s' : EventSystem S Co Cb W}, acts.foldlM step s = some s' → s'.crash = none →
      s'.manager.contexts.length = acts.foldl grow s.manager.contexts.length := by
  induction acts with
  | nil =>
      intro s s' hrun _
      obtain rfl : s = s' := by simpa using hrun
      rfl
  | cons a acts ih =>
      intro s s' hrun halive
      rw [List.foldlM_cons] at hrun
      obtain ⟨t, ht, hrest⟩ := Option.bind_eq_some_iff.mp hrun
      rw [ih hrest halive, step_length ht (alive_of_run hrest halive), List.foldl_cons]

/-- **Unknown descriptors.**  After every run of the event system, `delEvent`,
`cancelEvent` and `cancelAll` stay within `m_fdContexts` and return false beyond it
exactly for the descriptors other than its size, which is computed from the
descriptors that `addEvent` was given. -/
theorem safeLookup_iff_ne_tableSize (acts : List (EventAct S Co Cb W))
    (s : EventSystem S Co Cb W) (c : EventCall S Co Cb)
    (hrun : acts.foldlM step new = some s) (halive : s.crash = none) (hadds : c.adds = false)
    (hint : c.fd < 2 ^ 31) : SafeLookup s.manager c ↔ c.fd ≠ tableSize acts := by
  have hsize : s.manager.contexts.length = tableSize acts := by
    have hnew : (new : EventSystem S Co Cb W).manager.contexts.length = 32 := by
      simp [new, contexts_new]
    rw [run_length acts hrun halive, hnew]
    rfl
  rw [safeLookup_iff hadds hint, hsize]

/-- A new manager has contexts for the descriptors below 32. -/
theorem delEvent_at_size_leaves_vector :
    ¬ ∀ (acts : List (EventAct Unit Nat Nat Unit)) (s : EventSystem Unit Nat Nat Unit)
        (c : EventCall Unit Nat Nat), acts.foldlM step new = some s → s.crash = none →
      c.adds = false → c.fd < 2 ^ 31 → SafeLookup s.manager c := by
  intro hsafe
  have hsafe := (hsafe [] new (.delEvent 32 .read true) rfl rfl rfl (by decide)).inRange
  exact hsafe (by simp [call, delEvent, new, contexts_new, intSize_eq])

/-- `addEvent` on descriptor 40 makes 60 contexts, so that `cancelAll` is safe on 61
and finds nothing there. -/
theorem cancelAll_safe_beyond_size :
    let acts : List (EventAct Unit Nat Nat Unit) :=
      [.addEvent 40 .read (.callback 1) (some ()) true]
    ∃ s, acts.foldlM step new = some s ∧ s.crash = none ∧
      SafeLookup s.manager (.cancelAll 61 true) := by
  intro acts
  obtain ⟨s, hs, halive⟩ : ∃ s, acts.foldlM step new = some s ∧ s.crash = none := by
    have hview : (acts.foldlM step new).map (fun s => s.crash) = some none := by
      decide +kernel
    exact Option.map_eq_some_iff.mp hview
  let c : EventCall Unit Nat Nat := .cancelAll 61 true
  refine ⟨s, hs, halive, ?_⟩
  exact (safeLookup_iff_ne_tableSize acts s c hs halive rfl (by decide)).mpr (by decide)

end EventSystem

end Agent
