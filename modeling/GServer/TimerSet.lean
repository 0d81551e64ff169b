import GServer.TimerInvariant

/-!
# The timer set holds the live timers

While every timer is added with a callback, the set holds exactly the timers
that still have one: `cancel` and an expiry pass clear the callback of a timer
they take out, and nothing else clears it.  So a lookup of a live timer always
succeeds and `cancel` never erases the end of the set.

A timer outside the set is freed when nothing refers to it any more; its
address may then be given to a new timer.
-/

namespace Agent

open Runs SortedSet

namespace TimerManager

variable {Cb : Type}

/-- The timer at `a` is allocated and its `m_cb` is not null. -/
def HasCallback (m : TimerManager Cb) (a : Addr) : Prop :=
  ∃ t, m.heap a = some t ∧ t.cb.isSome = true

/-- The timer at `a` is destroyed with its last `shared_ptr`; the set has one to
each of its members. -/
def free (m : TimerManager Cb) (a : Addr) : Option (TimerManager Cb) :=
  if a ∈ m.timers then none
  else some { m with heap := Function.update m.heap a none }

/-- A call, or the end of a timer nothing refers to. -/
inductive Event (Cb : Type)
  | call (c : Call Cb)
  | free (a : Addr)

/-- The manager that an event leaves. -/
def after (m : TimerManager Cb) : Event Cb → Option (TimerManager Cb)
  | .call c => (m.exec c).map Prod.snd
  | .free a => m.free a

/-- The steps of a run of calls in which timers come and go. -/
def EventStep (m : TimerManager Cb) (e : Event Cb) (m' : TimerManager Cb) : Prop :=
  m.after e = some m'

/-- Timers are added with a non-empty callback. -/
def GivesCallback (_ : TimerManager Cb) : Event Cb → Prop
  | .call (.addTimer _ _ cb _ _) => cb.isSome = true
  | _ => True

instance (m : TimerManager Cb) : DecidablePred m.GivesCallback := fun e =>
  match e with
  | .call (.addTimer _ _ cb _ _) => inferInstanceAs (Decidable (cb.isSome = true))
  | .call (.cancel _) | .call (.refresh _ _) | .call (.reset _ _ _ _)
  | .call (.getNextTimer _) | .call .hasTimer | .call (.listExpiredCb _ _)
  | .free _ => inferInstanceAs (Decidable True)

/-- The timer set and the callbacks agree, and lookups of live timers succeed. -/
structure Consistent (m : TimerManager Cb) : Prop where
  mem_iff : ∀ a, a ∈ m.timers ↔ m.HasCallback a
  nodup : m.timers.Nodup
  sorted : Sorted m.less m.timers
  found : ∀ a, m.HasCallback a →
    ∃ i, find? m.less a m.timers = some i ∧ m.timers[i]? = some a
  cancels : ∀ a, (m.heap a).isSome = true → m.cancel a ≠ none
  refreshes : ∀ a now, m.HasCallback a → ∃ m', m.refresh a now = some (true, m')
  resets : ∀ a ms fromNow now, m.HasCallback a →
    ∃ atFront m', m.reset a ms fromNow now = some (true, atFront, m')

/-! ## Lookups -/

/-- A timer with a callback is in the set. -/
theorem Inv.mem_of_hasCallback {m : TimerManager Cb} (h : Inv m) {a : Addr}
    (ha : m.HasCallback a) : a ∈ m.timers := by
  obtain ⟨t, ht, hcb⟩ := ha
  exact h.live a t ht hcb

/-- A live timer is found. -/
theorem Inv.eraseTimer {m : TimerManager Cb} (h : Inv m) {a : Addr}
    (ha : m.HasCallback a) : ∃ m', m.eraseTimer a = some m' := by
  obtain ⟨m', hm', -⟩ := eraseTimer_mem h.sorted (h.mem_of_hasCallback ha)
  exact ⟨m', hm'⟩

/-- A timer with a callback can be refreshed. -/
theorem Inv.refresh {m : TimerManager Cb} (h : Inv m) {a : Addr} (now : UInt64)
    (ha : m.HasCallback a) : ∃ m', m.refresh a now = some (true, m') := by
  obtain ⟨m₁, herase⟩ := h.eraseTimer ha
  obtain ⟨t, ht, hcb⟩ := ha
  have hnone : t.cb.isNone = false := by simpa using hcb
  exact ⟨_, by simp [TimerManager.refresh, ht, hnone, herase]; rfl⟩

/-- A timer with a callback can be reset. -/
theorem Inv.reset {m : TimerManager Cb} (h : Inv m) {a : Addr} (ms : UInt64)
    (fromNow : Bool) (now : UInt64) (ha : m.HasCallback a) :
    ∃ atFront m', m.reset a ms fromNow now = some (true, atFront, m') := by
  obtain ⟨m₁, herase⟩ := h.eraseTimer ha
  obtain ⟨t, ht, hcb⟩ := ha
  have hnone : t.cb.isNone = false := by simpa using hcb
  by_cases hsame : (ms == t.ms && !fromNow) = true
  · exact ⟨false, m, by simp only [TimerManager.reset, ht, hsame, if_true]⟩
  · exact ⟨_, _, by simp only [TimerManager.reset, ht, hsame, hnone, herase]; rfl⟩

/-- What `cancel` does: a live timer leaves the set without its callback, any
other call changes nothing. -/
theorem Inv.cancel {m : TimerManager Cb} (h : Inv m) {a : Addr} {t : Timer Cb}
    (ht : m.heap a = some t) :
    (t.cb.isSome = true → ∃ m', m.cancel a = some (true, m') ∧ a ∉ m'.timers) ∧
    (t.cb.isSome = false → m.cancel a = some (false, m)) := by
  constructor
  · intro hcb
    have ha : a ∈ m.timers := h.live a t ht hcb
    have hnext : ∀ b, (m.setTimer a { t with cb := none }).nextOf b = m.nextOf b := by
      intro b
      by_cases hba : b = a
      · subst hba
        simp [nextOf, ht]
      · simp [nextOf, setTimer_heap_of_ne hba]
    have hsorted := sorted_congr (fun b _ => hnext b) h.sorted
    obtain ⟨m', herase, -, -, -, hmem⟩ := eraseTimer_mem hsorted ha
    refine ⟨m', by simp [TimerManager.cancel, ht, hcb, herase], ?_⟩
    intro hin
    exact ((hmem a).mp hin).1 rfl
  · intro hcb
    simp [TimerManager.cancel, ht, hcb]

/-! ## Members have a callback -/

/-- Every member of the set has its callback. -/
def Live (m : TimerManager Cb) : Prop :=
  ∀ a ∈ m.timers, m.HasCallback a

/-- A timer that the call leaves alone stays live. -/
theorem Live.other {m m' : TimerManager Cb} (h : Live m) {b : Addr}
    (hheap : m'.heap b = m.heap b) (hmem : b ∈ m'.timers ↔ b ∈ m.timers)
    (hb : b ∈ m'.timers) : m'.HasCallback b := by
  obtain ⟨t, ht, hcb⟩ := h b (hmem.mp hb)
  exact ⟨t, hheap.trans ht, hcb⟩

/-- `refresh` and `reset` keep the callback of their timer. -/
theorem hasCallback_refresh {m m' : TimerManager Cb} {a : Addr} {now : UInt64} {ok : Bool}
    (h : Live m) (hstep : m.refresh a now = some (ok, m')) (ha : a ∈ m'.timers) :
    m'.HasCallback a := by
  unfold refresh at hstep
  cases ht : m.heap a with
  | none => simp [ht] at hstep
  | some t =>
      cases hcb : t.cb with
      | none =>
          obtain ⟨-, rfl⟩ : false = ok ∧ m = m' := by simpa [ht, hcb] using hstep
          exact h a ha
      | some cb =>
          cases herase : m.eraseTimer a with
          | none =>
              obtain ⟨-, rfl⟩ : false = ok ∧ m = m' := by simpa [ht, hcb, herase] using hstep
              exact h a ha
          | some m₁ =>
              obtain ⟨-, rfl⟩ :
                  true = ok ∧ (m₁.setTimer a { t with next := now + t.ms }).insertTimer a = m' := by
                simpa [ht, hcb, herase] using hstep
              exact ⟨_, by rw [insertTimer_heap, setTimer_heap_self], by simp [hcb]⟩

/-- A timer that is in the set after `reset` has its callback. -/
theorem hasCallback_reset {m m' : TimerManager Cb} {a : Addr} {ms now : UInt64}
    {fromNow ok atFront : Bool} (h : Live m)
    (hstep : m.reset a ms fromNow now = some (ok, atFront, m')) (ha : a ∈ m'.timers) :
    m'.HasCallback a := by
  unfold reset at hstep
  cases ht : m.heap a with
  | none => simp [ht] at hstep
  | some t =>
      simp only [ht] at hstep
      by_cases hsame : (ms == t.ms && !fromNow) = true
      · obtain ⟨-, -, rfl⟩ : true = ok ∧ false = atFront ∧ m = m' := by
          simpa only [hsame, if_true, Option.some.injEq, Prod.mk.injEq] using hstep
        exact h a ha
      rw [if_neg hsame] at hstep
      cases hcb : t.cb with
      | none =>
          obtain ⟨-, -, rfl⟩ : false = ok ∧ false = atFront ∧ m = m' := by
            simpa [hcb] using hstep
          exact h a ha
      | some cb =>
          cases herase : m.eraseTimer a with
          | none =>
              obtain ⟨-, -, rfl⟩ : false = ok ∧ false = atFront ∧ m = m' := by
                simpa [hcb, herase] using hstep
              exact h a ha
          | some m₁ =>
              simp only [hcb, herase, Option.isNone_some, Bool.false_eq_true, if_false,
                Option.some.injEq] at hstep
              obtain rfl := (congrArg (fun r => r.2.2) hstep).symm
              exact ⟨_, by rw [addLocked_heap, setTimer_heap_self], by simp⟩

/-- A pass keeps the recurring timers with their callbacks and clears the
callback of every timer it takes out. -/
theorem live_listExpiredCb {m : TimerManager Cb} (hinv : Inv m) (h : Live m)
    (now : UInt64) (probe : Addr) : Live (m.listExpiredCb now probe).2 := by
  obtain ⟨-, -, hother, hgone⟩ := listExpiredCb_spec hinv now probe
  intro b hb
  by_cases hexp : b ∈ m.expired now probe
  · have hmem : b ∈ m.timers := ((mem_expired hinv).mp hexp).1
    obtain ⟨t, ht, hcb⟩ := h b hmem
    obtain ⟨hheap, htimers⟩ := hgone b hexp t ht
    have hrec : t.recuring = true := htimers.mp hb
    exact ⟨_, hheap, by simp [collectTimer, hrec, hcb]⟩
  · obtain ⟨hheap, hmem⟩ := hother b hexp
    exact h.other hheap hmem hb

/-- An event that is a call is a step. -/
theorem step_of_event {m m' : TimerManager Cb} {c : Call Cb}
    (h : EventStep m (.call c) m') : Step m c m' := by
  obtain ⟨⟨r, m₁⟩, hr, heq⟩ := Option.map_eq_some_iff.mp h
  obtain rfl : m₁ = m' := heq
  exact ⟨r, hr⟩

/-- A timer is freed when it is in no set. -/
theorem free_eq {m m' : TimerManager Cb} {a : Addr} (h : m.free a = some m') :
    a ∉ m.timers ∧ m' = { m with heap := Function.update m.heap a none } := by
  unfold free at h
  by_cases ha : a ∈ m.timers
  · simp [ha] at h
  · rw [if_neg ha] at h
    exact ⟨ha, (Option.some.inj h).symm⟩

/-- One step keeps the callbacks of the members. -/
theorem step_live {m m' : TimerManager Cb} {e : Event Cb} (hinv : Inv m) (h : Live m)
    (hgives : GivesCallback m e) (hstep : EventStep m e m') : Live m' := by
  cases e with
  | free a =>
      obtain ⟨ha, rfl⟩ := free_eq hstep
      intro b hb
      have hba : b ≠ a := fun heq => ha (heq ▸ hb)
      exact h.other (Function.update_of_ne hba _ _) Iff.rfl hb
  | call c =>
      replace hstep := step_of_event hstep
      by_cases hpass : ∃ now probe, c = .listExpiredCb now probe
      · obtain ⟨now, probe, rfl⟩ := hpass
        obtain ⟨r, hr⟩ := hstep
        obtain ⟨-, rfl⟩ : _ ∧ (m.listExpiredCb now probe).2 = m' := by simpa [exec] using hr
        exact live_listExpiredCb hinv h now probe
      obtain ⟨-, -, hothers⟩ := step_spec hinv hstep fun now probe heq => hpass ⟨now, probe, heq⟩
      intro b hb
      by_cases htarget : c.target = some b
      · obtain ⟨r, hr⟩ := hstep
        cases c with
        | addTimer a ms cb recuring now =>
            obtain rfl : a = b := Option.some.inj htarget
            obtain ⟨⟨atFront, m₁⟩, hadd, heq⟩ := Option.map_eq_some_iff.mp hr
            obtain ⟨-, rfl⟩ : _ ∧ m₁ = m' := by simpa using heq
            obtain ⟨-, -, hnone⟩ := addTimer_spec hinv hadd
            simp only [addTimer, hnone, Option.some.injEq] at hadd
            obtain rfl := (congrArg Prod.snd hadd).symm
            refine ⟨_, by rw [addLocked_heap, setTimer_heap_self], ?_⟩
            exact hgives
        | cancel a =>
            obtain rfl : a = b := Option.some.inj htarget
            obtain ⟨⟨ok, m₁⟩, hcancel, heq⟩ := Option.map_eq_some_iff.mp hr
            obtain ⟨-, rfl⟩ : _ ∧ m₁ = m' := by simpa using heq
            cases ht : m.heap a with
            | none => simp [cancel, ht] at hcancel
            | some t =>
                obtain ⟨hyes, hno⟩ := hinv.cancel ht
                cases hcb : t.cb.isSome with
                | true =>
                    obtain ⟨m₂, hm₂, hout⟩ := hyes hcb
                    obtain ⟨-, rfl⟩ : true = ok ∧ m₂ = m₁ := by simpa [hm₂] using hcancel
                    exact absurd hb hout
                | false =>
                    obtain ⟨-, rfl⟩ : false = ok ∧ m = m₁ := by simpa [hno hcb] using hcancel
                    exact h a hb
        | refresh a now =>
            obtain rfl : a = b := Option.some.inj htarget
            obtain ⟨⟨ok, m₁⟩, hrefresh, heq⟩ := Option.map_eq_some_iff.mp hr
            obtain ⟨-, rfl⟩ : _ ∧ m₁ = m' := by simpa using heq
            exact hasCallback_refresh h hrefresh hb
        | reset a ms fromNow now =>
            obtain rfl : a = b := Option.some.inj htarget
            obtain ⟨⟨ok, atFront, m₁⟩, hreset, heq⟩ := Option.map_eq_some_iff.mp hr
            obtain ⟨-, rfl⟩ : _ ∧ m₁ = m' := by simpa using heq
            exact hasCallback_reset h hreset hb
        | getNextTimer now => cases htarget
        | hasTimer => cases htarget
        | listExpiredCb now probe => cases htarget
      · obtain ⟨hheap, hmem⟩ := hothers b htarget
        exact h.other hheap hmem hb

/-- One step keeps the invariant of the set. -/
theorem eventStep_inv {m m' : TimerManager Cb} {e : Event Cb} (h : Inv m)
    (hstep : EventStep m e m') : Inv m' := by
  cases e with
  | call c => exact step_inv h (step_of_event hstep)
  | free a =>
      obtain ⟨ha, rfl⟩ := free_eq hstep
      have hother : ∀ b ∈ m.timers, Function.update m.heap a none b = m.heap b := by
        intro b hb
        have hba : b ≠ a := fun heq => ha (heq ▸ hb)
        exact Function.update_of_ne hba _ _
      refine ⟨sorted_congr (fun b hb => by simp [nextOf, hother b hb]) h.sorted, ?_, ?_⟩
      · intro b hb
        dsimp only
        rw [hother b hb]
        exact h.allocated b hb
      · intro b t ht hcb
        by_cases hba : b = a
        · subst hba
          simp at ht
        · have hb : m.heap b = some t := (Function.update_of_ne hba _ _).symm.trans ht
          exact h.live b t hb hcb

/-- With live timers the invariant says that the set is consistent. -/
theorem Inv.consistent {m : TimerManager Cb} (h : Inv m) (hlive : Live m) : Consistent m where
  mem_iff a := ⟨hlive a, h.mem_of_hasCallback⟩
  nodup := h.sorted.nodup (less_strictLinear m)
  sorted := h.sorted
  found a ha := h.sorted.find?_mem (less_strictLinear m) (h.mem_of_hasCallback ha)
  cancels a ha := by
    obtain ⟨t, ht⟩ := Option.isSome_iff_exists.mp ha
    obtain ⟨hyes, hno⟩ := h.cancel ht
    cases hcb : t.cb.isSome with
    | true =>
        obtain ⟨m', hm', -⟩ := hyes hcb
        simp [hm']
    | false => simp [hno hcb]
  refreshes a now ha := h.refresh now ha
  resets a ms fromNow now ha := h.reset ms fromNow now ha

/-- **Timer set consistency.**  In every state that calls with arbitrary clock
readings reach, with timers added with a callback, the set holds exactly the
timers with a callback, once each and in the order of their current deadlines;
the lookups of `cancel`, `refresh` and `reset` find them. -/
theorem reachable_consistent {start : UInt64} {m : TimerManager Cb}
    (h : ReachableUnder (fun m => m = new start) EventStep GivesCallback m) :
    Consistent m := by
  have hboth : Inv m ∧ Live m := by
    refine h.invariant (I := fun m => Inv m ∧ Live m) ?_ ?_
    · intro m hm
      subst hm
      exact ⟨inv_new start, fun a ha => absurd ha List.not_mem_nil⟩
    · intro m e m' hm hgives hstep
      exact ⟨eventStep_inv hm.1 hstep, step_live hm.1 hm.2 hgives hstep⟩
  exact hboth.1.consistent hboth.2

/-- Two timers due at the same time, one of which is reset and then cancelled. -/
theorem reachable_consistent_of_reset :
    ∃ m : TimerManager Nat,
      ReachableUnder (fun m => m = new 0) EventStep GivesCallback m ∧
      m.timers = [1] ∧ Consistent m := by
  let calls : List (Event Nat) := [.call (.addTimer 1 10 (some 7) true 5),
    .call (.addTimer 2 10 (some 8) false 5), .call (.reset 2 3 true 6), .call (.cancel 2)]
  obtain ⟨m, hreach, htimers⟩ : ∃ m : TimerManager Nat,
      ReachableUnder (fun m => m = new 0) EventStep GivesCallback m ∧ m.timers = [1] :=
    exists_guarded_view rfl (fun _ _ _ h => h) calls (by decide)
  exact ⟨m, hreach, htimers, reachable_consistent hreach⟩

end TimerManager

end Agent
