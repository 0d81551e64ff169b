import GServer.TimerSet

/-!
# Pending timers and their handles

A timer is pending from the `addTimer` that makes it until a `cancel` that
succeeds or, for a one-shot timer, until the pass of `listExpiredCb` that
collects it.  `Tracked` carries this reading of the history along with the
manager; in every run it is membership in the set (`Tracked.Inv`).

`cancel`, `refresh` and `reset` tell whether the timer is pending by its
callback.  `reset` with the period the timer has returns true before it looks,
so its answer is right only for pending timers; and a timer that was added with
an empty callback is taken for one that is not pending.
-/

namespace Agent

open Runs SortedSet

namespace TimerManager

variable {Cb : Type}

/-- The timer at `a` is allocated and fires once. -/
def isOneShot (m : TimerManager Cb) (a : Addr) : Bool :=
  match m.heap a with
  | some t => !t.recuring
  | none => false

/-- The event ends the time in which the timer at `b` is pending. -/
def ends (m : TimerManager Cb) (b : Addr) : Event Cb → Bool
  | .call (.cancel a) => b == a && (m.cancel a).any Prod.fst
  | .call (.listExpiredCb now probe) =>
      (m.expired now probe).contains b && m.isOneShot b
  | _ => false

/-- The event makes the timer at `b`. -/
def begins (b : Addr) : Event Cb → Bool
  | .call (.addTimer a _ _ _ _) => b == a
  | _ => false

/-- The manager, and the timers that are pending by what happened to them. -/
structure Tracked (Cb : Type) where
  manager : TimerManager Cb
  pending : Addr → Bool

namespace Tracked

/-- A new manager. -/
def new (now : UInt64) : Tracked Cb :=
  { manager := .new now, pending := fun _ => false }

/-- What an event leaves. -/
def after (s : Tracked Cb) (e : Event Cb) : Option (Tracked Cb) :=
  (s.manager.after e).map fun m =>
    { manager := m
      pending := fun b => begins b e || s.pending b && !s.manager.ends b e }

/-- The steps of a run. -/
def Step (s : Tracked Cb) (e : Event Cb) (s' : Tracked Cb) : Prop :=
  s.after e = some s'

/-- The set is in order and holds exactly the pending timers. -/
structure Inv (s : Tracked Cb) : Prop where
  manager : s.manager.Inv
  pending_iff : ∀ a, s.pending a = true ↔ a ∈ s.manager.timers

end Tracked

/-! ## Members before and after a call -/

/-- `refresh` and `reset` put their timer back: the members stay. -/
theorem mem_reinsert {m m₁ : TimerManager Cb} {a b : Addr} {t : Timer Cb} (h : Inv m)
    (ha : a ∈ m.timers) (herase : m.eraseTimer a = some m₁) :
    b ∈ ((m₁.setTimer a t).insertTimer a).timers ↔ b ∈ m.timers := by
  by_cases hba : b = a
  · subst hba
    exact ⟨fun _ => ha, fun _ => mem_insertTimer.mpr (Or.inl rfl)⟩
  · exact (eraseTimer_insert_spec h ha herase).2.mem b hba

/-- What `refresh` answers and does to the set. -/
theorem refresh_cases {m : TimerManager Cb} (h : Inv m) {a : Addr} {t : Timer Cb}
    (ht : m.heap a = some t) (now : UInt64) :
    (t.cb.isSome = false ∧ m.refresh a now = some (false, m)) ∨
    (t.cb.isSome = true ∧ ∃ m', m.refresh a now = some (true, m') ∧
      ∀ b, b ∈ m'.timers ↔ b ∈ m.timers) := by
  cases hcb : t.cb with
  | none => exact .inl ⟨rfl, by simp [refresh, ht, hcb]⟩
  | some cb =>
      have hlive : m.HasCallback a := ⟨t, ht, by simp [hcb]⟩
      obtain ⟨m₁, herase⟩ := h.eraseTimer hlive
      refine .inr ⟨rfl, (m₁.setTimer a { t with next := now + t.ms }).insertTimer a, ?_,
        fun b => mem_reinsert h (h.mem_of_hasCallback hlive) herase⟩
      simp [refresh, ht, hcb, herase]

/-- `reset` goes back at once: the period stays and is not counted from now. -/
def sameReset (t : Timer Cb) (ms : UInt64) (fromNow : Bool) : Bool :=
  ms == t.ms && !fromNow

/-- What `reset` answers and does to the set. -/
theorem reset_cases {m : TimerManager Cb} (h : Inv m) {a : Addr} {t : Timer Cb}
    (ht : m.heap a = some t) (ms : UInt64) (fromNow : Bool) (now : UInt64) :
    (sameReset t ms fromNow = true ∧
      m.reset a ms fromNow now = some (true, false, m)) ∨
    (sameReset t ms fromNow = false ∧ t.cb.isSome = false ∧
      m.reset a ms fromNow now = some (false, false, m)) ∨
    (sameReset t ms fromNow = false ∧ t.cb.isSome = true ∧
      ∃ atFront m', m.reset a ms fromNow now = some (true, atFront, m') ∧
        ∀ b, b ∈ m'.timers ↔ b ∈ m.timers) := by
  unfold reset
  simp only [ht]
  cases hsame : sameReset t ms fromNow with
  | true =>
      have hback : (ms == t.ms && !fromNow) = true := hsame
      exact .inl ⟨rfl, by rw [if_pos hback]⟩
  | false =>
      have hgo : ¬ (ms == t.ms && !fromNow) = true := fun hback => by
        rw [sameReset, hback] at hsame
        cases hsame
      rw [if_neg hgo]
      cases hcb : t.cb with
      | none => exact .inr (.inl ⟨rfl, rfl, by simp⟩)
      | some cb =>
          have hlive : m.HasCallback a := ⟨t, ht, by simp [hcb]⟩
          obtain ⟨m₁, herase⟩ := h.eraseTimer hlive
          refine .inr (.inr ⟨rfl, rfl, _, _, by simp only [herase]; rfl, fun b => ?_⟩)
          exact mem_reinsert h (h.mem_of_hasCallback hlive) herase

/-- `refresh` takes no timer out of the set and puts none in. -/
theorem mem_refresh {m m' : TimerManager Cb} (h : Inv m) {a : Addr} {now : UInt64} {ok : Bool}
    (hrefresh : m.refresh a now = some (ok, m')) (b : Addr) :
    b ∈ m'.timers ↔ b ∈ m.timers := by
  cases ht : m.heap a with
  | none => simp [refresh, ht] at hrefresh
  | some t =>
      obtain ⟨-, hfalse⟩ | ⟨-, m₂, htrue, hkept⟩ := refresh_cases h ht now
      · obtain ⟨-, rfl⟩ : false = ok ∧ m = m' := by simpa [hfalse] using hrefresh
        rfl
      · obtain ⟨-, rfl⟩ : true = ok ∧ m₂ = m' := by simpa [htrue] using hrefresh
        exact hkept b

/-- `reset` takes no timer out of the set and puts none in. -/
theorem mem_reset {m m' : TimerManager Cb} (h : Inv m) {a : Addr} {ms now : UInt64}
    {fromNow ok atFront : Bool} (hreset : m.reset a ms fromNow now = some (ok, atFront, m'))
    (b : Addr) : b ∈ m'.timers ↔ b ∈ m.timers := by
  cases ht : m.heap a with
  | none => simp [reset, ht] at hreset
  | some t =>
      obtain ⟨-, hsame⟩ | ⟨-, -, hfalse⟩ | ⟨-, -, atFront', m₂, htrue, hkept⟩ :=
        reset_cases h ht ms fromNow now
      · obtain ⟨-, -, rfl⟩ : true = ok ∧ false = atFront ∧ m = m' := by
          simpa [hsame] using hreset
        rfl
      · obtain ⟨-, -, rfl⟩ : false = ok ∧ false = atFront ∧ m = m' := by
          simpa [hfalse] using hreset
        rfl
      · obtain ⟨-, -, rfl⟩ : true = ok ∧ atFront' = atFront ∧ m₂ = m' := by
          simpa [htrue] using hreset
        exact hkept b

/-- A new timer is a member, and the others stay. -/
theorem mem_addTimer {m m' : TimerManager Cb} (h : Inv m) {a : Addr} {ms now : UInt64}
    {cb : Option Cb} {recuring atFront : Bool}
    (hadd : m.addTimer a ms cb recuring now = some (atFront, m')) (b : Addr) :
    b ∈ m'.timers ↔ b = a ∨ b ∈ m.timers := by
  obtain ⟨-, honly, hnone⟩ := addTimer_spec h hadd
  by_cases hba : b = a
  · subst hba
    simp only [addTimer, hnone, Option.some.injEq] at hadd
    obtain rfl := (congrArg Prod.snd hadd).symm
    rw [addLocked_timers]
    exact mem_insertTimer
  · rw [honly.mem b hba]
    exact (or_iff_right hba).symm

/-- A `cancel` that succeeds takes its timer out; one that fails changes nothing. -/
theorem mem_cancel {m m' : TimerManager Cb} (h : Inv m) {a : Addr} {ok : Bool}
    (hcancel : m.cancel a = some (ok, m')) (b : Addr) :
    b ∈ m'.timers ↔ b ∈ m.timers ∧ ¬ (b = a ∧ ok = true) := by
  by_cases hba : b = a
  · subst hba
    cases ht : m.heap b with
    | none => simp [cancel, ht] at hcancel
    | some t =>
        obtain ⟨hyes, hno⟩ := h.cancel ht
        cases hcb : t.cb.isSome with
        | true =>
            obtain ⟨m₂, hm₂, hout⟩ := hyes hcb
            obtain ⟨rfl, rfl⟩ : true = ok ∧ m₂ = m' := by simpa [hm₂] using hcancel
            simp [hout]
        | false =>
            obtain ⟨rfl, rfl⟩ : false = ok ∧ m = m' := by simpa [hno hcb] using hcancel
            simp
  · rw [(cancel_spec h hcancel).2.mem b hba]
    simp [hba]

/-- A pass takes out the one-shot timers it collects. -/
theorem mem_pass {m : TimerManager Cb} (h : Inv m) (now : UInt64) (probe b : Addr) :
    b ∈ (m.listExpiredCb now probe).2.timers ↔
      b ∈ m.timers ∧ ¬ (b ∈ m.expired now probe ∧ m.isOneShot b = true) := by
  obtain ⟨-, -, hother, hgone⟩ := listExpiredCb_spec h now probe
  by_cases hexp : b ∈ m.expired now probe
  · have hmem : b ∈ m.timers := ((mem_expired h).mp hexp).1
    obtain ⟨t, ht⟩ := Option.isSome_iff_exists.mp (h.allocated b hmem)
    rw [(hgone b hexp t ht).2]
    simp [hexp, hmem, isOneShot, ht]
  · rw [(hother b hexp).2]
    simp [hexp]

/-! ## The history and the set -/

namespace Tracked

/-- No timer is held at the start. -/
theorem inv_new (now : UInt64) : Inv (new now : Tracked Cb) where
  manager := TimerManager.inv_new now
  pending_iff a := by simp [new, TimerManager.new]

/-- Every step keeps the agreement of the history with the set. -/
theorem step_inv {s s' : Tracked Cb} {e : Event Cb} (h : Inv s) (hstep : Step s e s') :
    Inv s' := by
  obtain ⟨m', hm', rfl⟩ := Option.map_eq_some_iff.mp hstep
  refine ⟨eventStep_inv h.manager hm', fun b => ?_⟩
  have hpending := h.pending_iff b
  dsimp only
  cases e with
  | free a =>
      obtain ⟨-, rfl⟩ := free_eq hm'
      simpa [begins, ends] using hpending
  | call c =>
      obtain ⟨⟨r, m₁⟩, hr, heq⟩ := Option.map_eq_some_iff.mp hm'
      obtain rfl : m₁ = m' := heq
      cases c with
      | addTimer a ms cb recuring now =>
          obtain ⟨⟨atFront, m₂⟩, hadd, heq⟩ := Option.map_eq_some_iff.mp hr
          obtain ⟨-, rfl⟩ : _ ∧ m₂ = m₁ := by simpa using heq
          rw [mem_addTimer h.manager hadd, ← hpending]
          simp [begins, ends]
      | cancel a =>
          obtain ⟨⟨ok, m₂⟩, hcancel, heq⟩ := Option.map_eq_some_iff.mp hr
          obtain ⟨-, rfl⟩ : _ ∧ m₂ = m₁ := by simpa using heq
          rw [mem_cancel h.manager hcancel, ← hpending]
          by_cases hba : b = a <;> simp [begins, ends, hcancel, hba]
      | refresh a now =>
          obtain ⟨⟨ok, m₂⟩, hrefresh, heq⟩ := Option.map_eq_some_iff.mp hr
          obtain ⟨-, rfl⟩ : _ ∧ m₂ = m₁ := by simpa using heq
          rw [mem_refresh h.manager hrefresh]
          simpa [begins, ends] using hpending
      | reset a ms fromNow now =>
          obtain ⟨⟨ok, atFront, m₂⟩, hreset, heq⟩ := Option.map_eq_some_iff.mp hr
          obtain ⟨-, rfl⟩ : _ ∧ m₂ = m₁ := by simpa using heq
          rw [mem_reset h.manager hreset]
          simpa [begins, ends] using hpending
      | getNextTimer now =>
          obtain ⟨-, rfl⟩ : _ ∧ (s.manager.getNextTimer now).2 = m₁ := by simpa [exec] using hr
          rw [getNextTimer_manager]
          simpa [begins, ends] using hpending
      | hasTimer =>
          obtain ⟨-, rfl⟩ : _ ∧ s.manager = m₁ := by simpa [exec] using hr
          simpa [begins, ends] using hpending
      | listExpiredCb now probe =>
          obtain ⟨-, rfl⟩ : _ ∧ (s.manager.listExpiredCb now probe).2 = m₁ := by
            simpa [exec] using hr
          rw [mem_pass h.manager, ← hpending]
          by_cases hexp : b ∈ s.manager.expired now probe <;> simp [begins, ends, hexp]

/-- **History and set.**  In every run the set holds exactly the timers that were
added and neither cancelled nor, if they fire once, collected. -/
theorem reachable_inv {start : UInt64} {s : Tracked Cb}
    (h : Reachable (fun s => s = new start) Step s) : Inv s :=
  h.invariant (fun _ h0 => h0 ▸ inv_new start) (fun _ _ _ hI _ hs => step_inv hI hs)

end Tracked

/-! ## The answers of the handle -/

/-- An operation on the handle of a timer. -/
inductive HandleOp
  | cancel
  | refresh (now : UInt64)
  | reset (ms : UInt64) (fromNow : Bool) (now : UInt64)

/-- The call on the timer at `a`. -/
def HandleOp.call (a : Addr) : HandleOp → Call Cb
  | .cancel => .cancel a
  | .refresh now => .refresh a now
  | .reset ms fromNow now => .reset a ms fromNow now

/-- The operation returns before it looks at the timer's state. -/
def HandleOp.returnsEarly (t : Timer Cb) : HandleOp → Bool
  | .reset ms fromNow _ => sameReset t ms fromNow
  | _ => false

/-- The operation returns true exactly when the timer is pending, and changes
nothing when it returns false. -/
def TellsTruth (s : Tracked Cb) (a : Addr) (op : HandleOp) : Prop :=
  ∃ ok atFront m', s.manager.exec (op.call a) = some (.changed ok atFront, m') ∧
    (ok = true ↔ s.pending a = true) ∧ (ok = false → m' = s.manager)

/-- A `reset` that returns early is made on a pending timer; any other operation on a
pending timer finds its callback. -/
def Answerable (s : Tracked Cb) (a : Addr) (t : Timer Cb) (op : HandleOp) : Prop :=
  if op.returnsEarly t = true then s.pending a = true
  else s.pending a = true → t.cb.isSome = true

/-- A call that answers by the callback. -/
theorem tellsTruth_of_callback {s : Tracked Cb} (h : Tracked.Inv s) {a : Addr} {t : Timer Cb}
    (ht : s.manager.heap a = some t) {op : HandleOp}
    (hno : t.cb.isSome = false →
      s.manager.exec (op.call a) = some (.changed false false, s.manager))
    (hyes : t.cb.isSome = true → ∃ atFront m',
      s.manager.exec (op.call a) = some (.changed true atFront, m')) :
    TellsTruth s a op ↔ (s.pending a = true → t.cb.isSome = true) := by
  cases hcb : t.cb.isSome with
  | false =>
      have hexec := hno hcb
      constructor
      · rintro ⟨ok, atFront, m', hrun, htruth, -⟩ hpending
        rw [hexec] at hrun
        obtain ⟨⟨rfl, -⟩, -⟩ : (false = ok ∧ false = atFront) ∧ s.manager = m' := by
          simpa using hrun
        exact htruth.mpr hpending
      · intro himp
        refine ⟨false, false, s.manager, hexec, ?_, fun _ => rfl⟩
        constructor
        · intro hf
          cases hf
        · intro hpending
          exact himp hpending
  | true =>
      obtain ⟨atFront, m', hexec⟩ := hyes hcb
      have hpending : s.pending a = true :=
        (h.pending_iff a).mpr (h.manager.live a t ht hcb)
      refine ⟨fun _ _ => rfl, fun _ => ⟨true, atFront, m', hexec, by simp [hpending], ?_⟩⟩
      intro hf
      cases hf

/-- **Handles tell the truth.**  In every run of a manager, `cancel`, `refresh` and
`reset` on any timer and with any arguments answer whether the timer is pending, and
change nothing when it is not, exactly when the call is answerable. -/
theorem tellsTruth_iff_answerable {start : UInt64} {s : Tracked Cb}
    (h : Reachable (fun s => s = Tracked.new start) Tracked.Step s) {a : Addr}
    {t : Timer Cb} (ht : s.manager.heap a = some t) (op : HandleOp) :
    TellsTruth s a op ↔ Answerable s a t op := by
  have hinv := Tracked.reachable_inv h
  unfold Answerable
  cases op with
  | cancel =>
      obtain ⟨hyes, hno⟩ := hinv.manager.cancel ht
      rw [if_neg (by simp [HandleOp.returnsEarly])]
      refine tellsTruth_of_callback hinv ht (fun hcb => ?_) fun hcb => ?_
      · simp [HandleOp.call, exec, hno hcb]
      · obtain ⟨m', hm', -⟩ := hyes hcb
        exact ⟨false, m', by simp [HandleOp.call, exec, hm']⟩
  | refresh now =>
      rw [if_neg (by simp [HandleOp.returnsEarly])]
      refine tellsTruth_of_callback hinv ht (fun hcb => ?_) fun hcb => ?_
      · obtain ⟨-, hfalse⟩ | ⟨hcb', -⟩ := refresh_cases hinv.manager ht now
        · simp [HandleOp.call, exec, hfalse]
        · simp [hcb] at hcb'
      · obtain ⟨hcb', -⟩ | ⟨-, m', htrue, -⟩ := refresh_cases hinv.manager ht now
        · simp [hcb] at hcb'
        · exact ⟨false, m', by simp [HandleOp.call, exec, htrue]⟩
  | reset ms fromNow now =>
      obtain ⟨hsame, hrun⟩ | ⟨hsame, hcb, hrun⟩ | ⟨hsame, hcb, atFront, m', hrun, -⟩ :=
        reset_cases hinv.manager ht ms fromNow now
      · -- the answer is true whatever the state is
        have hexec : s.manager.exec (HandleOp.call a (.reset ms fromNow now)) =
            some (.changed true false, s.manager) := by
          simp [HandleOp.call, exec, hrun]
        rw [if_pos (by simpa [HandleOp.returnsEarly] using hsame)]
        constructor
        · rintro ⟨ok, atFront, m', hrun', htruth, -⟩
          rw [hexec] at hrun'
          obtain ⟨⟨rfl, -⟩, -⟩ : (true = ok ∧ false = atFront) ∧ s.manager = m' := by
            simpa using hrun'
          exact htruth.mp rfl
        · intro hpending
          exact ⟨true, false, s.manager, hexec, by simp [hpending], fun _ => rfl⟩
      · rw [if_neg (by simp [HandleOp.returnsEarly, hsame])]
        refine tellsTruth_of_callback hinv ht (fun _ => ?_) fun hcb' => ?_
        · simp [HandleOp.call, exec, hrun]
        · simp [hcb] at hcb'
      · rw [if_neg (by simp [HandleOp.returnsEarly, hsame])]
        refine tellsTruth_of_callback hinv ht (fun hcb' => ?_) fun _ => ?_
        · simp [hcb] at hcb'
        · exact ⟨atFront, m', by simp [HandleOp.call, exec, hrun]⟩

/-- A one-shot timer that is pending tells so when it is refreshed. -/
theorem tellsTruth_of_pending :
    ∃ s : Tracked Nat, Reachable (fun s => s = Tracked.new 0) Tracked.Step s ∧
      s.pending 1 = true ∧ TellsTruth s 1 (.refresh 8) := by
  let calls : List (Event Nat) := [.call (.addTimer 1 10 (some 7) false 5)]
  obtain ⟨s, hreach, hview⟩ : ∃ s : Tracked Nat,
      Reachable (fun s => s = Tracked.new 0) Tracked.Step s ∧
        (s.pending 1 && (s.manager.heap 1).any (fun t => t.cb.isSome)) = true :=
    exists_view rfl (fun _ _ _ h => ⟨trivial, h⟩) calls (by decide)
  obtain ⟨hpending, hany⟩ := Bool.and_eq_true_iff.mp hview
  obtain ⟨t, ht, hcb⟩ : ∃ t, s.manager.heap 1 = some t ∧ t.cb.isSome = true := by
    simpa [Option.any_eq_true] using hany
  exact ⟨s, hreach, hpending, (tellsTruth_iff_answerable hreach ht _).mpr fun _ => hcb⟩

/-- A cancelled timer that is reset to the period it has answers true. -/
theorem cancelled_timer_is_reset :
    ¬ ∀ s : Tracked Nat, Reachable (fun s => s = Tracked.new 0) Tracked.Step s →
      ∀ a t, s.manager.heap a = some t → ∀ op, TellsTruth s a op := by
  intro hall
  let calls : List (Event Nat) :=
    [.call (.addTimer 1 10 (some 7) false 5), .call (.cancel 1)]
  obtain ⟨s, hreach, hview⟩ : ∃ s : Tracked Nat,
      Reachable (fun s => s = Tracked.new 0) Tracked.Step s ∧
        (!s.pending 1 && (s.manager.heap 1).any (fun t => t.ms == 10)) = true :=
    exists_view rfl (fun _ _ _ h => ⟨trivial, h⟩) calls (by decide)
  obtain ⟨hgone, hany⟩ := Bool.and_eq_true_iff.mp hview
  obtain ⟨t, ht, hms⟩ : ∃ t, s.manager.heap 1 = some t ∧ (t.ms == 10) = true := by
    simpa [Option.any_eq_true] using hany
  have hms : t.ms = 10 := by simpa using hms
  have hexec : s.manager.exec (.reset 1 10 false 6) = some (.changed true false, s.manager) := by
    simp [exec, reset, ht, hms]
  obtain ⟨ok, atFront, m', hrun, htruth, -⟩ := hall s hreach 1 t ht (.reset 10 false 6)
  have hok : true = ok := by
    have hboth := hexec.symm.trans hrun
    simp only [Option.some.injEq, Prod.mk.injEq, Ret.changed.injEq] at hboth
    exact hboth.1.1
  have hpending : s.pending 1 = true := htruth.mp hok.symm
  simp [hpending] at hgone

end TimerManager

end Agent
