import GServer.HookTimeout

/-!
# A hooked call whose descriptor is closed

`close` wakes the calls parked on the descriptor and drops its context, but
nothing tells a woken call that its descriptor is gone: `m_isClosed` is never set,
and the checks of `do_io` on entry are not made again at `retry`.  Unless its timer
has gone off, the call goes back to the raw function, on whatever the number stands
for by then.
-/

namespace Agent

open Runs

namespace Hook

variable {C : Type}

/-- A call whose descriptor was closed while it was parked makes no raw call any more,
and when it returns it returns -1 with `EBADF`. -/
def RefusesAfterClose (s : State C) (c : C) : Prop :=
  ∀ k, s.since c = some k →
    k = 0 ∧ ∀ n errno, s.phase c = .returned n errno → n = -1 ∧ errno = .ebadf

/-- Where a call may be that has made no raw call since its descriptor was closed. -/
def Phase.beforeRetry : Phase → Bool
  | .parked _ | .resumed _ | .testing | .calling => true
  | .returned n errno => n == -1 && errno == .etimedout
  | _ => false

/-- A call that has made no raw call since is on its way back to `retry`, or has
returned for its timeout. -/
def BeforeRetry (s : State C) (c : C) : Prop :=
  s.since c = some 0 → (s.phase c).beforeRetry = true

/-- The record of a call starts when its descriptor is closed and it is parked. -/
theorem closed_since (s : State C) (io : DoIo C) (fd : Int) (c : C) :
    (s.closed io fd).since c = s.since c ∨
      (s.closed io fd).since c = some 0 ∧ (s.phase c).isParked = true := by
  unfold State.closed
  dsimp only
  split
  · rename_i h
    exact Or.inr ⟨rfl, h.2.1⟩
  · exact Or.inl rfl

/-- A call that is past its raw call has made one since the descriptor was closed. -/
theorem not_since_zero {s : State C} {c : C} {phase : Phase} (h : BeforeRetry s c)
    (hphase : s.phase c = phase) (hbefore : phase.beforeRetry = false) :
    s.since c ≠ some 0 := by
  intro hzero
  have htrue := h hzero
  rw [hphase, hbefore] at htrue
  cases htrue

section Steps

variable [DecidableEq C]

/-- A close is noted for the calls that are parked. -/
theorem close_since {io : DoIo C} {s s' : State C} {fd : Int} {stat : FdStat}
    {onIOManager ok : Bool} (h : close io s fd stat onIOManager ok = some s') (c : C) :
    s'.since c = s.since c ∨ s'.since c = some 0 ∧ (s'.phase c).isParked = true := by
  obtain ⟨-, -, fds, -, -, rfl | rfl⟩ := close_cases h
  · exact closed_since { s with fds := fds } io fd c
  · obtain ⟨slot, scheduled, hall⟩ := cancelAll_eq { s with fds := fds } fd ok
    rw [hall]
    exact closed_since { s with fds := fds, slot := slot, scheduled := scheduled } io fd c

/-- A step of one call leaves the record of every other call alone. -/
theorem Own.since {io : DoIo C} {s s' : State C} {a : Act C} {c d : C}
    (h : Own io s d a s') (hne : c ≠ d) : s'.since c = s.since c := by
  cases h with
  | pass hphase | call hphase => exact Function.update_of_ne hne _ _
  | @undo timer errno hphase | @cancelTimer timer hphase =>
      obtain ⟨timers, heq⟩ := cancelTimer_eq s d timer
      rw [heq]
      rfl
  | @cancelEvent i ok htimer =>
      cases ok with
      | false => rfl
      | true =>
          obtain ⟨slot, scheduled, heq⟩ := trigger_eq s (io.fd d) (io.event d)
          rw [if_pos rfl, heq]
          rfl
  | _ => rfl

/-- Elsewhere the record of a call starts at most. -/
theorem step_since {io : DoIo C} {s s' : State C} {a : Act C} {c : C}
    (hstep : Step io s a s') (hactor : a.actor ≠ some c) :
    s'.since c = s.since c ∨ s'.since c = some 0 ∧ (s'.phase c).isParked = true := by
  cases hof : a.actor with
  | some d =>
      refine Or.inl ((step_own hstep hof).since fun heq => hactor ?_)
      rw [hof, heq]
  | none =>
      cases step_elsewhere hstep hof with
      | @trigger fd event =>
          obtain ⟨slot, scheduled, heq⟩ := trigger_eq s fd event
          rw [heq]
          exact Or.inl rfl
      | close hclose => exact close_since hclose c
      | opened hget => exact Or.inl rfl
      | setTimeout hupdate | setUserNonblock hupdate => exact Or.inl rfl

/-! ## The steps of the call itself -/

/-- A counted raw call is not the zeroth. -/
theorem countRaw_since (s : State C) (c : C) : (s.countRaw c).since c ≠ some 0 := by
  simp [State.countRaw]

/-- A step of the call keeps it in front of its raw call. -/
theorem BeforeRetry.own {io : DoIo C} {s s' : State C} {a : Act C} {c : C}
    (h : BeforeRetry s c) (hown : Own io s c a s') : BeforeRetry s' c := by
  cases hown with
  | enter hphase _ | skipTimer hphase | arm hphase | register hphase _ | fail hphase
  | yield hphase =>
      have hne := not_since_zero h hphase rfl
      intro hzero
      exact absurd hzero hne
  | @undo timer errno hphase =>
      have hne := not_since_zero h hphase rfl
      obtain ⟨timers, heq⟩ := cancelTimer_eq s c timer
      rw [heq]
      intro hzero
      exact absurd hzero hne
  | pass hphase | call hphase =>
      intro hzero
      exact absurd hzero (countRaw_since s c)
  | resume hphase _ | cancelTimer hphase | timedOut hphase _ | retry hphase _ =>
      intro _
      simp [State.move, Phase.beforeRetry]
  | collect htimer | guard htimer | mark htimer => exact h
  | @cancelEvent i ok htimer =>
      cases ok with
      | false => exact h
      | true =>
          obtain ⟨slot, scheduled, heq⟩ := trigger_eq s (io.fd c) (io.event c)
          rw [if_pos rfl, heq]
          exact h

/-- Every step keeps a call in front of its raw call. -/
theorem beforeRetry_step {io : DoIo C} {s s' : State C} {a : Act C}
    (h : ∀ c, BeforeRetry s c) (hstep : Step io s a s') (c : C) : BeforeRetry s' c := by
  by_cases hactor : a.actor = some c
  · exact (h c).own (step_own hstep hactor)
  · intro hzero
    rcases step_since hstep hactor with hsame | ⟨-, hparked⟩
    · rw [hsame] at hzero
      rw [(step_keeps hstep hactor).phase]
      exact h c hzero
    · cases hphase : s'.phase c with
      | parked timer => rfl
      | _ => simp [hphase, Phase.isParked] at hparked

/-- In every run a call that has made no raw call since the close is in front of one. -/
theorem reachable_beforeRetry {io : DoIo C} {s : State C}
    (h : Reachable (· = start) (Step io) s) (c : C) : BeforeRetry s c := by
  refine h.invariant (I := fun s => ∀ c, BeforeRetry s c) ?_ ?_ c
  · intro s hs c hzero
    subst hs
    cases hzero
  · intro s a s' hs _ hstep
    exact beforeRetry_step hs hstep

/-- **A closed descriptor is not refused.**  For any calls of `do_io` and every
interleaving of their steps with hooked `close`, a call whose descriptor was closed
while it was parked never returns the way it should: by the time it returns it has
gone back to the raw function, or it returns with `ETIMEDOUT`. -/
theorem returned_not_refused (io : DoIo C) {s : State C}
    (h : Reachable (· = start) (Step io) s) {c : C} {k : Nat} {n : Int} {errno : Errno}
    (hclosed : s.since c = some k) (hreturned : s.phase c = .returned n errno) :
    ¬ RefusesAfterClose s c := by
  intro hrefuses
  obtain ⟨hzero, hresult⟩ := hrefuses k hclosed
  obtain ⟨-, hebadf⟩ := hresult n errno hreturned
  subst hzero hebadf
  have hbefore := reachable_beforeRetry h c hclosed
  rw [hreturned] at hbefore
  simp [Phase.beforeRetry] at hbefore

end Steps

/-- A read of descriptor 3 without a timeout parks; the descriptor is closed, and its
number goes to a new socket.  The call is woken and reads. -/
def closeAndReuse : List (Act Unit) :=
  [.opened 3 .socket, .enter () true .socket, .raw () (-1) .eagain, .arm (),
    .addEvent () none, .yield (), .close 3 .socket true true, .opened 3 .socket,
    .resume (), .cancelTimer (), .test (), .raw () 16 .none]

/-- The woken call reads what has come for the new socket. -/
theorem closed_descriptor_is_read :
    ¬ ∀ s : State Unit, Reachable (· = start) (Step readOfThree) s →
      ∀ c, RefusesAfterClose s c := by
  intro hnot
  obtain ⟨s, hreach, hsince⟩ : ∃ s : State Unit, Reachable (· = start) (Step readOfThree) s ∧
      s.since () = some 1 :=
    exists_view rfl (fun _ _ _ h => ⟨trivial, h⟩) closeAndReuse (by decide)
  have hzero := (hnot s hreach () 1 hsince).1
  cases hzero

/-- The descriptor is closed and opened again while a call is parked, and the call reads from
the new one. -/
theorem returned_not_refused_of_reuse :
    ∃ s : State Unit, Reachable (· = start) (Step readOfThree) s ∧ s.since () = some 1 ∧
      s.phase () = .returned 16 .none ∧ ¬ RefusesAfterClose s () := by
  obtain ⟨s, hreach, hview⟩ : ∃ s : State Unit, Reachable (· = start) (Step readOfThree) s ∧
      (s.since (), s.phase ()) = (some 1, .returned 16 .none) :=
    exists_view rfl (fun _ _ _ h => ⟨trivial, h⟩) closeAndReuse (by decide)
  obtain ⟨hsince, hphase⟩ := Prod.mk.injEq .. ▸ hview
  exact ⟨s, hreach, hsince, hphase, returned_not_refused readOfThree hreach hsince hphase⟩

end Hook

end Agent
