import GServer.ContextRefinement

/-!
# Runs of the contexts

In every run without a clash the threads step as the workers of `Workers` do, and each
is where its context, `GetThis` and `run` say; where workers take free coroutines only,
no step is a clash.
-/

namespace Agent

open Runs StackSwitching

namespace Contexts

open Workers (CoState Kind Phase Stage)

variable {W C : Type}

/-! ## Runs without a clash -/

/-- The step is none that leads out of the model. -/
def Unclashed (s : State W C) : Act W C → Prop
  | .run a => ¬ Clash s a
  | _ => True

instance [Fintype W] [DecidableEq W] [DecidableEq C] (s : State W C) :
    DecidablePred (Clash s) := fun a => by
  cases a with
  | swapIn w =>
      cases hphase : s.phase w with
      | on kind c stage =>
          refine decidable_of_iff (stage = .entering ∧
            ((∃ u, s.machine.stack u = some (.user c)) ∨ s.code (.user c) = .absent)) ⟨?_, ?_⟩
          · rintro ⟨rfl, hc⟩
            exact .swapIn hphase hc
          · rintro ⟨⟩
            rename_i hc hw
            obtain ⟨rfl, rfl, rfl⟩ := Phase.on.inj (hw.symm.trans hphase)
            exact ⟨rfl, hc⟩
      | _ => exact .isFalse (by rintro ⟨⟩; rename_i hw; cases hw.symm.trans hphase)
  | update w stop =>
      cases hphase : s.phase w with
      | on kind c stage =>
          refine decidable_of_iff (kind = .cb ∧ stage = .returned ∧
            CoState.ended (s.mstate (.user c)) = true ∧
              ∃ u, s.machine.stack u = some (.user c)) ⟨?_, ?_⟩
          · rintro ⟨rfl, rfl, hended, hc⟩
            exact .reset hphase hended hc
          · rintro ⟨⟩
            rename_i hended hc hw
            obtain ⟨rfl, rfl, rfl⟩ := Phase.on.inj (hw.symm.trans hphase)
            exact ⟨rfl, rfl, hended, hc⟩
      | _ => exact .isFalse (by rintro ⟨⟩; rename_i hw; cases hw.symm.trans hphase)
  | _ => exact .isFalse (by rintro ⟨⟩)

instance [Fintype W] [DecidableEq W] [DecidableEq C] (s : State W C) :
    DecidablePred (Unclashed s) := fun a => by
  cases a with
  | run a => exact inferInstanceAs (Decidable (¬ Clash s a))
  | construct w | back w => exact inferInstanceAs (Decidable True)

section Steps

variable [DecidableEq W] [DecidableEq C] {s s' : State W C} {w : W} {k : Co W C} {c : C}

/-- Every step that stays in the model keeps the invariant. -/
theorem step_inv (h : Inv s) {a : Act W C} (hguard : Unclashed s a) (hstep : Step s a s') :
    Inv s' := by
  cases a with
  | construct w => exact (construct_inv h hstep).1
  | back w =>
      obtain ⟨hstack, hphase⟩ := back_only h hstep
      obtain ⟨s'', hback, hinv, -⟩ := back_spec h hstack hphase
      rw [hstep] at hback
      rw [Option.some.inj hback]
      exact hinv
  | run a =>
      have hact : s.act a = some s' := hstep
      have hfollows := act_follows h hguard
      unfold Follows at hfollows
      split at hfollows
      · rw [hact] at hfollows
        cases hfollows
      · obtain ⟨s'', hs'', -, hinv, -⟩ := hfollows
        rw [hact] at hs''
        rw [Option.some.inj hs'']
        exact hinv

/-- The invariant holds in every run without a clash. -/
theorem reachable_inv (h : ReachableUnder (· = start) Step Unclashed s) : Inv s :=
  h.invariant (fun _ h0 => h0 ▸ inv_start) fun _ _ _ hinv hguard hstep =>
    step_inv hinv hguard hstep

/-- A step that follows is the step of the workers, seen without the contexts. -/
theorem Follows.map_workers {a : Workers.Act W C} (h : Follows s a) :
    (s.act a).map State.workers = Workers.step s.workers a := by
  unfold Follows at h
  cases hstep : Workers.step s.workers a with
  | none =>
      rw [hstep] at h
      have hact : s.act a = none := h
      rw [hact]
      rfl
  | some r =>
      rw [hstep] at h
      obtain ⟨s', hact, hworkers, -⟩ := h
      rw [hact, Option.map_some, hworkers]

/-- The caller resumes a coroutine that holds, then resumes it once more. -/
def heldAndResumed : List (Act Bool Nat) :=
  let holds : List (Workers.Act Bool Nat) :=
    [.yield false .hold, .swapOut false, .update false false,
      .schedule ⟨some 0, false, none⟩, .pick false 3, .test false, .swapIn false]
  .construct false :: (Workers.resumes ++ holds).map .run

/-- The coroutine is resumed before it is off its stack. -/
def resumedTwice : List (Act Bool Nat) :=
  let again : List (Workers.Act Bool Nat) :=
    [.schedule ⟨some 0, false, none⟩, .yield false .hold, .pick true 3, .test true]
  .construct false :: (Workers.resumes ++ again).map .run

/-- **The contexts refine the workers.**  In every state of every run without a clash the
threads, with the stacks that `swapcontext` puts them on and the coroutines that `GetThis`
answers, make each step that is no clash exactly as the workers of `Workers` do.  The
constructor with `use_caller` and the return to the caller are not seen. -/
theorem steps_with_workers (h : ReachableUnder (· = start) Step Unclashed s) :
    (∀ a, ¬ Clash s a → (s.act a).map State.workers = Workers.step s.workers a) ∧
      ∀ w s', Step s (.construct w) s' ∨ Step s (.back w) s' → s'.workers = s.workers := by
  have hinv := reachable_inv h
  refine ⟨fun a hclash => (act_follows hinv hclash).map_workers, fun w s' hstep => ?_⟩
  rcases hstep with hstep | hstep
  · exact (construct_inv hinv hstep).2
  · obtain ⟨hstack, hphase⟩ := back_only hinv hstep
    obtain ⟨s'', hback, -, hworkers, -⟩ := back_spec hinv hstack hphase
    rw [show s'' = s' from Option.some.inj (hback.symm.trans hstep)] at hworkers
    exact hworkers

/-- The coroutine is about to be resumed on a second thread, which would be a clash; on the
first it goes off its stack. -/
theorem steps_with_workers_of_resumed :
    ∃ s : State Bool Nat, ReachableUnder (· = start) Step Unclashed s ∧
      Clash s (.swapIn true) ∧ s.machine.stack false = some (.user 0) ∧
      (s.act (.swapOut false)).map State.workers = Workers.step s.workers (.swapOut false) := by
  obtain ⟨s, hreach, hview⟩ : ∃ s : State Bool Nat,
      ReachableUnder (· = start) Step Unclashed s ∧
      (s.phase true, s.machine.stack false) = (.on .task 0 .entering, some (.user 0)) :=
    exists_guarded_view rfl (fun _ _ _ h => h) resumedTwice (by decide)
  obtain ⟨hphase, hstack⟩ := Prod.mk.injEq .. ▸ hview
  have hclash : Clash s (.swapIn true) := .swapIn hphase (.inl ⟨false, hstack⟩)
  have hnot : ¬ Clash s (.swapOut false) := by rintro ⟨⟩
  exact ⟨s, hreach, hclash, hstack, (steps_with_workers hreach).1 _ hnot⟩

/-- What the contexts and `GetThis` say of the places of the threads. -/
structure Places (s : State W C) : Prop where
  alone : ∀ w u k, s.machine.stack w = some k → s.machine.stack u = some k → w = u
  last : ∀ w p, s.machine.on w = some p → p.turn = s.machine.left p.stack
  /-- A stack that was left in a switch, or is new, has its last position saved. -/
  saved : ∀ k, s.machine.Free k → (s.code k).saved = true →
    s.machine.slot k = some ⟨k, s.machine.left k⟩
  /-- With nobody on its stack the `MainFunc` of a coroutine is over or can be gone on with. -/
  waits : ∀ c, s.machine.Free (.user c) →
    s.code (.user c) = .absent ∨ (s.code (.user c)).saved = true
  getThis : ∀ w k, s.machine.stack w = some k → s.current w = some k
  onStack : ∀ w c, s.machine.stack w = some (.user c) ↔
    ∃ kind stage, s.phase w = .on kind c stage ∧ stage.onStack
  /-- `run` executes on the scheduler's stack; the caller is back on its own when it is
  over. -/
  inRun : ∀ w, InRun (s.phase w) →
    s.scheduler w ≠ none ∧ s.machine.stack w = s.scheduler w ∨
      s.phase w = .finished ∧ s.code .root = .absent ∧ s.machine.stack w = some (.own w)

omit [DecidableEq W] [DecidableEq C] in
/-- A stack that was left has its last position in its own slot. -/
theorem Inv.saved_position (h : Inv s) (hfree : s.machine.Free k)
    (hsaved : (s.code k).saved = true) : s.machine.slot k = some ⟨k, s.machine.left k⟩ := by
  obtain ⟨⟨j, n⟩, hslot⟩ := Option.isSome_iff_exists.mp (h.saved k hsaved)
  obtain rfl : j = k := h.sound.owned k _ hslot
  have hn : n = s.machine.left j := h.sound.kept j _ hslot hfree
  rw [hslot, hn]

omit [DecidableEq W] [DecidableEq C] in
/-- With nobody on its stack a coroutine is over or can be gone on with. -/
theorem Inv.waits (h : Inv s) (hfree : s.machine.Free (.user c)) :
    s.code (.user c) = .absent ∨ (s.code (.user c)).saved = true := by
  have hnobody : (s.code (.user c)).executing ≠ true := by
    intro hexecuting
    obtain ⟨w, hw⟩ := h.executing c hexecuting
    exact hfree w hw
  generalize hx : s.code (.user c) = x at hnobody ⊢
  have husers : UserCode c x := hx ▸ h.users c
  cases husers with
  | absent => exact .inl rfl
  | fresh => exact .inr rfl
  | suspended => exact .inr rfl
  | body => exact absurd rfl hnobody
  | leaving => exact absurd rfl hnobody

omit [DecidableEq W] [DecidableEq C] in
/-- `GetThis` answers the coroutine whose stack it is called on. -/
theorem Standing.getThis (h : Standing s w) (hk : s.machine.stack w = some k) :
    s.current w = some k := by
  cases h with
  | unused hstack =>
      rw [hstack] at hk
      cases hk
  | atStart hstack hscheduler hcurrent | running hstack hscheduler hcurrent
  | away hstack hscheduler hcurrent => rw [hcurrent, ← hk, hstack]

omit [DecidableEq W] [DecidableEq C] in
/-- A thread on a coroutine's stack is seen with that coroutine. -/
theorem Inv.phase_of_stack (h : Inv s) (hw : s.machine.stack w = some (.user c)) :
    ∃ kind stage, s.phase w = .on kind c stage ∧ stage.onStack := by
  cases h.standing w with
  | unused hstack | atStart hstack =>
      rw [hw] at hstack
      cases hstack
  | running hstack hscheduler hcurrent hcode hhome =>
      obtain rfl := Option.some.inj (hw.symm.trans hstack)
      rcases hhome.cases with heq | heq <;> cases heq
  | away hstack hscheduler hcurrent hcode hhome hbody =>
      obtain rfl := Co.user.inj (Option.some.inj (hw.symm.trans hstack))
      exact ⟨_, _, phase_of_waiting hscheduler hcode, h.onStack hbody⟩

omit [DecidableEq W] [DecidableEq C] in
/-- A worker that executes a coroutine is on its stack. -/
theorem Standing.stack_of_phase (h : Standing s w) {kind : Kind} {stage : Stage}
    (hphase : s.phase w = .on kind c stage) (honStack : stage.onStack) :
    s.machine.stack w = some (.user c) := by
  cases h with
  | unused hstack hscheduler =>
      rw [phase_of_none hscheduler] at hphase
      cases hphase
  | atStart hstack hscheduler hcurrent hthread hown hroot =>
      rcases phase_of_atStart hscheduler hroot with ⟨hat, -⟩ | ⟨hat, -⟩ <;>
        · rw [hat] at hphase
          cases hphase
  | running hstack hscheduler hcurrent hcode hhome hinRun =>
      rw [phase_of_run hscheduler hcode] at hphase
      rw [hphase] at hinRun
      exact absurd honStack hinRun
  | away hstack hscheduler hcurrent hcode hhome hbody =>
      rw [phase_of_waiting hscheduler hcode] at hphase
      obtain ⟨-, rfl, -⟩ := Phase.on.inj hphase
      exact hstack

omit [DecidableEq W] [DecidableEq C] in
/-- `run` executes on the scheduler's stack. -/
theorem Inv.inRun_places (h : Inv s) (hinRun : InRun (s.phase w)) :
    s.scheduler w ≠ none ∧ s.machine.stack w = s.scheduler w ∨
      s.phase w = .finished ∧ s.code .root = .absent ∧ s.machine.stack w = some (.own w) := by
  cases h.standing w with
  | unused hstack hscheduler =>
      rw [phase_of_none hscheduler] at hinRun
      cases hinRun
  | atStart hstack hscheduler hcurrent hthread hown hroot =>
      rcases phase_of_atStart hscheduler hroot with ⟨hat, -⟩ | ⟨hat, habsent⟩
      · rw [hat] at hinRun
        cases hinRun
      · exact .inr ⟨hat, habsent, hstack⟩
  | running hstack hscheduler =>
      rw [hscheduler]
      exact .inl ⟨by simp, hstack⟩
  | away hstack hscheduler hcurrent hcode hhome hbody =>
      rw [phase_of_waiting hscheduler hcode] at hinRun
      exact absurd (h.onStack hbody) hinRun

/-- **Where the threads are.**  In every state of every run without a clash a thread is
alone on its stack and at the last position of it, and a stack that was left has that
position saved in its context; `GetThis` answers the coroutine on whose stack the thread
is, and the stack is the one that the worker is seen on. -/
theorem reachable_places (h : ReachableUnder (· = start) Step Unclashed s) : Places s := by
  have hinv := reachable_inv h
  exact {
    alone := hinv.sound.alone
    last := hinv.sound.current
    saved := fun _ hfree hsaved => hinv.saved_position hfree hsaved
    waits := fun _ hfree => hinv.waits hfree
    getThis := fun w _ hk => (hinv.standing w).getThis hk
    onStack := fun w _ => ⟨hinv.phase_of_stack, fun ⟨_, _, hphase, honStack⟩ =>
      (hinv.standing w).stack_of_phase hphase honStack⟩
    inRun := fun _ hinRun => hinv.inRun_places hinRun }

/-- The caller is on the coroutine's stack, and the scheduler's, which it has left three
times, can be gone on with. -/
theorem reachable_places_of_held :
    ∃ s : State Bool Nat, ReachableUnder (· = start) Step Unclashed s ∧
      s.phase false = .on .task 0 .executing ∧ s.machine.left .root = 3 ∧ Places s ∧
      s.machine.stack false = some (.user 0) ∧ s.current false = some (.user 0) := by
  obtain ⟨s, hreach, hview⟩ : ∃ s : State Bool Nat,
      ReachableUnder (· = start) Step Unclashed s ∧
      (s.phase false, s.machine.left .root) = (.on .task 0 .executing, 3) :=
    exists_guarded_view rfl (fun _ _ _ h => h) heldAndResumed (by decide)
  obtain ⟨hphase, hleft⟩ := Prod.mk.injEq .. ▸ hview
  have hplaces := reachable_places hreach
  have hstack := (hplaces.onStack false 0).mpr ⟨_, _, hphase, trivial⟩
  exact ⟨s, hreach, hphase, hleft, hplaces, hstack, hplaces.getThis false _ hstack⟩

end Steps

/-! ## Runs in which workers take free coroutines only -/

/-- An idle coroutine does not end with an exception: `run` would resume it again. -/
def IdleReturns [DecidableEq C] (t : Workers.State W C) : Workers.Act W C → Prop
  | .yield w .except =>
      match t.phase w with
      | .on _ c .executing => ∀ u, t.idle u ≠ some c
      | _ => True
  | _ => True

/-- Workers take free coroutines only. -/
def Orderly [DecidableEq W] [DecidableEq C] (s : State W C) : Act W C → Prop
  | .run a => Workers.TakesFree s.workers a ∧ IdleReturns s.workers a
  | _ => True

/-- A coroutine that is about to be resumed has not ended. -/
structure Live (t : Workers.State W C) : Prop where
  entering : ∀ w kind c, t.phase w = .on kind c .entering → CoState.ended (t.cstate c) = false
  idle : ∀ w i, t.idle w = some i → t.cstate i ≠ some .except

/-- No coroutine is about to be resumed. -/
theorem live_start : Live (Workers.start : Workers.State W C) where
  entering _ _ _ h := by simp [Workers.start] at h
  idle _ _ h := by simp [Workers.start] at h

section Orderly

variable [DecidableEq W] [DecidableEq C] {t r : Workers.State W C} {w : W} {c : C}

omit [DecidableEq C] in
/-- One worker moves; a state that changes is not that of the end. -/
theorem Live.set {queue : List (Workers.CoroutineAndThread W C)} (h : Live t) {p : Phase C}
    {f : C → Option CoState}
    (hp : ∀ kind c, p = .on kind c .entering → CoState.ended (f c) = false)
    (hf : ∀ d, f d = t.cstate d ∨ CoState.ended (f d) = false) :
    Live ({ t with queue := queue }.set w p f) := by
  refine ⟨fun u kind d hu => ?_, fun u i hi hexcept => ?_⟩
  · by_cases huw : u = w
    · have hself : ({ t with queue := queue }.set w p f).phase w = p := Function.update_self ..
      rw [huw, hself] at hu
      exact hp kind d hu
    · have hold : t.phase u = .on kind d .entering :=
        (Function.update_of_ne huw _ _).symm.trans hu
      rcases hf d with hsame | hlive
      · exact (congrArg CoState.ended hsame).trans (h.entering u kind d hold)
      · exact hlive
  · have hexcept' : f i = some .except := hexcept
    rcases hf i with hsame | hlive
    · exact h.idle u i hi (hsame.symm.trans hexcept')
    · rw [hexcept'] at hlive
      cases hlive

omit [DecidableEq W] [DecidableEq C] in
/-- The queue, the flag and the idle coroutines may change. -/
theorem Live.congr (h : Live t) (hphase : r.phase = t.phase) (hcstate : r.cstate = t.cstate)
    (hidle : ∀ u i, r.idle u = some i → t.cstate i ≠ some .except) : Live r := by
  refine ⟨fun u kind d hu => ?_, fun u i hi => ?_⟩
  · rw [hphase] at hu
    rw [hcstate]
    exact h.entering u kind d hu
  · rw [hcstate]
    exact hidle u i hi

omit [DecidableEq W] in
/-- A state that is written. -/
theorem live_update {f : C → Option CoState} {st : CoState}
    (hst : CoState.ended (some st) = false) (d : C) :
    Function.update f c (some st) d = f d ∨
      CoState.ended (Function.update f c (some st) d) = false := by
  by_cases hd : d = c
  · rw [hd, Function.update_self]
    exact .inr hst
  · exact .inl (Function.update_of_ne hd _ _)

omit [DecidableEq C] in
/-- The idle branch resumes an idle coroutine that has not ended. -/
theorem Live.idleBranch (h : Live t) (hidle : t.idleBranch w = some r) : Live r := by
  unfold Workers.State.idleBranch at hidle
  split at hidle
  · cases hidle
  · rename_i i hi
    split at hidle
    · cases hidle
      exact h.set (by simp) fun _ => .inl rfl
    · rename_i hterm
      cases hidle
      refine h.set (fun kind d hd => ?_) fun _ => .inl rfl
      injection hd with _ hd
      subst hd
      have hexcept := h.idle w i hi
      cases hstate : t.cstate i with
      | none => rfl
      | some st =>
          rw [hstate] at hterm hexcept
          cases st with
          | term => exact absurd rfl hterm
          | except => exact absurd rfl hexcept
          | init | hold | exec | ready => rfl

/-- What is done after a switch resumes nothing. -/
theorem Live.postSwap (h : Live t) (kind : Kind) (stop : Bool) :
    Live (t.postSwap w kind c stop) := by
  have hkeep : ∀ p : Phase C, (∀ kind c, p ≠ .on kind c .entering) →
      Live (t.set w p t.cstate) := fun p hp =>
    h.set (fun kind c heq => absurd heq (hp kind c)) fun _ => .inl rfl
  have hset : ∀ st, CoState.ended (some st) = false →
      Live (t.set w .loop (Function.update t.cstate c (some st))) := fun st hst =>
    h.set (by simp) (live_update hst)
  have hpush : ∀ queue, Live { t.set w .loop t.cstate with queue := queue } := fun queue =>
    (hkeep .loop (by simp)).congr rfl rfl (hkeep .loop (by simp)).idle
  unfold Workers.State.postSwap
  cases kind with
  | task =>
      dsimp only
      split
      · exact hpush _
      · split
        · exact hkeep .loop (by simp)
        · exact hset .hold rfl
  | cb =>
      dsimp only
      split
      · exact hpush _
      · split
        · exact hset .init rfl
        · exact hset .hold rfl
  | idle =>
      dsimp only
      split
      · exact hkeep .finished (by simp)
      · split
        · exact hkeep .loop (by simp)
        · exact hset .hold rfl

/-- A coroutine that is taken from the queue is entered only if it has not ended. -/
theorem not_ended_of_test (hw : t.phase w = .on .task c .picked)
    (hstep : Workers.step t (.test w) = some (t.set w (.on .task c .entering) t.cstate)) :
    CoState.ended (t.cstate c) = false := by
  cases hended : CoState.ended (t.cstate c) with
  | false => rfl
  | true =>
      have hself : ∀ p, (t.set w p t.cstate).phase w = p := fun _ => Function.update_self ..
      simp only [Workers.step, hw, hended, if_true] at hstep
      unfold Workers.State.idleBranch at hstep
      split at hstep
      · cases hstep
      · split at hstep
        · have hphase := congrArg (fun t => t.phase w) (Option.some.inj hstep)
          rw [hself, hself] at hphase
          cases hphase
        · have hphase := congrArg (fun t => t.phase w) (Option.some.inj hstep)
          rw [hself, hself] at hphase
          cases hphase

/-- A coroutine that yields is not about to be resumed. -/
theorem Live.yield (hinv : Workers.Inv t) (h : Live t) {kind : Kind} {wrote : CoState}
    (hreturns : IdleReturns t (.yield w wrote)) (hw : t.phase w = .on kind c .executing) :
    Live (t.set w (.on kind c (.leaving wrote)) (Function.update t.cstate c (some wrote))) := by
  refine ⟨fun u kind' d hu => ?_, fun u i hi hexcept => ?_⟩
  · have huw : u ≠ w := by
      intro heq
      have hself : (t.set w (.on kind c (.leaving wrote))
        (Function.update t.cstate c (some wrote))).phase w = .on kind c (.leaving wrote) :=
        Function.update_self ..
      rw [heq, hself] at hu
      cases hu
    have hold : t.phase u = .on kind' d .entering :=
      (Function.update_of_ne huw _ _).symm.trans hu
    have hdc : d ≠ c := by
      intro heq
      exact huw (hinv.alone u w c (by rw [hold, heq]; rfl) (by rw [hw]; rfl))
    have hsame : (t.set w (.on kind c (.leaving wrote))
        (Function.update t.cstate c (some wrote))).cstate d = t.cstate d :=
      Function.update_of_ne hdc _ _
    rw [hsame]
    exact h.entering u kind' d hold
  · have hexcept' : Function.update t.cstate c (some wrote) i = some .except := hexcept
    by_cases hic : i = c
    · subst hic
      rw [Function.update_self] at hexcept'
      obtain rfl := Option.some.inj hexcept'
      simp only [IdleReturns, hw] at hreturns
      exact hreturns u hi
    · rw [Function.update_of_ne hic] at hexcept'
      exact h.idle u i hi hexcept'

/-- What `IdleReturns` is for. -/
theorem live_step (hinv : Workers.Inv t) (h : Live t) {a : Workers.Act W C}
    (hreturns : IdleReturns t a) (hstep : Workers.step t a = some r) : Live r := by
  cases Workers.turn_of_step hstep with
  | @create c hnew =>
      have hupdate : ∀ d, Function.update t.cstate c (some .init) d = t.cstate d ∨
          CoState.ended (Function.update t.cstate c (some .init) d) = false := live_update rfl
      refine ⟨fun u kind d hu => ?_, fun u i hi hexcept => ?_⟩
      · rcases hupdate d with hsame | hlive
        · exact (congrArg CoState.ended hsame).trans (h.entering u kind d hu)
        · exact hlive
      · have hexcept' : Function.update t.cstate c (some .init) i = some .except := hexcept
        rcases hupdate i with hsame | hlive
        · exact h.idle u i hi (hsame.symm.trans hexcept')
        · rw [hexcept'] at hlive
          cases hlive
  | schedule | stop => exact h.congr rfl rfl h.idle
  | @start w c hw hnew =>
      have hset : Live (t.set w .loop (Function.update t.cstate c (some .init))) :=
        h.set (by simp) (live_update rfl)
      refine hset.congr rfl rfl fun u i hi => ?_
      have hi' : Function.update t.idle w (some c) u = some i := hi
      by_cases huw : u = w
      · rw [huw, Function.update_self] at hi'
        have hinit : (t.set w .loop (Function.update t.cstate c (some .init))).cstate c =
            some .init := Function.update_self ..
        rw [← Option.some.inj hi', hinit]
        simp
      · rw [Function.update_of_ne huw] at hi'
        exact hset.idle u i hi'
  | exit => exact h.set (by simp) fun _ => .inl rfl
  | pickNothing hw hnone hidle => exact h.idleBranch hidle
  | pickTask =>
      refine h.set (fun kind d hd => ?_) fun _ => .inl rfl
      cases hd
  | pickCb =>
      refine h.set (fun kind d hd => ?_) (live_update rfl)
      injection hd with _ hd
      rw [← hd, Function.update_self]
      rfl
  | testEnded hw hended hidle => exact h.idleBranch hidle
  | testLive hw =>
      refine h.set (fun kind d hd => ?_) fun _ => .inl rfl
      injection hd with _ hd
      rw [← hd]
      exact not_ended_of_test hw hstep
  | swapIn hw =>
      refine h.set (fun kind d hd => ?_) (live_update rfl)
      cases hd
  | yield hw => exact h.yield hinv hreturns hw
  | swapOut =>
      refine h.set (fun kind d hd => ?_) fun _ => .inl rfl
      cases hd
  | update => exact h.postSwap _ _

variable {s s' : State W C}

/-- What is known in the runs in which workers take free coroutines only. -/
structure Ordered (s : State W C) : Prop where
  inv : Inv s
  workers : Workers.Inv s.workers
  live : Live s.workers
  ended : Over s

omit [DecidableEq W] [DecidableEq C] in
/-- A run begins in order. -/
theorem ordered_start : Ordered (start : State W C) where
  inv := inv_start
  workers := Workers.inv_start
  live := live_start
  ended _ _ := .inl rfl

omit [DecidableEq W] [DecidableEq C] in
/-- In order no step is a clash. -/
theorem Ordered.not_clash (h : Ordered s) (a : Workers.Act W C) : ¬ Clash s a := by
  have halone : ∀ u w kind c stage, s.machine.stack u = some (.user c) →
      s.phase w = .on kind c stage → ¬ stage.onStack → False := by
    intro u w kind c stage hu hw hstage
    obtain ⟨kind', stage', hphase, hon⟩ := h.inv.phase_of_stack hu
    have huw : u = w := h.workers.alone u w c
      (by rw [show s.workers.phase u = .on kind' c stage' from hphase]; rfl)
      (by rw [show s.workers.phase w = .on kind c stage from hw]; rfl)
    rw [huw, hw] at hphase
    injection hphase with _ _ heq
    exact hstage (heq ▸ hon)
  intro hclash
  cases hclash with
  | @swapIn w kind c hphase hc =>
      rcases hc with ⟨u, hu⟩ | habsent
      · exact halone u w kind c _ hu hphase id
      · have hcreated : s.mstate (.user c) ≠ none := h.workers.created w c
          (by rw [show s.workers.phase w = .on kind c .entering from hphase]; rfl)
        have hended : CoState.ended (s.mstate (.user c)) = true :=
          (h.ended c habsent).resolve_left hcreated
        have hlive : CoState.ended (s.mstate (.user c)) = false := h.live.entering w kind c hphase
        rw [hended] at hlive
        cases hlive
  | @reset w c stop hphase hended hc =>
      obtain ⟨u, hu⟩ := hc
      exact halone u w .cb c _ hu hphase id

omit [DecidableEq W] [DecidableEq C] in
/-- In order no step leads out of the model. -/
theorem Ordered.unclashed (h : Ordered s) (a : Act W C) : Unclashed s a := by
  cases a with
  | construct w | back w => trivial
  | run a => exact h.not_clash a

/-- Every step that takes free coroutines keeps the order. -/
theorem ordered_step (h : Ordered s) {a : Act W C} (hguard : Orderly s a)
    (hstep : Step s a s') : Ordered s' := by
  have hinv := step_inv h.inv (h.unclashed a) hstep
  cases a with
  | construct w =>
      have hworkers := (construct_inv h.inv hstep).2
      refine ⟨hinv, hworkers ▸ h.workers, hworkers ▸ h.live, fun c hc => ?_⟩
      obtain ⟨-, heq⟩ := Option.ite_none_right_eq_some.mp hstep
      obtain rfl := Option.some.inj heq
      exact h.ended c hc
  | back w =>
      obtain ⟨hstack, hphase⟩ := back_only h.inv hstep
      obtain ⟨s'', hback, -, hworkers, -, -, hcode⟩ := back_spec h.inv hstack hphase
      obtain rfl : s'' = s' := Option.some.inj (hback.symm.trans hstep)
      refine ⟨hinv, hworkers ▸ h.workers, hworkers ▸ h.live, fun c hc => ?_⟩
      have hsame : s''.mstate (.user c) = s.mstate (.user c) :=
        congrFun (congrArg Workers.State.cstate hworkers) c
      rw [hsame]
      exact h.ended c ((hcode c).symm.trans hc)
  | run a =>
      have hact : s.act a = some s' := hstep
      have hfollows := act_follows h.inv (h.not_clash a)
      unfold Follows at hfollows
      split at hfollows
      · rw [hact] at hfollows
        cases hfollows
      · rename_i r hr
        obtain ⟨s'', hs'', hworkers, -, hover⟩ := hfollows
        obtain rfl : s'' = s' := Option.some.inj (hs''.symm.trans hact)
        exact ⟨hinv, hworkers ▸ Workers.step_inv h.workers hguard.1 hr,
          hworkers ▸ live_step h.workers h.live hguard.2 hr, hover h.workers h.ended⟩

/-- Every run that takes free coroutines is in order. -/
theorem ordered_of_reachable (h : ReachableUnder (· = start) Step Orderly s) : Ordered s := by
  refine h.invariant (I := Ordered) ?_ ?_
  · intro s₀ h0
    rw [h0]
    exact ordered_start
  · intro s a s' hs hguard hstep
    exact ordered_step hs hguard hstep

/-- **Free coroutines.**  In a run in which no worker takes up a coroutine that another
still has, and no idle coroutine ends with an exception, every context stands for
something: no step is a clash, the threads make every step as the workers of `Workers` do,
and where `run` is over on the stack of `m_mainCoroutine` the caller gets back to its own. -/
theorem steps_with_workers_of_free (h : ReachableUnder (· = start) Step Orderly s) :
    (∀ a, ¬ Clash s a ∧ (s.act a).map State.workers = Workers.step s.workers a) ∧
      ∀ w, s.machine.stack w = some .root → s.phase w = .finished →
        ∃ s', Step s (.back w) s' ∧ s'.workers = s.workers ∧
          s'.machine.stack w = some (.own w) ∧ s'.current w = some (.own w) := by
  have hordered := ordered_of_reachable h
  refine ⟨fun a => ⟨hordered.not_clash a, ?_⟩, fun w hstack hphase => ?_⟩
  · exact (act_follows hordered.inv (hordered.not_clash a)).map_workers
  · obtain ⟨s', hback, -, hworkers, hown, hcurrent, -⟩ := back_spec hordered.inv hstack hphase
    exact ⟨s', hback, hworkers, hown, hcurrent⟩

end Orderly

instance [Fintype W] [DecidableEq C] (t : Workers.State W C) :
    DecidablePred (IdleReturns t) := fun a => by
  cases a with
  | yield w wrote =>
      cases wrote with
      | except =>
          unfold IdleReturns
          dsimp only
          split
          · infer_instance
          · infer_instance
      | _ => exact inferInstanceAs (Decidable True)
  | _ => exact inferInstanceAs (Decidable True)

instance [Fintype W] [DecidableEq W] [DecidableEq C] (s : State W C) :
    DecidablePred (Orderly s) := fun a => by
  cases a with
  | run a => exact inferInstanceAs (Decidable (_ ∧ _))
  | construct w | back w => exact inferInstanceAs (Decidable True)

/-- The caller begins, is told to stop and leaves `run`. -/
def stoppedAtOnce : List (Act Bool Nat) :=
  [.construct false, .run (.start false 0), .run .stop, .run (.exit false)]

/-- On its second resumption the coroutine goes on where it was; and a caller that is told
to stop gets back to its own stack. -/
theorem steps_with_workers_of_held :
    (∃ s : State Bool Nat, ReachableUnder (· = start) Step Orderly s ∧
      s.phase false = .on .task 0 .executing ∧
      (s.act (.yield false .term)).map State.workers =
        Workers.step s.workers (.yield false .term)) ∧
    ∃ s s' : State Bool Nat, ReachableUnder (· = start) Step Orderly s ∧
      s.machine.stack false = some .root ∧ Step s (.back false) s' ∧
      s'.machine.stack false = some (.own false) := by
  constructor
  · obtain ⟨s, hreach, hphase⟩ : ∃ s : State Bool Nat,
        ReachableUnder (· = start) Step Orderly s ∧ s.phase false = .on .task 0 .executing :=
      exists_guarded_view rfl (fun _ _ _ h => h) heldAndResumed (by decide)
    exact ⟨s, hreach, hphase, ((steps_with_workers_of_free hreach).1 _).2⟩
  · obtain ⟨s, hreach, hview⟩ : ∃ s : State Bool Nat,
        ReachableUnder (· = start) Step Orderly s ∧
        (s.machine.stack false, s.phase false) = (some .root, .finished) :=
      exists_guarded_view rfl (fun _ _ _ h => h) stoppedAtOnce (by decide)
    obtain ⟨hstack, hphase⟩ := Prod.mk.injEq .. ▸ hview
    obtain ⟨s', hback, -, hown, -⟩ := (steps_with_workers_of_free hreach).2 _ hstack hphase
    exact ⟨s, s', hreach, hstack, hback, hown⟩

end Contexts

end Agent
