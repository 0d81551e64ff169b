import GServer.ContextSwitch

/-!
# The contexts refine the workers

In a step that is no clash the threads step as the workers of `Workers` do: the
steps of `run`, the switches, the beginning of a thread and the return to the caller.
-/

namespace Agent

open Runs StackSwitching

namespace Contexts

open Workers (CoState Kind Phase Stage)

variable {W C : Type}

section Steps

variable [DecidableEq W] [DecidableEq C] {s s' : State W C} {w u : W} {k : Co W C} {c : C}

/-! ### `run` between two switches -/

/-- The worker whose `run` makes the step. -/
def runs : Workers.Act W C → Option W
  | .exit w => some w
  | .pick w _ => some w
  | .test w => some w
  | .update w _ => some w
  | _ => none

/-- The worker is where `run` makes such a step. -/
def AtStep (p : Phase C) : Prop :=
  p = .loop ∨ (∃ c, p = .on .task c .picked) ∨ ∃ kind c, p = .on kind c .returned

/-- One worker moves within `run`, and no coroutine is unmade. -/
structure RunStep (s r : Workers.State W C) (w : W) : Prop where
  before : AtStep (s.phase w)
  after : InRun (r.phase w)
  other : ∀ u, u ≠ w → r.phase u = s.phase u
  made : ∀ c, r.cstate c = none → s.cstate c = none

section Workers

variable {t r : Workers.State W C} {a : Workers.Act W C}

omit [DecidableEq C] in
/-- A worker goes on in `run` and makes no coroutine. -/
theorem RunStep.set {queue : List (Workers.CoroutineAndThread W C)} (hbefore : AtStep (t.phase w))
    {p : Phase C} (hp : InRun p) {f : C → Option CoState}
    (hf : ∀ c, f c = none → t.cstate c = none) :
    RunStep t ({ t with queue := queue }.set w p f) w := by
  refine ⟨hbefore, ?_, fun u hu => Function.update_of_ne hu _ _, hf⟩
  have hself : ({ t with queue := queue }.set w p f).phase w = p := Function.update_self ..
  rw [hself]
  exact hp

omit [DecidableEq W] in
/-- A coroutine whose state was written has been made. -/
theorem made_update {f : C → Option CoState} {c d : C} {st : CoState}
    (h : Function.update f c (some st) d = none) : f d = none := by
  by_cases hd : d = c
  · subst hd
    rw [Function.update_self] at h
    cases h
  · rw [Function.update_of_ne hd] at h
    exact h

omit [DecidableEq C] in
/-- The idle branch is a step of `run`. -/
theorem RunStep.idleBranch (hbefore : AtStep (t.phase w)) (h : t.idleBranch w = some r) :
    RunStep t r w := by
  unfold Workers.State.idleBranch at h
  split at h
  · cases h
  · split at h
    · cases h
      exact .set hbefore inRun_finished fun _ hc => hc
    · cases h
      exact .set hbefore (inRun_entering _ _) fun _ hc => hc

/-- What is done after a switch is a step of `run`. -/
theorem RunStep.postSwap {kind : Kind} {stop : Bool} (hw : t.phase w = .on kind c .returned) :
    RunStep t (t.postSwap w kind c stop) w := by
  have hbefore : AtStep (t.phase w) := .inr (.inr ⟨kind, c, hw⟩)
  have hset : ∀ {st p}, InRun p →
      RunStep t (t.set w p (Function.update t.cstate c (some st))) w := fun hp =>
    .set hbefore hp fun _ hc => made_update hc
  have hkeep : ∀ {p}, InRun p → RunStep t (t.set w p t.cstate) w := fun hp =>
    .set hbefore hp fun _ hc => hc
  have hpush : ∀ queue, RunStep t { t.set w .loop t.cstate with queue := queue } w := fun queue =>
    .set hbefore inRun_loop fun _ hc => hc
  unfold Workers.State.postSwap
  cases kind with
  | task =>
      dsimp only
      split
      · exact hpush _
      · split
        · exact hkeep inRun_loop
        · exact hset inRun_loop
  | cb =>
      dsimp only
      split
      · exact hpush _
      · split
        · exact hset inRun_loop
        · exact hset inRun_loop
  | idle =>
      dsimp only
      split
      · exact hkeep inRun_finished
      · split
        · exact hkeep inRun_loop
        · exact hset inRun_loop

omit [DecidableEq C] in
/-- The idle branch writes no state. -/
theorem cstate_of_idleBranch (h : t.idleBranch w = some r) : r.cstate = t.cstate := by
  unfold Workers.State.idleBranch at h
  split at h
  · cases h
  · split at h
    · cases h
      rfl
    · cases h
      rfl

/-- The pick writes the state of the coroutine that it makes. -/
theorem cstate_of_pick {fresh d : C} (h : Workers.step t (.pick w fresh) = some r) :
    r.cstate d = t.cstate d ∨ d = fresh ∧ t.cstate d = none := by
  cases Workers.turn_of_step h with
  | pickNothing hloop hnone hidle => exact .inl (congrFun (cstate_of_idleBranch hidle) d)
  | pickTask => exact .inl rfl
  | pickCb hloop hi hx hc hnew =>
      by_cases hd : d = fresh
      · exact .inr ⟨hd, hd ▸ hnew⟩
      · exact .inl (Function.update_of_ne hd _ _)

/-- After `swapIn` the worker writes the state of its coroutine, unless that has ended. -/
theorem cstate_of_update {kind : Kind} {stop : Bool} {d : C}
    (hw : t.phase w = .on kind c .returned) (h : Workers.step t (.update w stop) = some r) :
    r.cstate d = t.cstate d ∨ d = c ∧ (CoState.ended (t.cstate d) = false ∨ kind = .cb) := by
  cases Workers.turn_of_step h with
  | @update _ kind' c' _ hpc =>
      obtain ⟨rfl, rfl⟩ : kind' = kind ∧ c' = c := by
        rw [hpc] at hw
        injection hw with hkind hc
        exact ⟨hkind, hc⟩
      by_cases hd : d = c'
      · subst hd
        cases kind' with
        | cb => exact .inr ⟨rfl, .inr rfl⟩
        | task | idle =>
            cases hended : CoState.ended (t.cstate d) with
            | false => exact .inr ⟨rfl, .inl rfl⟩
            | true =>
                refine .inl ?_
                simp only [Workers.State.postSwap, hended, if_true]
                split <;> rfl
      · refine .inl ?_
        have hset : ∀ st p, (t.set w p (Function.update t.cstate c' (some st))).cstate d =
            t.cstate d := fun st p => Function.update_of_ne hd _ _
        unfold Workers.State.postSwap
        cases kind' with
        | task | cb | idle =>
            dsimp only
            split
            · rfl
            · split
              · first | rfl | exact hset _ _
              · exact hset _ _

/-- What a step of `run` does. -/
theorem runStep (h : Workers.step t a = some r) (ha : runs a = some w) : RunStep t r w := by
  cases Workers.turn_of_step h with
  | create | schedule | stop | start | swapIn | yield | swapOut => cases ha
  | exit hloop =>
      obtain rfl := Option.some.inj ha
      exact .set (.inl hloop) inRun_finished fun _ hc => hc
  | pickNothing hloop hnone hidle =>
      obtain rfl := Option.some.inj ha
      exact .idleBranch (.inl hloop) hidle
  | pickTask hloop =>
      obtain rfl := Option.some.inj ha
      exact .set (.inl hloop) (inRun_picked _ _) fun _ hc => hc
  | pickCb hloop =>
      obtain rfl := Option.some.inj ha
      exact .set (.inl hloop) (inRun_entering _ _) fun _ hc => made_update hc
  | @testEnded _ c _ hpc hended hidle =>
      obtain rfl := Option.some.inj ha
      exact .idleBranch (.inr (.inl ⟨c, hpc⟩)) hidle
  | @testLive _ c hpc =>
      obtain rfl := Option.some.inj ha
      exact .set (.inr (.inl ⟨c, hpc⟩)) (inRun_entering _ _) fun _ hc => hc
  | update hpc =>
      obtain rfl := Option.some.inj ha
      exact .postSwap hpc

end Workers

omit [DecidableEq W] [DecidableEq C] in
/-- Where a thread's own code is that calls or has called `run`, or on a coroutine's stack,
it makes no step of `run`. -/
theorem Inv.not_atStep (h : Inv s) (hnot : ∀ k cur p, s.machine.stack w = some k →
    s.code k ≠ .run cur p) : ¬ AtStep (s.workers.phase w) := by
  intro hat
  have hneither : s.workers.phase w ≠ .outside ∧ s.workers.phase w ≠ .finished ∧
      ∀ kind c stage, s.workers.phase w = .on kind c stage → ¬ stage.onStack := by
    rcases hat with hat | ⟨c, hat⟩ | ⟨kind, c, hat⟩
    · rw [hat]
      exact ⟨by simp, by simp, by simp⟩
    · rw [hat]
      refine ⟨by simp, by simp, fun kind d stage heq => ?_⟩
      cases heq
      exact id
    · rw [hat]
      refine ⟨by simp, by simp, fun kind d stage heq => ?_⟩
      cases heq
      exact id
  obtain ⟨houtside, hfinished, honStack⟩ := hneither
  cases h.standing w with
  | unused hstack hscheduler => exact houtside (phase_of_none hscheduler)
  | atStart hstack hscheduler hcurrent hthread hown hroot =>
      rcases phase_of_atStart hscheduler hroot with ⟨hphase, -⟩ | ⟨hphase, -⟩
      · exact houtside hphase
      · exact hfinished hphase
  | running hstack hscheduler hcurrent hcode => exact hnot _ _ _ hstack hcode
  | away hstack hscheduler hcurrent hcode hhome hbody =>
      exact honStack _ _ _ (phase_of_waiting hscheduler hcode) (h.onStack hbody)

/-- Between two switches `run` does what it does in `Workers`. -/
theorem inRun_spec (h : Inv s) {a : Workers.Act W C} (ha : runs a = some w) :
    match Workers.step s.workers a with
    | none => s.inRun w a = none
    | some r => ∃ s', s.inRun w a = some s' ∧ s'.workers = r ∧ Inv s' ∧
        s'.machine = s.machine ∧ ∀ c, s'.code (.user c) = s.code (.user c) := by
  by_cases hrun : ∃ k cur p, s.machine.stack w = some k ∧ s.code k = .run cur p
  · obtain ⟨k, cur, p, hstack, hcode⟩ := hrun
    cases hstep : Workers.step s.workers a with
    | none => simp only [State.inRun, hstack, hcode, hstep, Option.map_none]
    | some r =>
        obtain ⟨hbefore, hafter, hother, hmade⟩ := runStep hstep ha
        let s₀ : State W C := { s with
          mstate := written s.mstate r.cstate
          queue := r.queue
          stopping := r.stopping
          idle := r.idle }
        have hprepared : Prepared s s₀ w := by
          refine ⟨rfl, rfl, rfl, rfl, fun _ _ => rfl, fun j hj => ?_⟩
          cases j with
          | user c => exact hmade c hj
          | own v => exact hj
          | root => exact hj
        cases h.standing w with
        | unused hstack' =>
            rw [hstack'] at hstack
            cases hstack
        | atStart hstack' hscheduler hcurrent hthread hown =>
            rw [hstack'] at hstack
            rw [← Option.some.inj hstack, hown] at hcode
            cases hcode
        | away hstack' hscheduler hcurrent hcode' hhome hbody =>
            rw [hstack'] at hstack
            rw [← Option.some.inj hstack] at hcode
            rw [hcode] at hbody
            cases hbody
        | @running j cur' p' hstack' hscheduler hcurrent hcode' hhome =>
            obtain rfl : j = k := Option.some.inj (hstack'.symm.trans hstack)
            obtain rfl : cur' = cur := by
              rw [hcode'] at hcode
              injection hcode
            have hself : (s₀.setCode j (.run cur' (r.phase w))).code j =
                .run cur' (r.phase w) := Function.update_self ..
            have hstanding : Standing (s₀.setCode j (.run cur' (r.phase w))) w := by
              refine .running hstack' hscheduler hcurrent hself (hhome.congr rfl ?_) hafter
              intro hroot
              subst hroot
              have hown : (.own w : Co W C) ≠ .root := by simp
              exact Function.update_of_ne hown (.run cur' (r.phase w)) s.code
            obtain ⟨hinv, hkeeps⟩ := h.recode hprepared hstack'
              (by rw [hcode']; simp) rfl
              (by
                intro c hc
                rcases hhome.cases with heq | heq <;> rw [heq] at hc <;> cases hc) hstanding
            refine ⟨_, ?_, ?_, hinv, rfl, fun c => ?_⟩
            · simp only [State.inRun, hstack', hcode', hstep, Option.map_some]
              rfl
            · refine workers_eq (fun _ => rfl) rfl rfl rfl fun v => ?_
              by_cases hv : v = w
              · subst hv
                exact phase_of_run hscheduler hself
              · rw [hother v hv]
                exact (h.standing v).phase_keeps (hkeeps v hv)
            · have hne : (.user c : Co W C) ≠ j := by
                intro heq
                rcases hhome.cases with hj | hj <;> rw [hj] at heq <;> cases heq
              exact Function.update_of_ne hne (.run cur' (r.phase w)) s.code
  · have hnot : ∀ k cur p, s.machine.stack w = some k → s.code k ≠ .run cur p :=
      fun k cur p hstack hcode => hrun ⟨k, cur, p, hstack, hcode⟩
    have hstep : Workers.step s.workers a = none := by
      cases hstep : Workers.step s.workers a with
      | none => rfl
      | some r => exact absurd (runStep hstep ha).before (h.not_atStep hnot)
    rw [hstep]
    change s.inRun w a = none
    unfold State.inRun
    split
    · rfl
    · rename_i k hstack
      split
      · rename_i cur p hcode
        exact absurd hcode (hnot k cur p hstack)
      · rfl

/-- A new stack for a coroutine that nobody is on. -/
theorem newStack_spec (h : Inv s) (hmade : s.mstate (.user c) ≠ none)
    (hfree : (s.code (.user c)).executing = false) :
    ∃ s', s.newStack c = some s' ∧ s'.workers = s.workers ∧ Inv s' ∧
      s'.code (.user c) = .fresh ∧ ∀ d, d ≠ c → s'.code (.user d) = s.code (.user d) := by
  have hnobody := h.free_of_not_executing hfree
  let s' : State W C :=
    { s.setCode (.user c) .fresh with machine := s.machine.make (.user c) }
  have hcode : s'.code (.user c) = .fresh := Function.update_self ..
  have hother : ∀ j, j ≠ .user c → s'.code j = s.code j := fun j hj =>
    Function.update_of_ne hj _ _
  have hkeeps : ∀ u, Keeps s s' u := by
    intro u
    refine ⟨rfl, rfl, rfl, rfl, fun j hj => h.keeps_code (fun i => ?_) hj⟩
    by_cases hi : i = .user c
    · exact .inr (.inr ⟨c, hi, hi ▸ hnobody⟩)
    · exact .inl (hother i hi)
  refine ⟨s', ?_, ?_, ⟨h.sound.make hnobody, fun u => (h.standing u).keeps (hkeeps u),
    fun j hj => ?_, fun d hd => ?_, fun d => ?_, fun d hd => ?_, h.caller, h.rootMade⟩,
    hcode, fun d hd => hother _ fun heq => hd (Co.user.inj heq)⟩
  · simp only [State.newStack, hfree, Bool.false_eq_true, if_false]
    rfl
  · exact workers_eq (fun _ => rfl) rfl rfl rfl fun v => (h.standing v).phase_keeps (hkeeps v)
  · by_cases hjc : j = .user c
    · subst hjc
      change (Function.update s.machine.slot (.user c) _ (.user c)).isSome = true
      rw [Function.update_self]
      rfl
    · rw [hother j hjc] at hj
      change (Function.update s.machine.slot (.user c) _ j).isSome = true
      rw [Function.update_of_ne hjc]
      exact h.saved j hj
  · by_cases hdc : d = c
    · rw [hdc, hcode] at hd
      cases hd
    · rw [hother _ fun heq => hdc (Co.user.inj heq)] at hd
      exact h.executing d hd
  · by_cases hdc : d = c
    · subst hdc
      rw [hcode]
      exact .fresh
    · rw [hother _ fun heq => hdc (Co.user.inj heq)]
      exact h.users d
  · have hdc : d ≠ c := fun heq => hmade (heq ▸ hd)
    rw [hother _ fun heq => hdc (Co.user.inj heq)]
    exact h.made d hd

/-! ### The threads begin -/

omit [DecidableEq W] [DecidableEq C] in
/-- A thread that has not begun uses no stack of another. -/
theorem Inv.own_free (h : Inv s) (hstack : s.machine.stack w = none) :
    s.machine.Free (.own w) := by
  intro u hu
  rcases h.eq_of_uses (w := w) (u := u) (.inl rfl) (.inr (.inr hu)) with rfl
  rw [hstack] at hu
  cases hu

omit [DecidableEq W] [DecidableEq C] in
/-- Before `m_mainCoroutine` is made no thread uses it. -/
theorem Inv.not_uses_root (h : Inv s) (hroot : s.mstate .root = none) : ¬ Uses s u .root := by
  intro hu
  have hscheduler : s.scheduler u = some .root := by
    rcases hu with heq | hscheduler | hstack
    · cases heq
    · exact hscheduler
    · rcases (h.standing u).stack_cases hstack with heq | hscheduler | ⟨d, heq, -⟩
      · cases heq
      · exact hscheduler
      · cases heq
  exact h.rootMade u hscheduler hroot

omit [DecidableEq C] in
/-- A thread that has not begun gets a coroutine of its own; with `use_caller`
`m_mainCoroutine` is made besides. -/
theorem Inv.adopt_inv (h : Inv s) (hsound : s'.machine.Sound)
    (hothers : ∀ u, u ≠ w → s'.machine.stack u = s.machine.stack u ∧
      s'.current u = s.current u ∧ s'.thread u = s.thread u ∧ s'.scheduler u = s.scheduler u)
    (hslots : ∀ j, (s.machine.slot j).isSome = true → (s'.machine.slot j).isSome = true)
    (hown : (s'.code (.own w)).saved = false)
    (hcode : ∀ j, j ≠ .own w → s'.code j = s.code j ∨
      j = .root ∧ s.mstate .root = none ∧ (s'.machine.slot .root).isSome = true)
    (hmstate : ∀ j, s'.mstate j = none → s.mstate j = none)
    (hcaller : s'.scheduler w = some .root → s.mstate .root = none ∧ s'.mstate .root ≠ none)
    (hunused : s.machine.stack w = none) (hstanding : Standing s' w) :
    Inv s' ∧ ∀ u, u ≠ w → Keeps s s' u := by
  have hkeeps : ∀ u, u ≠ w → Keeps s s' u := by
    intro u hu
    obtain ⟨hstack, hcurrent, hthread, hscheduler⟩ := hothers u hu
    refine ⟨hstack, hcurrent, hthread, hscheduler, fun j hj => ?_⟩
    have hne : j ≠ .own w := by
      intro heq
      exact hu (h.eq_of_uses hj (heq ▸ .inl rfl))
    rcases hcode j hne with heq | ⟨rfl, hroot, -⟩
    · exact heq
    · exact absurd hj (h.not_uses_root hroot)
  have huser : ∀ c, s'.code (.user c) = s.code (.user c) := by
    intro c
    rcases hcode (.user c) (by simp) with heq | ⟨heq, -⟩
    · exact heq
    · cases heq
  refine ⟨⟨hsound, fun u => ?_, fun j hj => ?_, fun c hc => ?_, fun c => ?_, fun c hc => ?_,
    fun u v hu hv => ?_, fun u hu => ?_⟩, hkeeps⟩
  · by_cases hu : u = w
    · rw [hu]
      exact hstanding
    · exact (h.standing u).keeps (hkeeps u hu)
  · have hne : j ≠ .own w := by
      intro heq
      rw [heq, hown] at hj
      cases hj
    rcases hcode j hne with heq | ⟨rfl, -, hslot⟩
    · rw [heq] at hj
      exact hslots j (h.saved j hj)
    · exact hslot
  · rw [huser] at hc
    obtain ⟨u, hu⟩ := h.executing c hc
    have huw : u ≠ w := by
      intro heq
      rw [heq, hunused] at hu
      cases hu
    exact ⟨u, (hkeeps u huw).stack.trans hu⟩
  · rw [huser]
    exact h.users c
  · rw [huser]
    exact h.made c (hmstate _ hc)
  · have hother : ∀ {x}, x ≠ w → s'.scheduler x = some .root → s.scheduler x = some .root :=
      fun hx hroot => (hkeeps _ hx).scheduler.symm.trans hroot
    by_cases huw : u = w <;> by_cases hvw : v = w
    · rw [huw, hvw]
    · exact absurd (hcaller (huw ▸ hu)).1 (h.rootMade v (hother hvw hv))
    · exact absurd (hcaller (hvw ▸ hv)).1 (h.rootMade u (hother huw hu))
    · exact h.caller u v (hother huw hu) (hother hvw hv)
  · by_cases huw : u = w
    · exact (hcaller (huw ▸ hu)).2
    · intro hnone
      exact h.rootMade u ((hkeeps u huw).scheduler.symm.trans hu) (hmstate _ hnone)

theorem mstate_entered {i : C} {j : Co W C} (h : (s.entered w k i).mstate j = none) :
    s.mstate j = none :=
  made_update (f := s.mstate) h

omit [DecidableEq W] in
/-- A coroutine is made. -/
theorem Over.of_made {i : C} {r : Workers.State W C} (h : Over s) (hworkers : s'.workers = r)
    (hcstate : r.cstate = Function.update s.workers.cstate i (some .init))
    (hfresh : s'.code (.user i) = .fresh)
    (hothers : ∀ d, d ≠ i → s'.code (.user d) = s.code (.user d)) : Over s' := by
  refine h.of_other (by rw [hfresh]; simp) fun d hd => ⟨hothers d hd, ?_⟩
  have hsame : s'.workers.cstate d = s.workers.cstate d := by
    rw [hworkers, hcstate, Function.update_of_ne hd]
  exact hsame

/-- A pool thread begins in `run`. -/
theorem begin_pool (h : Inv s) {i : C} (hstack : s.machine.stack w = none)
    (hscheduler : s.scheduler w = none) : Follows s (.start w i) := by
  have hphase : s.workers.phase w = .outside := phase_of_none hscheduler
  let s₁ := s.adoptThread w
  have hon₁ : s₁.machine.on = Function.update s.machine.on w
      (some ⟨.own w, s.machine.left (.own w)⟩) := rfl
  have hstack₁ : ∀ u, s₁.machine.stack u = if u = w then some (.own w) else s.machine.stack u :=
    Machine.stack_update hon₁
  have hcode₁ : s₁.code (.own w) = .outside := Function.update_self ..
  have hmstate₁ : ∀ d, s₁.mstate (.user d) = s.mstate (.user d) := by
    intro d
    have hown : (.user d : Co W C) ≠ .own w := by simp
    exact Function.update_of_ne hown (some CoState.exec) s.mstate
  have hact : s.act (.start w i) = if s.mstate (.user i) = none then
      (s₁.entered w (.own w) i).newStack i else none := by
    have hbegin : s.act (.start w i) = s₁.enterRun w i := by
      simp only [State.act, State.begin, hscheduler, hstack]
      rfl
    rw [hbegin]
    simp only [State.enterRun, hstack₁, if_true, hmstate₁]
  by_cases hi : s.mstate (.user i) = none
  · let s₂ := s₁.entered w (.own w) i
    have hself : s₂.code (.own w) = .run none .loop := by
      change Function.update s₁.code (.own w) (.run (s₁.code (.own w)).cur .loop) (.own w) = _
      rw [Function.update_self, hcode₁]
      rfl
    have hcode₂ : ∀ j, j ≠ .own w → s₂.code j = s.code j := by
      intro j hj
      change Function.update (Function.update s.code _ _) _ _ j = s.code j
      rw [Function.update_of_ne hj, Function.update_of_ne hj]
    have hscheduler₂ : s₂.scheduler w = some (.own w) := Function.update_self ..
    have hstanding : Standing s₂ w :=
      .running ((hstack₁ w).trans (if_pos rfl)) hscheduler₂ (Function.update_self ..) hself .own
        inRun_loop
    have hslots : ∀ j, (s.machine.slot j).isSome = true → (s₂.machine.slot j).isSome = true := by
      intro j hj
      change (Function.update s.machine.slot _ _ j).isSome = true
      by_cases hjw : j = .own w
      · rw [hjw, Function.update_self]
        rfl
      · rw [Function.update_of_ne hjw]
        exact hj
    have hadopted : Inv s₂ ∧ ∀ u, u ≠ w → Keeps s s₂ u := h.adopt_inv
      (h.sound.adopt (Option.map_eq_none_iff.mp hstack) (h.own_free hstack))
      (fun u hu => ⟨(hstack₁ u).trans (if_neg hu), Function.update_of_ne hu _ _,
        Function.update_of_ne hu _ _, Function.update_of_ne hu _ _⟩) hslots
      (by rw [hself]; rfl) (fun j hj => .inl (hcode₂ j hj))
      (fun j hj => made_update (f := s.mstate) (mstate_entered hj))
      (by rw [hscheduler₂]; simp) hstack hstanding
    obtain ⟨hinv, hkeeps⟩ := hadopted
    have hnew : s₂.mstate (.user i) ≠ none := by
      have hinit : s₂.mstate (.user i) = some .init := Function.update_self ..
      rw [hinit]
      simp
    have habsent : (s₂.code (.user i)).executing = false := by
      have huser : s₂.code (.user i) = s.code (.user i) := hcode₂ (.user i) (by simp)
      rw [huser, h.made i hi]
      rfl
    obtain ⟨s', hstep, hworkers, hinv', hfresh, hothers⟩ := newStack_spec hinv hnew habsent
    have hworkers₂ : s'.workers = { s.workers.set w .loop
        (Function.update s.workers.cstate i (some .init)) with
        idle := Function.update s.workers.idle w (some i) } := by
      rw [hworkers]
      refine workers_eq (fun d => ?_) rfl rfl rfl
        (phase_update h hkeeps (phase_of_run hscheduler₂ hself))
      change Function.update s₁.mstate (.user i) (some .init) (.user d) = _
      rw [update_user, funext hmstate₁]
      rfl
    have hover : Over s → Over s' := fun hover =>
      hover.of_made hworkers₂ rfl hfresh fun d hd => (hothers d hd).trans (hcode₂ _ (by simp))
    refine .of_some ?_ ?_ hworkers₂ hinv' fun _ => hover
    · have hcstate : s.workers.cstate i = none := hi
      simp only [Workers.step, hphase, hcstate, and_self, if_true]
    · rw [hact, if_pos hi, hstep]
  · refine .of_none ?_ (by rw [hact, if_neg hi])
    simp only [Workers.step, State.workers, hi, and_false, if_false]

omit [DecidableEq C] in
/-- Without a code that goes on there is no switch. -/
theorem switch_eq_none [DecidableEq C] {load : Co W C} {left : Code W C}
    (h : s.machine.Sound) (hstack : s.machine.stack w = some k) (hne : load ≠ k)
    (hresume : resume (s.current w) (s.code load) = none) : s.switch w k load left = none := by
  obtain ⟨p, hon, rfl⟩ := Option.map_eq_some_iff.mp hstack
  unfold State.switch
  rw [hstack]
  cases hslot : s.machine.slot load with
  | none =>
      have hswap : s.machine.swap w p.stack load = none := by
        simp only [Machine.swap, hon, Machine.saved, Function.update_of_ne hne, hslot]
      rw [hswap]
  | some q =>
      have hq : q.stack = load := h.owned load q hslot
      have hswap : s.machine.swap w p.stack load = some { s.machine.saved p p.stack with
          on := Function.update s.machine.on w (some q) } := by
        simp only [Machine.swap, hon, Machine.saved, Function.update_of_ne hne, hslot]
      have hcode : (s.setCode p.stack left).code load = s.code load :=
        Function.update_of_ne hne _ _
      have hcurrent : (s.setCode p.stack left).current = s.current := rfl
      simp only [hswap, Function.update_self, hq, hcode, hcurrent, hresume, Option.map_none,
        ite_self]

/-- The caller's thread calls `m_mainCoroutine`. -/
theorem begin_caller (h : Inv s) {i : C} (hstack : s.machine.stack w = some (.own w))
    (hscheduler : s.scheduler w = some .root) (hthread : s.thread w = some (.own w))
    (hown : s.code (.own w) = .outside) (hroot : s.code .root = .fresh ∨ s.code .root = .absent) :
    Follows s (.start w i) := by
  have hcall : s.act (.start w i) =
      (((s.setThis w .root).setState .root .exec).switch w (.own w) .root .calling).bind
        fun s => s.enterRun w i := by
    simp only [State.act, State.begin, hscheduler, hstack, hown, State.call, hthread]
  have hne : (.root : Co W C) ≠ .own w := by simp
  rcases phase_of_atStart hscheduler hroot with ⟨hphase, hfresh⟩ | ⟨hphase, habsent⟩
  · have houtside : s.workers.phase w = .outside := hphase
    let s₀ := (s.setThis w .root).setState .root .exec
    let s₁ : State W C := { s₀.setState (.user i) .init with
      idle := Function.update s.idle w (some i) }
    have hcurrent₀ : s₀.current w = some .root := Function.update_self ..
    have hprepared : Prepared s s₀ w := (Prepared.refl.setThis _).setState _ _
    have hwritten : Prepared s s₁ w := by
      have hinit := hprepared.setState (.user i) .init
      exact ⟨hinit.machine, hinit.code, hinit.thread, hinit.scheduler, hinit.current,
        hinit.mstate⟩
    have hstanding : ∀ m : Machine W (Co W C), m.stack w = some .root → Standing
        (s₁.switched (.own w) .root .calling (.run (some .root) .loop) m) w := by
      intro m hm
      exact .running hm hscheduler hcurrent₀ switched_load
        (.root hthread (switched_left hne.symm)) inRun_loop
    have hresume : resume (s₀.current w) (s.code .root) = some (.body .root) := by
      rw [hcurrent₀, hfresh]
      rfl
    obtain ⟨m, hswitch, hm, hinv, hkeeps⟩ := h.switch_inv hprepared hwritten hstack hresume
      (.inl (.inr (.inl hscheduler))) (.inl rfl) (by rw [hown]; simp) rfl (by simp) rfl (by simp)
      hstanding
    let s₃ := s₀.switched (.own w) .root .calling (.body .root) m
    let s₄ := s₁.switched (.own w) .root .calling (.run (some .root) .loop) m
    have hmstate : ∀ d, s₃.mstate (.user d) = s.mstate (.user d) := by
      intro d
      have huser : (.user d : Co W C) ≠ .root := by simp
      exact Function.update_of_ne huser (some CoState.exec) s.mstate
    have hentered : s₃.entered w .root i = s₄ := by
      have hcode : s₃.code .root = .body .root := switched_load
      have hroot' : (s₃.code .root).cur = some .root := by rw [hcode]; rfl
      have hsame : (s₃.entered w .root i).code = s₄.code := by
        change Function.update (Function.update (Function.update s.code (.own w) .calling) .root
          (.body .root)) .root (.run (s₃.code .root).cur .loop) = _
        rw [Function.update_idem, hroot']
        rfl
      have hrest : s₃.entered w .root i =
          { s₄ with code := (s₃.entered w .root i).code } := rfl
      rw [hrest, hsame]
    have hact : s.act (.start w i) = if s.mstate (.user i) = none then s₄.newStack i else none := by
      have hstack₃ : s₃.machine.stack w = some .root := hm
      rw [hcall, hswitch, Option.bind_some, ← hmstate, ← hentered]
      change s₃.enterRun w i = _
      simp only [State.enterRun, hstack₃]
    by_cases hi : s.mstate (.user i) = none
    · have hnew : s₄.mstate (.user i) ≠ none := by
        have hinit : s₄.mstate (.user i) = some .init := Function.update_self ..
        rw [hinit]
        simp
      have habsent : (s₄.code (.user i)).executing = false := by
        have huser : s₄.code (.user i) = s.code (.user i) := switched_of_ne (by simp) (by simp)
        rw [huser, h.made i hi]
        rfl
      obtain ⟨s', hstep, hworkers, hinv', hnew', hothers⟩ := newStack_spec hinv hnew habsent
      have hworkers₄ : s'.workers = { s.workers.set w .loop
          (Function.update s.workers.cstate i (some .init)) with
          idle := Function.update s.workers.idle w (some i) } := by
        rw [hworkers]
        refine workers_eq (fun d => ?_) rfl rfl rfl
          (phase_update h hkeeps (phase_of_run hscheduler switched_load))
        change Function.update s₃.mstate (.user i) (some .init) (.user d) = _
        rw [update_user, funext hmstate]
        rfl
      have hover : Over s → Over s' := fun hover =>
        hover.of_made hworkers₄ rfl hnew' fun d hd =>
          (hothers d hd).trans (switched_of_ne (by simp) (by simp))
      refine .of_some ?_ ?_ hworkers₄ hinv' fun _ => hover
      · have hcstate : s.workers.cstate i = none := hi
        simp only [Workers.step, houtside, hcstate, and_self, if_true]
      · rw [hact, if_pos hi, hstep]
    · refine .of_none ?_ (by rw [hact, if_neg hi])
      simp only [Workers.step, State.workers, hi, and_false, if_false]
  · have hnone : ((s.setThis w .root).setState .root .exec).switch w (.own w) .root .calling =
        none := by
      refine switch_eq_none h.sound hstack hne ?_
      change resume _ (s.code .root) = none
      rw [habsent]
      rfl
    refine .of_none ?_ (by rw [hcall, hnone]; rfl)
    have hfinished : s.workers.phase w = .finished := hphase
    simp only [Workers.step, hfinished, reduceCtorEq, false_and, if_false]

/-- A thread begins as its worker does. -/
theorem begin_follows (h : Inv s) (i : C) : Follows s (.start w i) := by
  cases h.standing w with
  | unused hstack hscheduler => exact begin_pool h hstack hscheduler
  | atStart hstack hscheduler hcurrent hthread hown hroot =>
      exact begin_caller h hstack hscheduler hthread hown hroot
  | @running k cur p hstack hscheduler hcurrent hcode hhome hinRun =>
      have hphase : s.workers.phase w ≠ .outside := by
        intro houtside
        have hp : p = .outside := (phase_of_run hscheduler hcode).symm.trans houtside
        rw [hp] at hinRun
        exact hinRun
      refine .of_none ?_ ?_
      · simp only [Workers.step, hphase, false_and, if_false]
      · rcases hhome.cases with rfl | rfl <;>
          simp only [State.act, State.begin, hscheduler, hstack, hcode]
  | @away k cur kind c hstack hscheduler hcurrent hcode hhome hbody =>
      have hphase : s.workers.phase w = .on kind c (s.code (.user c)).stage :=
        phase_of_waiting hscheduler hcode
      refine .of_none ?_ ?_
      · simp only [Workers.step, hphase, reduceCtorEq, false_and, if_false]
      · rcases hhome.cases with rfl | rfl
        · simp only [State.act, State.begin, hscheduler, hstack]
        · rcases h.executing_cases hbody with hbody | ⟨wrote, hbody⟩ <;>
            simp only [State.act, State.begin, hscheduler, hstack, hbody]

/-! ### All of them -/

omit [DecidableEq W] [DecidableEq C] in
/-- The queue and the flag may change. -/
theorem Inv.withQueue (h : Inv s) (queue : List (Workers.CoroutineAndThread W C))
    (stopping : Bool) : Inv { s with queue := queue, stopping := stopping } := by
  refine ⟨h.sound, fun w => ?_, h.saved, h.executing, h.users, h.made, h.caller, h.rootMade⟩
  exact (h.standing w).keeps ⟨rfl, rfl, rfl, rfl, fun _ _ => rfl⟩

/-- `schedule` and `stop` change the queue and the flag. -/
theorem shared_follows (h : Inv s) {a : Workers.Act W C} (hact : s.act a = s.shared a)
    (hstep : ∀ r, Workers.step s.workers a = some r →
      r = { s.workers with queue := r.queue, stopping := r.stopping }) : Follows s a := by
  cases hr : Workers.step s.workers a with
  | none => exact .of_none hr (by simp only [hact, State.shared, hr, Option.map_none])
  | some r =>
      refine .of_some hr ?_ ?_ (h.withQueue r.queue r.stopping) fun _ hover => hover
      · simp only [hact, State.shared, hr, Option.map_some]
      · rw [hstep r hr]
        rfl

omit [DecidableEq W] in
/-- A coroutine is made as it is for the workers. -/
theorem create_follows [DecidableEq W] (h : Inv s) : Follows s (.create c) := by
  by_cases hc : s.mstate (.user c) = none
  · let s₀ := s.setState (.user c) .init
    have hinv : Inv s₀ := by
      refine ⟨h.sound, fun w => ?_, h.saved, h.executing, h.users, fun d hd => ?_, h.caller,
        fun w hw hnone => ?_⟩
      · exact (h.standing w).keeps ⟨rfl, rfl, rfl, rfl, fun _ _ => rfl⟩
      · exact h.made d (made_update (f := s.mstate) hd)
      · exact h.rootMade w hw hnone
    have hnew : s₀.mstate (.user c) ≠ none := by
      have hinit : s₀.mstate (.user c) = some .init := Function.update_self ..
      rw [hinit]
      simp
    have habsent : (s₀.code (.user c)).executing = false := by
      have hcode : s₀.code (.user c) = .absent := h.made c hc
      rw [hcode]
      rfl
    obtain ⟨s', hstep, hworkers, hinv', hfresh, hothers⟩ := newStack_spec hinv hnew habsent
    have hworkers₀ : s'.workers = { s.workers with
        cstate := Function.update s.workers.cstate c (some .init) } := by
      rw [hworkers]
      exact workers_eq (fun d => update_user ..) rfl rfl rfl fun _ => rfl
    refine .of_some ?_ ?_ hworkers₀ hinv' fun _ hover => hover.of_made hworkers₀ rfl hfresh hothers
    · have hcstate : s.workers.cstate c = none := hc
      simp only [Workers.step, hcstate, if_true]
    · rw [State.act, if_pos hc, hstep]
  · have hcstate : s.workers.cstate c ≠ none := hc
    refine .of_none ?_ (by rw [State.act, if_neg hc])
    simp only [Workers.step, hcstate, if_false]

/-- `exit` and `test` touch no context. -/
theorem plain_follows (h : Inv s) {a : Workers.Act W C} (ha : runs a = some w)
    (hact : s.act a = s.inRun w a)
    (hstep : ∀ r, Workers.step s.workers a = some r → r.cstate = s.workers.cstate) :
    Follows s a := by
  have hspec := inRun_spec h ha
  rw [Follows, hact]
  cases hr : Workers.step s.workers a with
  | none =>
      rw [hr] at hspec
      exact hspec
  | some r =>
      rw [hr] at hspec
      obtain ⟨s', hrun, hworkers, hinv, -, hcode⟩ := hspec
      refine ⟨s', hrun, hworkers, hinv, fun _ hover d hd => ?_⟩
      have hsame : s'.workers.cstate d = s.workers.cstate d := by
        rw [hworkers, hstep r hr]
      have hmstate : s'.mstate (.user d) = s.mstate (.user d) := hsame
      rw [hmstate]
      exact hover d ((hcode d).symm.trans hd)

/-- The pick makes a coroutine where it takes a callback. -/
theorem pick_follows (h : Inv s) (fresh : C) : Follows s (.pick w fresh) := by
  have hspec := inRun_spec h (a := .pick w fresh) rfl
  rw [Follows, State.act]
  cases hstep : Workers.step s.workers (.pick w fresh) with
  | none =>
      rw [hstep] at hspec
      have hrun : s.inRun w (.pick w fresh) = none := hspec
      simp only [hrun, Option.bind_none]
  | some r =>
      rw [hstep] at hspec
      obtain ⟨s₁, hrun, hworkers, hinv, -, hcode⟩ := hspec
      simp only [hrun, Option.bind_some]
      by_cases hnew : s.mstate (.user fresh) = none ∧ s₁.mstate (.user fresh) ≠ none
      · have habsent : (s₁.code (.user fresh)).executing = false := by
          rw [hcode, h.made fresh hnew.1]
          rfl
        obtain ⟨s', hstack, hsame, hinv', hfresh, hothers⟩ := newStack_spec hinv hnew.2 habsent
        refine ⟨s', by rw [if_pos hnew, hstack], hsame.trans hworkers, hinv', fun _ hover =>
          hover.of_other (by rw [hfresh]; simp) fun d hd => ⟨?_, ?_⟩⟩
        · exact (hothers d hd).trans (hcode d)
        · have hcstate : s'.workers.cstate d = s.workers.cstate d := by
            rw [hsame, hworkers]
            exact (cstate_of_pick hstep).resolve_right fun h => hd h.1
          exact hcstate
      · refine ⟨s₁, by rw [if_neg hnew], hworkers, hinv, fun _ hover d hd => ?_⟩
        have hcstate : s₁.mstate (.user d) = r.cstate d := by
          rw [← hworkers]
          rfl
        rcases cstate_of_pick (d := d) hstep with hsame | ⟨rfl, hnone⟩
        · rw [hcstate, hsame]
          exact hover d ((hcode d).symm.trans hd)
        · exact .inl (not_not.mp fun hmade => hnew ⟨hnone, hmade⟩)

/-- After a callback has ended its coroutine is reset. -/
theorem update_follows (h : Inv s) {stop : Bool} (hclash : ¬ Clash s (.update w stop)) :
    Follows s (.update w stop) := by
  have hspec := inRun_spec h (a := .update w stop) rfl
  rw [Follows, State.act]
  cases hstep : Workers.step s.workers (.update w stop) with
  | none =>
      rw [hstep] at hspec
      have hrun : s.inRun w (.update w stop) = none := hspec
      simp only [hrun, Option.bind_none]
  | some r =>
      rw [hstep] at hspec
      obtain ⟨s₁, hrun, hworkers, hinv, -, hcode⟩ := hspec
      simp only [hrun, Option.bind_some]
      have hat : ∃ kind c, s.phase w = .on kind c .returned := by
        cases Workers.turn_of_step hstep with
        | @update _ kind c _ hpc => exact ⟨kind, c, hpc⟩
      obtain ⟨kind, c, hphase⟩ := hat
      have hmstate : ∀ d, s₁.mstate (.user d) = r.cstate d := by
        intro d
        rw [← hworkers]
        rfl
      -- the worker's coroutine has been made: without code it has ended
      have hover : ∀ d, kind ≠ .cb ∨ d ≠ c ∨ CoState.ended (s.mstate (.user c)) = false →
          Workers.Inv s.workers → Over s → s.code (.user d) = .absent →
          s₁.mstate (.user d) = none ∨ CoState.ended (s₁.mstate (.user d)) = true := by
        intro d hd hinv hover habsent
        rw [hmstate]
        rcases cstate_of_update (d := d) hphase hstep with hsame | ⟨rfl, hnot⟩
        · rw [hsame]
          exact hover d habsent
        · have hcreated := hinv.created w d
            (by rw [show s.workers.phase w = .on kind d .returned from hphase]; rfl)
          have hended : CoState.ended (s.mstate (.user d)) = true :=
            (hover d habsent).resolve_left hcreated
          rcases hnot with hnot | hcb
          · exact absurd (hended.symm.trans hnot) Bool.noConfusion
          · rcases hd with hd | hd | hd
            · exact absurd hcb hd
            · exact absurd rfl hd
            · exact absurd (hended.symm.trans hd) Bool.noConfusion
      rw [hphase]
      cases kind with
      | task | idle =>
          exact ⟨s₁, rfl, hworkers, hinv, fun hw ho d hd =>
            hover d (.inl (by simp)) hw ho ((hcode d).symm.trans hd)⟩
      | cb =>
          by_cases hended : CoState.ended (s.mstate (.user c)) = true
          · have hnobody : (s₁.code (.user c)).executing = false := by
              rw [hcode]
              cases hexecuting : (s.code (.user c)).executing with
              | false => rfl
              | true => exact absurd (.reset hphase hended (h.executing c hexecuting)) hclash
            have hmade : s₁.mstate (.user c) ≠ none := by
              intro hnone
              have hold : s.mstate (.user c) = none :=
                (runStep hstep rfl).made c ((hmstate c).symm.trans hnone)
              rw [hold] at hended
              cases hended
            obtain ⟨s', hstack, hsame, hinv', hfresh, hothers⟩ := newStack_spec hinv hmade hnobody
            refine ⟨s', by simp only [hended, if_true, hstack], hsame.trans hworkers, hinv',
              fun hw ho d hd => ?_⟩
            have hdc : d ≠ c := by
              intro heq
              rw [heq, hfresh] at hd
              cases hd
            have hkept : s'.mstate (.user d) = s₁.mstate (.user d) :=
              congrFun (congrArg Workers.State.cstate hsame) d
            rw [hkept]
            exact hover d (.inr (.inl hdc)) hw ho
              ((hcode d).symm.trans ((hothers d hdc).symm.trans hd))
          · refine ⟨s₁, by simp only [hended, if_false, Bool.false_eq_true], hworkers, hinv,
              fun hw ho d hd => ?_⟩
            exact hover d (.inr (.inr (Bool.eq_false_iff.mpr hended))) hw ho
              ((hcode d).symm.trans hd)

/-- **The threads step with the workers** unless the step is a clash. -/
theorem act_follows (h : Inv s) {a : Workers.Act W C} (hclash : ¬ Clash s a) : Follows s a := by
  cases a with
  | create c => exact create_follows h
  | schedule x =>
      refine shared_follows h rfl fun r hr => ?_
      obtain ⟨-, heq⟩ := Option.ite_none_right_eq_some.mp hr
      rw [← Option.some.inj heq]
  | stop =>
      refine shared_follows h rfl fun r hr => ?_
      rw [← Option.some.inj hr]
  | start w c => exact begin_follows h c
  | exit w =>
      refine plain_follows h (a := .exit w) rfl rfl fun r hr => ?_
      cases Workers.turn_of_step hr with
      | exit => rfl
  | pick w fresh => exact pick_follows h fresh
  | test w =>
      refine plain_follows h (a := .test w) rfl rfl fun r hr => ?_
      cases Workers.turn_of_step hr with
      | testEnded hpc hended hidle => exact cstate_of_idleBranch hidle
      | testLive => rfl
  | swapIn w => exact swapIn_follows h hclash
  | yield w wrote => exact yield_follows h wrote
  | swapOut w => exact swapOut_follows h
  | update w stop => exact update_follows h hclash

/-! ### The caller's thread -/

/-- The constructor with `use_caller` leaves the workers as they are. -/
theorem construct_inv (h : Inv s) (hstep : step s (.construct w) = some s') :
    Inv s' ∧ s'.workers = s.workers := by
  obtain ⟨⟨hunused, hroot⟩, heq⟩ := Option.ite_none_right_eq_some.mp hstep
  obtain rfl := Option.some.inj heq
  have hscheduler : s.scheduler w = none := by
    cases h.standing w with
    | unused hstack hscheduler => exact hscheduler
    | atStart hstack | running hstack | away hstack =>
        rw [hunused] at hstack
        cases hstack
  have hne : (.own w : Co W C) ≠ .root := by simp
  have hon : (s.constructed w).machine.on = Function.update s.machine.on w
      (some ⟨.own w, s.machine.left (.own w)⟩) := rfl
  have hstacks := Machine.stack_update hon
  have hfree : (s.getThis w).machine.Free .root := by
    intro u hu
    have hu' : (if u = w then some (.own w) else s.machine.stack u) = some .root :=
      (hstacks u).symm.trans hu
    by_cases huw : u = w
    · rw [if_pos huw] at hu'
      cases hu'
    · rw [if_neg huw] at hu'
      exact h.not_uses_root hroot (.inr (.inr hu'))
  have hsound : (s.constructed w).machine.Sound :=
    (h.sound.adopt (Option.map_eq_none_iff.mp hunused) (h.own_free hunused)).make hfree
  have hcode : ∀ j, (s.constructed w).code j = if j = .root then .fresh
      else if j = .own w then .outside else s.code j := by
    intro j
    change Function.update (Function.update s.code (.own w) .outside) .root .fresh j = _
    simp only [Function.update_apply]
  have hslot : ∀ j, ((s.constructed w).machine.slot j).isSome =
      if j = .root then true else if j = .own w then true else (s.machine.slot j).isSome := by
    intro j
    change (Function.update (Function.update s.machine.slot (.own w) _) .root _ j).isSome = _
    simp only [Function.update_apply]
    split
    · rfl
    · split
      · rfl
      · rfl
  have hown : (s.constructed w).code (.own w) = .outside := by
    rw [hcode, if_neg hne, if_pos rfl]
  have hstanding : Standing (s.constructed w) w :=
    .atStart ((hstacks w).trans (if_pos rfl)) (Function.update_self ..)
      (Function.update_self ..) (Function.update_self ..) hown
      (.inl ((hcode .root).trans (if_pos rfl)))
  obtain ⟨hinv, hkeeps⟩ := h.adopt_inv hsound
    (fun u hu => ⟨(hstacks u).trans (if_neg hu), Function.update_of_ne hu _ _,
      Function.update_of_ne hu _ _, Function.update_of_ne hu _ _⟩)
    (fun j hj => by
      rw [hslot]
      split
      · rfl
      · split
        · rfl
        · exact hj)
    (by rw [hown]; rfl)
    (fun j hj => by
      by_cases hjr : j = .root
      · exact .inr ⟨hjr, hroot, (hslot .root).trans (if_pos rfl)⟩
      · exact .inl (by rw [hcode, if_neg hjr, if_neg hj]))
    (fun j hj => made_update (f := s.mstate) (made_update (f := (s.getThis w).mstate) hj))
    (fun _ => ⟨hroot, by
      have hinit : (s.constructed w).mstate .root = some .init := by
        change Function.update (s.getThis w).mstate .root (some .init) .root = some .init
        rw [Function.update_self]
      rw [hinit]
      simp⟩) hunused hstanding
  refine ⟨hinv, workers_eq (fun _ => rfl) rfl rfl rfl fun v => ?_⟩
  by_cases hv : v = w
  · rw [hv]
    have houtside : s.workers.phase w = .outside := phase_of_none hscheduler
    have hfresh : (s.constructed w).code .root = .fresh := (hcode .root).trans (if_pos rfl)
    have hmain : (s.constructed w).scheduler w = some .root := Function.update_self ..
    rw [houtside]
    simp only [State.phase, hmain, hfresh]
  · exact (h.standing v).phase_keeps (hkeeps v hv)

/-- When `run` is over on the stack of `m_mainCoroutine`, `back` goes to the caller's own
stack. -/
theorem back_spec (h : Inv s) (hstack : s.machine.stack w = some .root)
    (hphase : s.phase w = .finished) :
    ∃ s', step s (.back w) = some s' ∧ Inv s' ∧ s'.workers = s.workers ∧
      s'.machine.stack w = some (.own w) ∧ s'.current w = some (.own w) ∧
      ∀ c, s'.code (.user c) = s.code (.user c) := by
  cases h.standing w with
  | unused hstack' | atStart hstack' | away hstack' =>
      rw [hstack] at hstack'
      cases hstack'
  | @running k cur p hstack' hscheduler hcurrent hcode hhome hinRun =>
      obtain rfl : .root = k := Option.some.inj (hstack.symm.trans hstack')
      obtain rfl : p = .finished := (phase_of_run hscheduler hcode).symm.trans hphase
      cases hhome with
      | root hthread hown =>
          have hne : (.root : Co W C) ≠ .own w := by simp
          let s₀ := (s.setState .root .term).setThis w (.own w)
          have hprepared : Prepared s s₀ w := (Prepared.refl.setState _ _).setThis _
          have hcurrent₀ : s₀.current w = some (.own w) := Function.update_self ..
          have hstanding : ∀ m : Machine W (Co W C), m.stack w = some (.own w) → Standing
              (s₀.switched .root (.own w) .absent .outside m) w := by
            intro m hm
            exact .atStart hm hscheduler hcurrent₀ hthread switched_load
              (.inr (switched_left hne))
          have hresume : resume (s₀.current w) (s.code (.own w)) = some .outside := by
            rw [hown]
            rfl
          obtain ⟨m, hswitch, hm, hinv, hkeeps⟩ := h.switch_inv hprepared hprepared hstack
            hresume (.inl (.inl rfl)) (.inr (.inl hscheduler)) (by rw [hcode]; simp) rfl
            (by simp) rfl (by simp) hstanding
          refine ⟨_, ?_, hinv, workers_eq (fun _ => rfl) rfl rfl rfl fun v => ?_, hm, hcurrent₀,
            fun c => switched_of_ne (by simp) (by simp)⟩
          · rw [← hswitch]
            have hthread' : (s.setState .root .term).thread w = some (.own w) := hthread
            simp only [step, hstack, hcode, hscheduler, if_true, State.goBack, hthread']
            rfl
          · by_cases hv : v = w
            · rw [hv]
              have hscheduler' : (s₀.switched .root (.own w) .absent .outside m).scheduler w =
                  some .root := hscheduler
              have hcode' : (s₀.switched .root (.own w) .absent .outside m).code .root =
                  .absent := switched_left hne
              have hfinished : s.workers.phase w = .finished := hphase
              rw [hfinished]
              simp only [State.phase, hscheduler', hcode']
            · exact (h.standing v).phase_keeps (hkeeps v hv)

/-- The step is made nowhere else. -/
theorem back_only (h : Inv s) (hstep : step s (.back w) = some s') :
    s.machine.stack w = some .root ∧ s.phase w = .finished := by
  unfold step at hstep
  dsimp only at hstep
  split at hstep
  · cases hstep
  · rename_i k hstack
    split at hstep
    · rename_i cur hcode
      cases h.standing w with
      | unused hstack' =>
          rw [hstack] at hstack'
          cases hstack'
      | atStart hstack' hscheduler hcurrent hthread hown =>
          obtain rfl := Option.some.inj (hstack.symm.trans hstack')
          rw [hown] at hcode
          cases hcode
      | away hstack' hscheduler hcurrent hcode' hhome hbody =>
          obtain rfl := Option.some.inj (hstack.symm.trans hstack')
          rw [hcode] at hbody
          cases hbody
      | running hstack' hscheduler hcurrent hcode' hhome =>
          obtain rfl := Option.some.inj (hstack.symm.trans hstack')
          have hphase := phase_of_run hscheduler hcode
          rw [hcode] at hcode'
          obtain ⟨rfl, -⟩ := Code.run.inj hcode'
          cases hhome with
          | root => exact ⟨hstack, hphase⟩
    · cases hstep

end Steps

end Contexts

end Agent
