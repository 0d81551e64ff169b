import GServer.ContextInvariant

/-!
# Switches

The switches of `swapIn`, `swapOut` and `back` keep the invariant and lead where the
workers of `Workers` go.
-/

namespace Agent

open Runs StackSwitching

namespace Contexts

open Workers (CoState Kind Phase Stage)

variable {W C : Type}

/-- A step that this model has no state after: a coroutine is resumed whose stack another
thread is on or whose `MainFunc` is over, or it is reset while a thread is on its stack.
The code goes on there, with two threads on a stack or behind the end of `MainFunc`. -/
inductive Clash (s : State W C) : Workers.Act W C → Prop
  | swapIn {w : W} {kind : Kind} {c : C} (hw : s.phase w = .on kind c .entering)
      (hc : (∃ u, s.machine.stack u = some (.user c)) ∨ s.code (.user c) = .absent) :
      Clash s (.swapIn w)
  | reset {w : W} {c : C} {stop : Bool} (hw : s.phase w = .on .cb c .returned)
      (hended : CoState.ended (s.mstate (.user c)) = true)
      (hc : ∃ u, s.machine.stack u = some (.user c)) : Clash s (.update w stop)

section Rules

variable [DecidableEq W] [DecidableEq C] {s s' : State W C} {w : W} {k load : Co W C}
  {left code : Code W C} {m : Machine W (Co W C)}

/-- After a switch from `k` to `load`. -/
def State.switched (s : State W C) (k load : Co W C) (left code : Code W C)
    (m : Machine W (Co W C)) : State W C :=
  { (s.setCode k left).setCode load code with machine := m }

theorem switched_load : (s.switched k load left code m).code load = code :=
  Function.update_self ..

theorem switched_left (hne : k ≠ load) : (s.switched k load left code m).code k = left := by
  change Function.update (Function.update s.code k left) load code k = left
  rw [Function.update_of_ne hne, Function.update_self]

theorem switched_of_ne {j : Co W C} (hj : j ≠ load) (hjk : j ≠ k) :
    (s.switched k load left code m).code j = s.code j := by
  change Function.update (Function.update s.code k left) load code j = s.code j
  rw [Function.update_of_ne hj, Function.update_of_ne hjk]

/-- **A switch** from the thread's stack to one whose context has been saved: the thread
goes on with the code there. -/
theorem Inv.switch (h : s.machine.Sound) (hstack : s.machine.stack w = some k)
    (hslot : (s.machine.slot load).isSome = true) (hfree : s.machine.Free load)
    (hresume : resume (s.current w) (s.code load) = some code) (left : Code W C) :
    ∃ m, s.switch w k load left = some (s.switched k load left code m) ∧ m.Sound ∧
      (∀ u, m.stack u = if u = w then some load else s.machine.stack u) ∧
      ∀ j, (m.slot j).isSome = if j = k then true else (s.machine.slot j).isSome := by
  obtain ⟨m, hswap, hsound, hon, hslots⟩ := h.swap hstack hslot hfree
  have hstacks := Machine.stack_update hon
  have hne : load ≠ k := fun heq => hfree w (heq ▸ hstack)
  have hw : m.on w = some ⟨load, m.left load⟩ := by
    rw [hon]
    exact Function.update_self ..
  have hcode : (s.setCode k left).code load = s.code load := Function.update_of_ne hne _ _
  refine ⟨m, ?_, hsound, hstacks, hslots⟩
  have hcurrent : (s.setCode k left).current = s.current := rfl
  simp only [State.switch, hstack, hswap, hw, if_true, hcode, hcurrent, hresume, Option.map_some]
  rfl

omit [DecidableEq W] [DecidableEq C] in
/-- What goes on was saved. -/
theorem resume_saved {current : Option (Co W C)} {before : Code W C}
    (h : resume current before = some code) : before.saved = true := by
  cases before with
  | fresh | suspended cur | waiting cur kind c | calling => rfl
  | absent | outside | run cur phase | body cur | leaving cur wrote out => cases h

/-- The state `s₀` is `s` but for what the thread has written before it switches. -/
structure Prepared (s s₀ : State W C) (w : W) : Prop where
  machine : s₀.machine = s.machine
  code : s₀.code = s.code
  thread : s₀.thread = s.thread
  scheduler : s₀.scheduler = s.scheduler
  current : ∀ u, u ≠ w → s₀.current u = s.current u
  mstate : ∀ j, s₀.mstate j = none → s.mstate j = none

omit [DecidableEq W] [DecidableEq C] in
/-- Nothing has been prepared. -/
theorem Prepared.refl : Prepared s s w :=
  ⟨rfl, rfl, rfl, rfl, fun _ _ => rfl, fun _ h => h⟩

omit [DecidableEq C] in
/-- `SetThis` prepares a switch. -/
theorem Prepared.setThis {s₀ : State W C} (h : Prepared s s₀ w) (j : Co W C) :
    Prepared s (s₀.setThis w j) w :=
  ⟨h.machine, h.code, h.thread, h.scheduler,
    fun u hu => (Function.update_of_ne hu _ _).trans (h.current u hu), h.mstate⟩

/-- Writing a state prepares one. -/
theorem Prepared.setState {s₀ : State W C} (h : Prepared s s₀ w) (j : Co W C) (st : CoState) :
    Prepared s (s₀.setState j st) w := by
  refine ⟨h.machine, h.code, h.thread, h.scheduler, h.current, fun i hi => h.mstate i ?_⟩
  by_cases hij : i = j
  · subst hij
    have hself : (s₀.setState i st).mstate i = some st := Function.update_self ..
    rw [hself] at hi
    cases hi
  · exact (Function.update_of_ne hij _ _).symm.trans hi

/-- **The switch keeps the invariant.**  `left` is how the code on the thread's stack
stands, `code` how that on the other goes on, and `final` how far it has come when the
thread has written `s₁`. -/
theorem Inv.switch_inv {s₀ s₁ : State W C} {final : Code W C} (h : Inv s)
    (hprepared : Prepared s s₀ w) (hwritten : Prepared s s₁ w)
    (hstack : s.machine.stack w = some k)
    (hresume : resume (s₀.current w) (s.code load) = some code)
    (hused : Uses s w load ∨ ∃ c, load = .user c) (hk : Uses s w k)
    (hmade : s.code k ≠ .absent) (hleft : left.executing = false)
    (hleftUser : ∀ c, k = .user c → UserCode c left)
    (hfinal : final.saved = false) (hfinalUser : ∀ c, load = .user c → UserCode c final)
    (hstanding : ∀ m : Machine W (Co W C), m.stack w = some load →
      Standing (s₁.switched k load left final m) w) :
    ∃ m, s₀.switch w k load left = some (s₀.switched k load left code m) ∧
      m.stack w = some load ∧ Inv (s₁.switched k load left final m) ∧
      ∀ u, u ≠ w → Keeps s (s₁.switched k load left final m) u := by
  have hload := resume_saved hresume
  have hfree := h.free_of_saved hload
  have hslot := h.saved load hload
  have hne : load ≠ k := fun heq => hfree w (heq ▸ hstack)
  have hresumed : resume (s₀.current w) (s₀.code load) = some code := hprepared.code ▸ hresume
  obtain ⟨m, hswitch, hsound, hstacks, hslots⟩ :=
    Inv.switch (s := s₀) (hprepared.machine ▸ h.sound) (hprepared.machine ▸ hstack)
      (hprepared.machine ▸ hslot) (hprepared.machine ▸ hfree) hresumed left
  rw [hprepared.machine] at hstacks hslots
  let s' := s₁.switched k load left final m
  have hcodeLoad : s'.code load = final := switched_load
  have hcodeK : s'.code k = left := switched_left hne.symm
  have hother : ∀ j, j ≠ load → j ≠ k → s'.code j = s.code j := by
    intro j hj hjk
    rw [← hwritten.code]
    exact switched_of_ne hj hjk
  have hw : m.stack w = some load := by
    rw [hstacks, if_pos rfl]
  have hkeeps : ∀ u, u ≠ w → Keeps s s' u := by
    intro u hu
    refine ⟨?_, hwritten.current u hu, ?_, ?_, fun j hj => h.keeps_code (fun i => ?_) hj⟩
    · exact (hstacks u).trans (if_neg hu)
    · exact congrFun hwritten.thread u
    · exact congrFun hwritten.scheduler u
    · by_cases hi : i = load
      · subst hi
        rcases hused with hused | ⟨c, rfl⟩
        · exact .inr (.inl ⟨w, hu, hused⟩)
        · exact .inr (.inr ⟨c, rfl, hfree⟩)
      · by_cases hik : i = k
        · subst hik
          exact .inr (.inl ⟨w, hu, hk⟩)
        · exact .inl (hother i hi hik)
  refine ⟨m, hswitch, hw, ⟨hsound, fun u => ?_, fun j hj => ?_, fun c hc => ?_, fun c => ?_,
    fun c hc => ?_, fun u v hu hv => ?_, fun u hu => ?_⟩, hkeeps⟩
  · by_cases hu : u = w
    · rw [hu]
      exact hstanding m hw
    · exact (h.standing u).keeps (hkeeps u hu)
  · refine (hslots j).trans ?_
    by_cases hjk : j = k
    · rw [if_pos hjk]
    · rw [if_neg hjk]
      apply h.saved
      have hjl : j ≠ load := by
        intro heq
        rw [heq, hcodeLoad, hfinal] at hj
        cases hj
      rw [← hother j hjl hjk]
      exact hj
  · by_cases hcl : (.user c : Co W C) = load
    · exact ⟨w, hcl ▸ hw⟩
    · have hck : (.user c : Co W C) ≠ k := by
        intro heq
        rw [heq, hcodeK, hleft] at hc
        cases hc
      rw [hother _ hcl hck] at hc
      obtain ⟨u, hu⟩ := h.executing c hc
      have huw : u ≠ w := by
        intro heq
        rw [heq, hstack] at hu
        exact hck (Option.some.inj hu).symm
      exact ⟨u, (hkeeps u huw).stack.trans hu⟩
  · by_cases hcl : (.user c : Co W C) = load
    · rw [hcl, hcodeLoad]
      exact hfinalUser c hcl.symm
    · by_cases hck : (.user c : Co W C) = k
      · rw [hck, hcodeK]
        exact hleftUser c hck.symm
      · rw [hother _ hcl hck]
        exact h.users c
  · have habsent := h.made c (hwritten.mstate _ hc)
    have hcl : (.user c : Co W C) ≠ load := by
      intro heq
      rw [← heq, habsent] at hload
      cases hload
    have hck : (.user c : Co W C) ≠ k := fun heq => hmade (heq ▸ habsent)
    rw [hother _ hcl hck]
    exact habsent
  · apply h.caller u v
    · exact (congrFun hwritten.scheduler u).symm.trans hu
    · exact (congrFun hwritten.scheduler v).symm.trans hv
  · intro hnone
    exact h.rootMade u ((congrFun hwritten.scheduler u).symm.trans hu)
      (hwritten.mstate _ hnone)

/-- The code on the thread's stack goes on without a switch. -/
theorem Inv.recode {s₀ : State W C} (h : Inv s) (hprepared : Prepared s s₀ w)
    (hstack : s.machine.stack w = some k) (hmade : s.code k ≠ .absent)
    (hcode : code.saved = false) (huser : ∀ c, k = .user c → UserCode c code)
    (hstanding : Standing (s₀.setCode k code) w) :
    Inv (s₀.setCode k code) ∧ ∀ u, u ≠ w → Keeps s (s₀.setCode k code) u := by
  let s' := s₀.setCode k code
  have hcodeK : s'.code k = code := Function.update_self ..
  have hother : ∀ j, j ≠ k → s'.code j = s.code j := by
    intro j hj
    rw [← hprepared.code]
    exact Function.update_of_ne hj _ _
  have hmachine : s'.machine = s.machine := hprepared.machine
  have hkeeps : ∀ u, u ≠ w → Keeps s s' u := by
    intro u hu
    refine ⟨by rw [hmachine], hprepared.current u hu, ?_, ?_,
      fun j hj => h.keeps_code (fun i => ?_) hj⟩
    · exact congrFun hprepared.thread u
    · exact congrFun hprepared.scheduler u
    · by_cases hi : i = k
      · subst hi
        exact .inr (.inl ⟨w, hu, .inr (.inr hstack)⟩)
      · exact .inl (hother i hi)
  refine ⟨⟨hmachine ▸ h.sound, fun u => ?_, fun j hj => ?_, fun c hc => ?_, fun c => ?_,
    fun c hc => ?_, fun u v hu hv => ?_, fun u hu => ?_⟩, hkeeps⟩
  · by_cases hu : u = w
    · rw [hu]
      exact hstanding
    · exact (h.standing u).keeps (hkeeps u hu)
  · have hjk : j ≠ k := by
      intro heq
      rw [heq, hcodeK, hcode] at hj
      cases hj
    rw [hother j hjk] at hj
    rw [hmachine]
    exact h.saved j hj
  · rw [hmachine]
    by_cases hck : (.user c : Co W C) = k
    · exact ⟨w, hck ▸ hstack⟩
    · rw [hother _ hck] at hc
      exact h.executing c hc
  · by_cases hck : (.user c : Co W C) = k
    · rw [hck, hcodeK]
      exact huser c hck.symm
    · rw [hother _ hck]
      exact h.users c
  · have habsent := h.made c (hprepared.mstate _ hc)
    have hck : (.user c : Co W C) ≠ k := fun heq => hmade (heq ▸ habsent)
    rw [hother _ hck]
    exact habsent
  · apply h.caller u v
    · exact (congrFun hprepared.scheduler u).symm.trans hu
    · exact (congrFun hprepared.scheduler v).symm.trans hv
  · intro hnone
    exact h.rootMade u ((congrFun hprepared.scheduler u).symm.trans hu)
      (hprepared.mstate _ hnone)

end Rules

/-! ## The steps -/

section Steps

variable [DecidableEq W] [DecidableEq C] {s s' : State W C} {w u : W} {k : Co W C} {c : C}

/-- A coroutine without code has not been made, or it has ended. -/
def Over (s : State W C) : Prop :=
  ∀ c, s.code (.user c) = .absent →
    s.mstate (.user c) = none ∨ CoState.ended (s.mstate (.user c)) = true

/-- The threads make a step as the workers do. -/
def Follows (s : State W C) (a : Workers.Act W C) : Prop :=
  match Workers.step s.workers a with
  | none => s.act a = none
  | some r => ∃ s', s.act a = some s' ∧ s'.workers = r ∧ Inv s' ∧
      (Workers.Inv s.workers → Over s → Over s')

/-- Neither can make the step. -/
theorem Follows.of_none {a : Workers.Act W C} (hstep : Workers.step s.workers a = none)
    (hact : s.act a = none) : Follows s a := by
  rw [Follows, hstep]
  exact hact

/-- Both make the step. -/
theorem Follows.of_some {a : Workers.Act W C} {r : Workers.State W C}
    (hstep : Workers.step s.workers a = some r) (hact : s.act a = some s')
    (hworkers : s'.workers = r) (hinv : Inv s')
    (hover : Workers.Inv s.workers → Over s → Over s') : Follows s a := by
  rw [Follows, hstep]
  exact ⟨s', hact, hworkers, hinv, hover⟩

omit [DecidableEq W] [DecidableEq C] in
/-- One coroutine gets code, the others are left as they are. -/
theorem Over.of_other (h : Over s) (hc : s'.code (.user c) ≠ .absent)
    (hother : ∀ d, d ≠ c → s'.code (.user d) = s.code (.user d) ∧
      s'.mstate (.user d) = s.mstate (.user d)) : Over s' := by
  intro d hd
  by_cases hdc : d = c
  · exact absurd (hdc ▸ hd) hc
  · obtain ⟨hcode, hmstate⟩ := hother d hdc
    rw [hmstate]
    apply h d
    rw [← hcode]
    exact hd

omit [DecidableEq W] [DecidableEq C] in
/-- Two states are seen alike when their parts are. -/
theorem workers_eq {r : Workers.State W C} (hcstate : ∀ d, s'.mstate (.user d) = r.cstate d)
    (hqueue : s'.queue = r.queue) (hstopping : s'.stopping = r.stopping)
    (hidle : s'.idle = r.idle) (hphase : ∀ v, s'.phase v = r.phase v) : s'.workers = r := by
  obtain ⟨cstate, queue, stopping, idle, phase⟩ := r
  obtain rfl : (fun d => s'.mstate (.user d)) = cstate := funext hcstate
  obtain rfl : s'.phase = phase := funext hphase
  subst hqueue hstopping hidle
  rfl

omit [DecidableEq W] [DecidableEq C] in
theorem update_user [DecidableEq (Co W C)] [DecidableEq C] {α : Type} (f : Co W C → α) (c d : C)
    (v : α) : Function.update f (.user c) v (.user d) =
      Function.update (fun d => f (.user d)) c v d := by
  by_cases hd : d = c
  · subst hd
    rw [Function.update_self, Function.update_self]
  · rw [Function.update_of_ne hd, Function.update_of_ne fun heq => hd (Co.user.inj heq)]

omit [DecidableEq C] in
/-- One thread moves: the others are seen where they were. -/
theorem phase_update (h : Inv s) (hkeeps : ∀ u, u ≠ w → Keeps s s' u) {p : Phase C}
    (hw : s'.phase w = p) (v : W) : s'.phase v = Function.update s.phase w p v := by
  by_cases hv : v = w
  · subst hv
    rw [hw, Function.update_self]
  · rw [Function.update_of_ne hv]
    exact (h.standing v).phase_keeps (hkeeps v hv)

omit [DecidableEq W] [DecidableEq C] in
/-- A coroutine that is on a thread's stack, or has none, is not to be resumed; any other
goes on with itself. -/
theorem Inv.resume_user (h : Inv s) (hnone : ∀ u, s.machine.stack u ≠ some (.user c))
    (habsent : s.code (.user c) ≠ .absent) :
    resume (some (.user c)) (s.code (.user c)) = some (.body (.user c)) := by
  have hexecuting : (s.code (.user c)).executing = false := by
    cases hcode : (s.code (.user c)).executing with
    | false => rfl
    | true =>
        obtain ⟨u, hu⟩ := h.executing c hcode
        exact absurd hu (hnone u)
  generalize hx : s.code (.user c) = x at habsent hexecuting ⊢
  have husers : UserCode c x := hx ▸ h.users c
  cases husers with
  | absent => exact absurd rfl habsent
  | fresh => rfl
  | suspended => rfl
  | body => cases hexecuting
  | leaving => cases hexecuting

omit [DecidableEq W] [DecidableEq C] in
/-- The code on a stack that a thread is on. -/
theorem Inv.executing_cases (h : Inv s) (hc : (s.code (.user c)).executing = true) :
    s.code (.user c) = .body (.user c) ∨
      ∃ wrote, s.code (.user c) = .leaving (.user c) wrote (.user c) := by
  generalize hx : s.code (.user c) = x at hc ⊢
  have husers : UserCode c x := hx ▸ h.users c
  cases husers with
  | absent | fresh | suspended => cases hc
  | body => exact .inl rfl
  | leaving => exact .inr ⟨_, rfl⟩

omit [DecidableEq W] [DecidableEq C] in
/-- A coroutine whose code is executed is on its stack. -/
theorem Inv.onStack (h : Inv s) (hc : (s.code (.user c)).executing = true) :
    (s.code (.user c)).stage.onStack := by
  rcases h.executing_cases hc with hbody | ⟨wrote, hbody⟩
  · rw [hbody]
    trivial
  · rw [hbody]
    trivial

/-- A thread that has not begun `run`, or is back from it, has no coroutine to switch
from: the move is made on neither side. -/
theorem apart_follows {a : Workers.Act W C}
    (hphase : s.workers.phase w = .outside ∨ s.workers.phase w = .finished)
    (hcode : ∀ k, s.machine.stack w = some k → s.code k = .outside)
    (ha : a = .swapIn w ∨ (∃ wrote, a = .yield w wrote) ∨ a = .swapOut w) : Follows s a := by
  have hstep : Workers.step s.workers a = none := by
    rcases ha with rfl | ⟨wrote, rfl⟩ | rfl <;> rcases hphase with hphase | hphase <;>
      simp only [Workers.step, hphase]
  refine .of_none hstep ?_
  cases hstack : s.machine.stack w with
  | none =>
      rcases ha with rfl | ⟨wrote, rfl⟩ | rfl <;>
        simp only [State.act, State.swapIn, State.yield, State.swapOut, hstack]
  | some k =>
      have hout := hcode k hstack
      rcases ha with rfl | ⟨wrote, rfl⟩ | rfl <;>
        simp only [State.act, State.swapIn, State.yield, State.swapOut, hstack, hout]

/-- A thread that has not begun makes no step of `run`. -/
theorem unused_follows {a : Workers.Act W C} (hstack : s.machine.stack w = none)
    (hscheduler : s.scheduler w = none)
    (ha : a = .swapIn w ∨ (∃ wrote, a = .yield w wrote) ∨ a = .swapOut w) : Follows s a := by
  refine apart_follows (.inl (phase_of_none hscheduler)) ?_ ha
  intro k hk
  rw [hstack] at hk
  cases hk

/-- Neither does the caller before or after `run`. -/
theorem atStart_follows {a : Workers.Act W C} (hstack : s.machine.stack w = some (.own w))
    (hscheduler : s.scheduler w = some .root) (hown : s.code (.own w) = .outside)
    (hroot : s.code .root = .fresh ∨ s.code .root = .absent)
    (ha : a = .swapIn w ∨ (∃ wrote, a = .yield w wrote) ∨ a = .swapOut w) : Follows s a := by
  refine apart_follows ((phase_of_atStart hscheduler hroot).imp And.left And.left) ?_ ha
  intro k hk
  rw [hstack] at hk
  cases hk
  exact hown

/-- `swapIn` resumes the coroutine of the worker. -/
theorem swapIn_follows (h : Inv s) (hclash : ¬ Clash s (.swapIn w)) : Follows s (.swapIn w) := by
  cases h.standing w with
  | unused hstack hscheduler => exact unused_follows hstack hscheduler (.inl rfl)
  | atStart hstack hscheduler hcurrent hthread hown hroot =>
      exact atStart_follows hstack hscheduler hown hroot (.inl rfl)
  | @away k cur kind c hstack hscheduler hcurrent hcode hhome hbody =>
      have hphase : s.workers.phase w = .on kind c (s.code (.user c)).stage :=
        phase_of_waiting hscheduler hcode
      rcases h.executing_cases hbody with hbody | ⟨wrote, hbody⟩
      · refine .of_none ?_ (by simp only [State.act, State.swapIn, hstack, hbody])
        simp only [Workers.step, hphase, hbody, Code.stage]
      · refine .of_none ?_ (by simp only [State.act, State.swapIn, hstack, hbody])
        simp only [Workers.step, hphase, hbody, Code.stage]
  | @running k cur p hstack hscheduler hcurrent hcode hhome hinRun =>
      have hphase : s.workers.phase w = p := phase_of_run hscheduler hcode
      by_cases hp : ∃ kind c, p = .on kind c .entering
      · obtain ⟨kind, c, rfl⟩ := hp
        by_cases hexec : s.mstate (.user c) = some .exec
        · have hcstate : s.workers.cstate c = some .exec := hexec
          refine .of_none ?_ ?_
          · simp only [Workers.step, hphase, hcstate, if_true]
          · simp only [State.act, State.swapIn, hstack, hcode, hscheduler, hexec, if_true]
        · have hcstate : s.workers.cstate c ≠ some .exec := hexec
          have hnone : ∀ u, s.machine.stack u ≠ some (.user c) := fun u hu =>
            hclash (.swapIn hphase (.inl ⟨u, hu⟩))
          have habsent : s.code (.user c) ≠ .absent := fun hu =>
            hclash (.swapIn hphase (.inr hu))
          have hresume := h.resume_user hnone habsent
          let s₀ := (s.setThis w (.user c)).setState (.user c) .exec
          have hprepared : Prepared s s₀ w := (Prepared.refl.setThis _).setState _ _
          have hcurrent₀ : s₀.current w = some (.user c) := Function.update_self ..
          have hne : k ≠ .user c := by
            intro heq
            exact hnone w (heq ▸ hstack)
          have hstanding : ∀ m : Machine W (Co W C), m.stack w = some (.user c) → Standing
              (s₀.switched k (.user c) (.waiting cur kind c) (.body (.user c)) m) w := by
            intro m hm
            refine .away hm hscheduler hcurrent₀ (switched_left hne) (hhome.congr rfl ?_) ?_
            · intro hroot
              exact switched_of_ne (by simp) (by rw [hroot]; simp)
            · rw [switched_load]
              rfl
          obtain ⟨m, hswitch, -, hinv, hkeeps⟩ := h.switch_inv hprepared hprepared hstack
            (by rw [hcurrent₀]; exact hresume) (.inr ⟨c, rfl⟩) (.inr (.inl hscheduler))
            (by rw [hcode]; simp) rfl
            (by
              intro d hd
              rcases hhome.cases with heq | heq <;> rw [heq] at hd <;> cases hd) rfl
            (by
              intro d hd
              obtain rfl := Co.user.inj hd
              exact .body) hstanding
          have huser : ∀ d, d ≠ c → (.user d : Co W C) ≠ .user c := fun d hd heq =>
            hd (Co.user.inj heq)
          have hover : Over s →
              Over (s₀.switched k (.user c) (.waiting cur kind c) (.body (.user c)) m) := by
            refine fun hover => hover.of_other (by rw [switched_load]; simp) fun d hd => ⟨?_, ?_⟩
            · refine switched_of_ne (huser d hd) ?_
              rcases hhome.cases with heq | heq <;> rw [heq] <;> simp
            · exact Function.update_of_ne (huser d hd) (some CoState.exec) s.mstate
          refine .of_some (r := s.workers.set w (.on kind c .executing)
            (Function.update s.workers.cstate c (some .exec))) ?_ ?_ ?_ hinv fun _ => hover
          · simp only [Workers.step, hphase, hcstate, if_false]
          · simp only [State.act, State.swapIn, hstack, hcode, hscheduler, hexec, if_false]
            exact hswitch
          · refine workers_eq (fun d => update_user ..) rfl rfl rfl (phase_update h hkeeps ?_)
            rw [phase_of_waiting (s := s₀.switched k (.user c) (.waiting cur kind c)
              (.body (.user c)) m) hscheduler (switched_left hne), switched_load]
            rfl
      · refine .of_none ?_ ?_
        · simp only [Workers.step, hphase]
          split
          · rename_i kind c
            exact absurd ⟨kind, c, rfl⟩ hp
          · rfl
        · simp only [State.act, State.swapIn, hstack, hcode]
          split
          · rename_i kind c main hrun hmain
            injection hrun with hcur hrun
            exact absurd ⟨kind, c, hrun⟩ hp
          · rfl

/-- `YieldToHold`, `YieldToReady` and the end of `MainFunc` write the state of the
coroutine whose stack they are on. -/
theorem yield_follows (h : Inv s) (wrote : CoState) : Follows s (.yield w wrote) := by
  cases h.standing w with
  | unused hstack hscheduler => exact unused_follows hstack hscheduler (.inr (.inl ⟨wrote, rfl⟩))
  | atStart hstack hscheduler hcurrent hthread hown hroot =>
      exact atStart_follows hstack hscheduler hown hroot (.inr (.inl ⟨wrote, rfl⟩))
  | @running k cur p hstack hscheduler hcurrent hcode hhome hinRun =>
      have hphase : s.workers.phase w = p := phase_of_run hscheduler hcode
      refine .of_none ?_ (by simp only [State.act, State.yield, hstack, hcode])
      simp only [Workers.step, hphase]
      split
      · exact absurd trivial hinRun
      · rfl
  | @away k cur kind c hstack hscheduler hcurrent hcode hhome hbody =>
      have hphase : s.workers.phase w = .on kind c (s.code (.user c)).stage :=
        phase_of_waiting hscheduler hcode
      rcases h.executing_cases hbody with hbody | ⟨before, hbody⟩
      · have hstage : s.workers.phase w = .on kind c .executing := by
          rw [hphase, hbody]
          rfl
        by_cases hyields : wrote.yields = true
        · have hne : k ≠ .user c := by
            intro heq
            rw [heq, hbody] at hcode
            cases hcode
          let s₀ := s.setState (.user c) wrote
          have hstanding : Standing
              (s₀.setCode (.user c) (.leaving (.user c) wrote (.user c))) w := by
            refine .away hstack hscheduler hcurrent
              ((Function.update_of_ne hne _ _).trans hcode) (hhome.congr rfl fun _ => ?_) ?_
            · have hown : (.own w : Co W C) ≠ .user c := by simp
              exact Function.update_of_ne hown (.leaving (.user c) wrote (.user c)) s.code
            · have hself : (s₀.setCode (.user c) (.leaving (.user c) wrote (.user c))).code
                  (.user c) = .leaving (.user c) wrote (.user c) := Function.update_self ..
              rw [hself]
              rfl
          obtain ⟨hinv, hkeeps⟩ := h.recode (Prepared.refl.setState _ _) hstack
            (by rw [hbody]; simp) rfl
            (by
              intro d hd
              obtain rfl := Co.user.inj hd
              exact .leaving) hstanding
          have hself : (s₀.setCode (.user c) (.leaving (.user c) wrote (.user c))).code
              (.user c) = .leaving (.user c) wrote (.user c) := Function.update_self ..
          have huser : ∀ d, d ≠ c → (.user d : Co W C) ≠ .user c := fun d hd heq =>
            hd (Co.user.inj heq)
          have hover : Over s →
              Over (s₀.setCode (.user c) (.leaving (.user c) wrote (.user c))) := by
            refine fun hover => hover.of_other (by rw [hself]; simp) fun d hd => ⟨?_, ?_⟩
            · exact Function.update_of_ne (huser d hd) (.leaving (.user c) wrote (.user c)) s.code
            · exact Function.update_of_ne (huser d hd) (some wrote) s.mstate
          refine .of_some (r := s.workers.set w (.on kind c (.leaving wrote))
            (Function.update s.workers.cstate c (some wrote))) ?_ ?_ ?_ hinv fun _ => hover
          · simp only [Workers.step, hstage, hyields, if_true]
          · simp only [State.act, State.yield, hstack, hbody, hcurrent, hyields, if_true,
              ite_self]
          · refine workers_eq (fun d => update_user ..) rfl rfl rfl (phase_update h hkeeps ?_)
            rw [phase_of_waiting (s := s₀.setCode (.user c) (.leaving (.user c) wrote (.user c)))
              hscheduler ((Function.update_of_ne hne _ _).trans hcode), hself]
            rfl
        · refine .of_none ?_ ?_
          · simp only [Workers.step, hstage, hyields, if_false, Bool.false_eq_true]
          · simp only [State.act, State.yield, hstack, hbody, hcurrent, hyields, if_false,
              Bool.false_eq_true]
      · refine .of_none ?_ (by simp only [State.act, State.yield, hstack, hbody])
        simp only [Workers.step, hphase, hbody, Code.stage]

/-- `swapOut` and the end of `MainFunc` go back to `run`. -/
theorem swapOut_follows (h : Inv s) : Follows s (.swapOut w) := by
  cases h.standing w with
  | unused hstack hscheduler => exact unused_follows hstack hscheduler (.inr (.inr rfl))
  | atStart hstack hscheduler hcurrent hthread hown hroot =>
      exact atStart_follows hstack hscheduler hown hroot (.inr (.inr rfl))
  | @running k cur p hstack hscheduler hcurrent hcode hhome hinRun =>
      have hphase : s.workers.phase w = p := phase_of_run hscheduler hcode
      refine .of_none ?_ (by simp only [State.act, State.swapOut, hstack, hcode])
      simp only [Workers.step, hphase]
      split
      · exact absurd trivial hinRun
      · rfl
  | @away k cur kind c hstack hscheduler hcurrent hcode hhome hbody =>
      have hphase : s.workers.phase w = .on kind c (s.code (.user c)).stage :=
        phase_of_waiting hscheduler hcode
      rcases h.executing_cases hbody with hbody | ⟨wrote, hbody⟩
      · refine .of_none ?_ (by simp only [State.act, State.swapOut, hstack, hbody])
        simp only [Workers.step, hphase, hbody, Code.stage]
      · have hstage : s.workers.phase w = .on kind c (.leaving wrote) := by
          rw [hphase, hbody]
          rfl
        have hne : (.user c : Co W C) ≠ k := by
          intro heq
          rw [← heq, hbody] at hcode
          cases hcode
        let s₀ := s.setThis w k
        let left : Code W C := if CoState.ended (some wrote) then .absent else .suspended (.user c)
        have hcurrent₀ : s₀.current w = some k := Function.update_self ..
        have hleft : left.executing = false ∧ UserCode c left := by
          by_cases hended : CoState.ended (some wrote) = true
          · simp only [left, hended, if_true]
            exact ⟨rfl, .absent⟩
          · simp only [left, hended, if_false, Bool.false_eq_true]
            exact ⟨rfl, .suspended⟩
        have hstanding : ∀ m : Machine W (Co W C), m.stack w = some k → Standing
            (s₀.switched (.user c) k left (.run cur (.on kind c .returned)) m) w := by
          intro m hm
          refine .running hm hscheduler hcurrent₀ switched_load (hhome.congr rfl ?_)
            (inRun_returned _ _)
          intro hroot
          exact switched_of_ne (by rw [hroot]; simp) (by simp)
        have hprepared : Prepared s s₀ w := Prepared.refl.setThis _
        obtain ⟨m, hswitch, -, hinv, hkeeps⟩ := h.switch_inv hprepared hprepared hstack
          (by rw [hcode]; rfl) (.inl (.inr (.inl hscheduler))) (.inr (.inr hstack))
          (by rw [hbody]; simp) hleft.1
          (by
            intro d hd
            obtain rfl := Co.user.inj hd
            exact hleft.2) rfl
          (by
            intro d hd
            rcases hhome.cases with heq | heq <;> rw [heq] at hd <;> cases hd) hstanding
        have hover : Workers.Inv s.workers → Over s →
            Over (s₀.switched (.user c) k left (.run cur (.on kind c .returned)) m) := by
          intro hworkers hover d hd
          by_cases hdc : d = c
          · -- without code it has written `TERM` or `EXCEPT`
            subst hdc
            have hwrote : s.mstate (.user d) = some wrote := hworkers.stage w kind d _ hstage
            have hleft' : left = .absent := (switched_left hne).symm.trans hd
            refine .inr ?_
            change CoState.ended (s.mstate (.user d)) = true
            rw [hwrote]
            by_cases hended : CoState.ended (some wrote) = true
            · exact hended
            · simp only [left, hended, if_false, Bool.false_eq_true, reduceCtorEq] at hleft'
          · have hdk : (.user d : Co W C) ≠ k := by
              rcases hhome.cases with heq | heq <;> rw [heq] <;> simp
            have hdd : (.user d : Co W C) ≠ .user c := fun heq => hdc (Co.user.inj heq)
            rw [switched_of_ne hdk hdd] at hd
            exact hover d hd
        refine .of_some (r := s.workers.set w (.on kind c .returned) s.workers.cstate)
          (by simp only [Workers.step, hstage]) ?_ ?_ hinv hover
        · rw [← hswitch]
          simp only [State.act, State.swapOut, hstack, hbody, hscheduler, hne, if_false, left]
          split <;> rfl
        · exact workers_eq (fun _ => rfl) rfl rfl rfl
            (phase_update h hkeeps (phase_of_run hscheduler switched_load))

end Steps

end Contexts

end Agent
