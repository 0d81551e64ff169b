import GServer.CoroutineContexts

/-!
# Where the threads are

`Inv` says of every thread which stack it is on, what its pointers are and how far the
code on its stacks has come, and of every stack with nobody on it that its context is
in its own slot.
-/

namespace Agent

open Runs StackSwitching

namespace Contexts

open Workers (CoState Kind Phase Stage)

variable {W C : Type}

/-! ## The invariant -/

/-- The context of the stack has been saved. -/
def Code.saved : Code W C → Bool
  | .calling => true
  | .fresh => true
  | .waiting _ _ _ => true
  | .suspended _ => true
  | _ => false

/-- `run` itself executes. -/
def InRun : Phase C → Prop
  | .outside => False
  | .on _ _ stage => ¬ stage.onStack
  | _ => True

theorem inRun_loop : InRun (.loop : Phase C) := trivial

theorem inRun_finished : InRun (.finished : Phase C) := trivial

theorem inRun_picked (kind : Kind) (c : C) : InRun (.on kind c .picked) := id

theorem inRun_entering (kind : Kind) (c : C) : InRun (.on kind c .entering) := id

theorem inRun_returned (kind : Kind) (c : C) : InRun (.on kind c .returned) := id

/-- The stack that `run` of the worker is on, and the `cur` of the `MainFunc` below it. -/
inductive Home (s : State W C) (w : W) : Co W C → Option (Co W C) → Prop
  | own : Home s w (.own w) none
  | root (hthread : s.thread w = some (.own w)) (hown : s.code (.own w) = .calling) :
      Home s w .root (some .root)

/-- Where a thread is. -/
inductive Standing (s : State W C) (w : W) : Prop
  | unused (hstack : s.machine.stack w = none) (hscheduler : s.scheduler w = none)
  | atStart (hstack : s.machine.stack w = some (.own w))
      (hscheduler : s.scheduler w = some .root) (hcurrent : s.current w = some (.own w))
      (hthread : s.thread w = some (.own w)) (hown : s.code (.own w) = .outside)
      (hroot : s.code .root = .fresh ∨ s.code .root = .absent)
  | running {k : Co W C} {cur : Option (Co W C)} {p : Phase C}
      (hstack : s.machine.stack w = some k) (hscheduler : s.scheduler w = some k)
      (hcurrent : s.current w = some k) (hcode : s.code k = .run cur p)
      (hhome : Home s w k cur) (hphase : InRun p)
  | away {k : Co W C} {cur : Option (Co W C)} {kind : Kind} {c : C}
      (hstack : s.machine.stack w = some (.user c)) (hscheduler : s.scheduler w = some k)
      (hcurrent : s.current w = some (.user c)) (hcode : s.code k = .waiting cur kind c)
      (hhome : Home s w k cur) (hbody : (s.code (.user c)).executing = true)

/-- What is on the stack of a coroutine: `cur` and `out` are the coroutine itself. -/
inductive UserCode (c : C) : Code W C → Prop
  | absent : UserCode c .absent
  | fresh : UserCode c .fresh
  | body : UserCode c (.body (.user c))
  | leaving {wrote : CoState} : UserCode c (.leaving (.user c) wrote (.user c))
  | suspended : UserCode c (.suspended (.user c))

structure Inv (s : State W C) : Prop where
  sound : s.machine.Sound
  standing : ∀ w, Standing s w
  saved : ∀ k, (s.code k).saved = true → (s.machine.slot k).isSome = true
  executing : ∀ c, (s.code (.user c)).executing = true → ∃ w, s.machine.stack w = some (.user c)
  users : ∀ c, UserCode c (s.code (.user c))
  made : ∀ c, s.mstate (.user c) = none → s.code (.user c) = .absent
  caller : ∀ w u, s.scheduler w = some .root → s.scheduler u = some .root → w = u
  rootMade : ∀ w, s.scheduler w = some .root → s.mstate .root ≠ none

/-- The invariant holds before a thread has begun. -/
theorem inv_start : Inv (start : State W C) where
  sound := .empty
  standing _ := .unused rfl rfl
  saved _ hk := by simp [start, Code.saved] at hk
  executing _ hc := by simp [start, Code.executing] at hc
  users _ := .absent
  made _ _ := rfl
  caller _ _ hw := by simp [start] at hw
  rootMade _ hw := by simp [start] at hw

section Phases

variable {s : State W C} {w : W} {k : Co W C} {cur : Option (Co W C)} {p : Phase C}
  {kind : Kind} {c : C}

/-- The thread is seen in `run` where its code is. -/
theorem phase_of_run (hscheduler : s.scheduler w = some k) (hcode : s.code k = .run cur p) :
    s.phase w = p := by
  simp only [State.phase, hscheduler, hcode]

/-- While the code of `run` waits in `swapIn`, the thread is seen where the coroutine is. -/
theorem phase_of_waiting (hscheduler : s.scheduler w = some k)
    (hcode : s.code k = .waiting cur kind c) :
    s.phase w = .on kind c (s.code (.user c)).stage := by
  simp only [State.phase, hscheduler, hcode]

/-- A thread without a scheduler coroutine is outside. -/
theorem phase_of_none (hscheduler : s.scheduler w = none) : s.phase w = .outside := by
  simp only [State.phase, hscheduler]

/-- On its own stack the caller has not begun `run`, or it is over. -/
theorem phase_of_atStart (hscheduler : s.scheduler w = some .root)
    (hroot : s.code .root = .fresh ∨ s.code .root = .absent) :
    s.phase w = .outside ∧ s.code .root = .fresh ∨
      s.phase w = .finished ∧ s.code .root = .absent := by
  rcases hroot with hroot | hroot
  · exact .inl ⟨by simp only [State.phase, hscheduler, hroot], hroot⟩
  · exact .inr ⟨by simp only [State.phase, hscheduler, hroot], hroot⟩

end Phases

/-! ## What the threads use -/

/-- The stacks of a thread. -/
def Uses (s : State W C) (w : W) (k : Co W C) : Prop :=
  k = .own w ∨ s.scheduler w = some k ∨ s.machine.stack w = some k

section Stacks

variable {s s' : State W C} {w u : W} {k : Co W C} {c : C}

/-- The scheduler's stack is the thread's own or that of `m_mainCoroutine`. -/
theorem Home.cases {cur : Option (Co W C)} (h : Home s w k cur) : k = .own w ∨ k = .root := by
  cases h with
  | own => exact .inl rfl
  | root hthread hown => exact .inr rfl

/-- The scheduler's coroutine of a thread. -/
theorem Standing.scheduler_cases (h : Standing s w) (hk : s.scheduler w = some k) :
    k = .own w ∨ k = .root := by
  cases h with
  | unused hstack hscheduler =>
      rw [hscheduler] at hk
      cases hk
  | atStart hstack hscheduler =>
      rw [hscheduler] at hk
      exact .inr (Option.some.inj hk).symm
  | running hstack hscheduler hcurrent hcode hhome
  | away hstack hscheduler hcurrent hcode hhome =>
      rw [hscheduler] at hk
      rw [← Option.some.inj hk]
      exact hhome.cases

/-- A thread is on a stack of its own, on the scheduler's or on a coroutine's. -/
theorem Standing.stack_cases (h : Standing s w) (hk : s.machine.stack w = some k) :
    k = .own w ∨ s.scheduler w = some k ∨ ∃ c, k = .user c ∧ (s.code k).executing = true := by
  cases h with
  | unused hstack =>
      rw [hstack] at hk
      cases hk
  | atStart hstack =>
      rw [hstack] at hk
      exact .inl (Option.some.inj hk).symm
  | running hstack hscheduler =>
      rw [hstack, ← hscheduler] at hk
      exact .inr (.inl hk)
  | away hstack hscheduler hcurrent hcode hhome hbody =>
      rw [hstack] at hk
      obtain rfl := Option.some.inj hk
      exact .inr (.inr ⟨_, rfl, hbody⟩)

/-- Code that is executed is not saved. -/
theorem not_saved_of_executing {code : Code W C} (h : code.executing = true) :
    code.saved = false := by
  cases code with
  | body cur | leaving cur wrote out => rfl
  | absent | outside | calling | fresh | run cur phase | waiting cur kind c | suspended cur =>
      cases h

/-- The stack that a thread is on is not saved. -/
theorem Standing.not_saved (h : Standing s w) (hk : s.machine.stack w = some k) :
    (s.code k).saved = false := by
  cases h with
  | unused hstack =>
      rw [hstack] at hk
      cases hk
  | atStart hstack hscheduler hcurrent hthread hown =>
      rw [hstack] at hk
      rw [← Option.some.inj hk, hown]
      rfl
  | running hstack hscheduler hcurrent hcode =>
      rw [hstack] at hk
      rw [← Option.some.inj hk, hcode]
      rfl
  | away hstack hscheduler hcurrent hcode hhome hbody =>
      rw [hstack] at hk
      rw [← Option.some.inj hk]
      exact not_saved_of_executing hbody

/-- Nobody is on a stack whose context is saved. -/
theorem Inv.free_of_saved (h : Inv s) (hk : (s.code k).saved = true) : s.machine.Free k := by
  intro w hw
  rw [(h.standing w).not_saved hw] at hk
  cases hk

/-- No thread is on a coroutine's stack unless its code is executed. -/
theorem Inv.free_of_not_executing (h : Inv s) (hc : (s.code (.user c)).executing = false) :
    s.machine.Free (.user c) := by
  intro w hw
  rcases (h.standing w).stack_cases hw with heq | hscheduler | ⟨d, -, hd⟩
  · cases heq
  · rcases (h.standing w).scheduler_cases hscheduler with heq | heq <;> cases heq
  · rw [hc] at hd
    cases hd

/-- The stack of a thread is used by that thread only. -/
theorem Inv.eq_of_uses (h : Inv s) (hw : Uses s w k) (hu : Uses s u k) : w = u := by
  have howner : ∀ v, Uses s v k →
      k = .own v ∨ (k = .root ∧ s.scheduler v = some .root) ∨
        ∃ c, k = .user c ∧ s.machine.stack v = some k := by
    intro v hv
    have hscheduler : s.scheduler v = some k → k = .own v ∨
        (k = .root ∧ s.scheduler v = some .root) := by
      intro hk
      rcases (h.standing v).scheduler_cases hk with heq | heq
      · exact .inl heq
      · exact .inr ⟨heq, heq ▸ hk⟩
    rcases hv with heq | hk | hk
    · exact .inl heq
    · exact (hscheduler hk).imp_right .inl
    · rcases (h.standing v).stack_cases hk with heq | hk' | ⟨c, rfl, -⟩
      · exact .inl heq
      · exact (hscheduler hk').imp_right .inl
      · exact .inr (.inr ⟨c, rfl, hk⟩)
  rcases howner w hw with rfl | ⟨rfl, hroot⟩ | ⟨c, rfl, hstack⟩
  · rcases howner u hu with heq | ⟨heq, -⟩ | ⟨d, heq, -⟩
    · exact Co.own.inj heq
    · cases heq
    · cases heq
  · rcases howner u hu with heq | ⟨-, hroot'⟩ | ⟨d, heq, -⟩
    · cases heq
    · exact h.caller w u hroot hroot'
    · cases heq
  · rcases howner u hu with heq | ⟨heq, -⟩ | ⟨d, -, hstack'⟩
    · cases heq
    · cases heq
    · exact h.sound.alone w u _ hstack hstack'

/-! ## Threads that are left alone -/

/-- A step leaves a thread where it is, with its pointers and its stacks. -/
structure Keeps (s s' : State W C) (u : W) : Prop where
  stack : s'.machine.stack u = s.machine.stack u
  current : s'.current u = s.current u
  thread : s'.thread u = s.thread u
  scheduler : s'.scheduler u = s.scheduler u
  code : ∀ k, Uses s u k → s'.code k = s.code k

/-- The other threads are left alone by a step that changes the code on the thread's own
stacks, and on stacks of coroutines that nobody is on. -/
theorem Inv.keeps_code (h : Inv s)
    (hcode : ∀ k, s'.code k = s.code k ∨ (∃ w, u ≠ w ∧ Uses s w k) ∨
      ∃ c, k = .user c ∧ s.machine.Free k) (hk : Uses s u k) : s'.code k = s.code k := by
  rcases hcode k with heq | ⟨w, hne, hw⟩ | ⟨c, rfl, hfree⟩
  · exact heq
  · exact absurd (h.eq_of_uses hk hw) hne
  · rcases hk with heq | hscheduler | hstack
    · cases heq
    · rcases (h.standing u).scheduler_cases hscheduler with heq | heq <;> cases heq
    · exact absurd hstack (hfree u)

/-- Where a thread has its home depends on its own pointers only. -/
theorem Home.congr {cur : Option (Co W C)} (h : Home s u k cur)
    (hthread : s'.thread u = s.thread u)
    (hcode : k = .root → s'.code (.own u) = s.code (.own u)) : Home s' u k cur := by
  cases h with
  | own => exact .own
  | root hthread' hown => exact .root (hthread.trans hthread') ((hcode rfl).trans hown)

/-- A step of another thread keeps it. -/
theorem Home.keeps {cur : Option (Co W C)} (h : Home s u k cur) (hkeeps : Keeps s s' u) :
    Home s' u k cur :=
  h.congr hkeeps.thread fun _ => hkeeps.code _ (.inl rfl)

/-- A step of another thread leaves a thread where it stands. -/
theorem Standing.keeps (h : Standing s u) (hkeeps : Keeps s s' u) : Standing s' u := by
  have hstack' := hkeeps.stack
  have hscheduler' := hkeeps.scheduler
  have hcurrent' := hkeeps.current
  cases h with
  | unused hstack hscheduler =>
      exact .unused (hstack'.trans hstack) (hscheduler'.trans hscheduler)
  | atStart hstack hscheduler hcurrent hthread hown hroot =>
      have hroot' : s'.code .root = s.code .root := hkeeps.code _ (.inr (.inl hscheduler))
      exact .atStart (hstack'.trans hstack) (hscheduler'.trans hscheduler)
        (hcurrent'.trans hcurrent) (hkeeps.thread.trans hthread)
        ((hkeeps.code _ (.inl rfl)).trans hown) (by rw [hroot']; exact hroot)
  | running hstack hscheduler hcurrent hcode hhome hphase =>
      exact .running (hstack'.trans hstack) (hscheduler'.trans hscheduler)
        (hcurrent'.trans hcurrent) ((hkeeps.code _ (.inr (.inl hscheduler))).trans hcode)
        (hhome.keeps hkeeps) hphase
  | away hstack hscheduler hcurrent hcode hhome hbody =>
      have hcode' := hkeeps.code _ (.inr (.inr hstack))
      exact .away (hstack'.trans hstack) (hscheduler'.trans hscheduler)
        (hcurrent'.trans hcurrent) ((hkeeps.code _ (.inr (.inl hscheduler))).trans hcode)
        (hhome.keeps hkeeps) (by rw [hcode']; exact hbody)

/-- A thread that is left alone is seen where it was. -/
theorem Standing.phase_keeps (h : Standing s u) (hkeeps : Keeps s s' u) :
    s'.phase u = s.phase u := by
  have hscheduler' := hkeeps.scheduler
  cases h with
  | unused hstack hscheduler =>
      rw [phase_of_none hscheduler, phase_of_none (hscheduler'.trans hscheduler)]
  | atStart hstack hscheduler hcurrent hthread hown hroot =>
      have hroot' : s'.code .root = s.code .root := hkeeps.code _ (.inr (.inl hscheduler))
      simp only [State.phase, hscheduler', hscheduler, hroot']
      rcases hroot with hroot | hroot <;> simp only [hroot]
  | running hstack hscheduler hcurrent hcode hhome hphase =>
      rw [phase_of_run hscheduler hcode, phase_of_run (hscheduler'.trans hscheduler)
        ((hkeeps.code _ (.inr (.inl hscheduler))).trans hcode)]
  | away hstack hscheduler hcurrent hcode hhome hbody =>
      rw [phase_of_waiting hscheduler hcode, phase_of_waiting (hscheduler'.trans hscheduler)
        ((hkeeps.code _ (.inr (.inl hscheduler))).trans hcode),
        hkeeps.code _ (.inr (.inr hstack))]

end Stacks

end Contexts

end Agent
