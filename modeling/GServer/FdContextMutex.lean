import GServer.IOManager
import GServer.Library.Locks

/-!
# The mutex of a descriptor context

`addEvent`, `cancelAll` and the event loop of `idle` hold the mutex of the
`FdContext` from before their test of `event` to after they have updated it.
`delEvent` and `cancelEvent` make a nameless guard, which is destroyed at the end
of its statement: they acquire the mutex and release it before they test.

The threads work on one context.  After its test an operation is a list of
actions on the context; it is in its section until it has done them.
-/

namespace Agent

open Locks Runs

namespace FdContextMutex

/-- The operations; `idle` comes with the events that `epoll_wait` reports. -/
inductive Op
  | addEvent (ev : EventType)
  | delEvent (ev : EventType)
  | cancelEvent (ev : EventType)
  | cancelAll
  | idle (realEvents : EventMask)
deriving DecidableEq

/-- The guard of the operation has a name, and lives to the end of its scope. -/
def Op.guarded : Op → Bool
  | .delEvent _ | .cancelEvent _ => false
  | .addEvent _ | .cancelAll | .idle _ => true

/-- An action on the context.  `triggerEvent` erases the event, schedules what is
registered for it and forgets the scheduler. -/
inductive Action
  | epollCtl
  | insert (ev : EventType)
  | setContext (ev : EventType)
  | store (newEvent : EventMask)
  | resetContext (ev : EventType)
  | triggerIfSet (ev : EventType)
  | trigger (ev : EventType)
  | schedule (ev : EventType)
  | forget (ev : EventType)
deriving DecidableEq

/-- Where a thread is.  `locked` is after the construction of the guard, `released`
after the destruction of the nameless one. -/
inductive Pc
  | outside
  | entered (op : Op)
  | locked (op : Op)
  | released (op : Op)
  | working (op : Op) (todo : List Action)
deriving DecidableEq

/-- The thread has the mutex. -/
def Pc.holds : Pc → Bool
  | .locked _ => true
  | .working op _ => op.guarded
  | _ => false

/-- The thread is between the test of `event` and the last of its updates. -/
def Pc.inSection : Pc → Bool
  | .working _ (_ :: _) => true
  | _ => false

/-- The same, in an operation that has released the mutex. -/
def Pc.inOpenSection : Pc → Bool
  | .working op (_ :: _) => !op.guarded
  | _ => false

/-- The operation whose test comes next. -/
def Pc.testing : Pc → Option Op
  | .locked op => if op.guarded then some op else none
  | .released op => some op
  | _ => none

/-- The test of `event` at the beginning of the operation. -/
def Op.passes (event : EventMask) : Op → Bool
  | .addEvent ev => !event.has ev
  | .delEvent ev | .cancelEvent ev => event.has ev
  | .cancelAll => !event.isNone
  | .idle realEvents => !event.disjoint realEvents

/-- What the operation does after its test; `new_event` is computed there. -/
def Op.actions (event : EventMask) : Op → List Action
  | .addEvent ev => [.epollCtl, .insert ev, .setContext ev]
  | .delEvent ev => [.epollCtl, .store (event.erase ev), .resetContext ev]
  | .cancelEvent ev => [.epollCtl, .trigger ev]
  | .cancelAll => [.epollCtl, .triggerIfSet .read, .triggerIfSet .write]
  | .idle realEvents =>
      .epollCtl :: ((if realEvents.read then [.trigger .read] else []) ++
        (if realEvents.write then [.trigger .write] else []))

/-- The context and the threads.  Registrations are numbered as they are made; a slot
has one while its scheduler is set.  `ended` are the registrations that were triggered
or deleted. -/
structure State (T : Type) where
  mutex : Option T
  event : EventMask
  slot : EventType → Option Nat
  made : Nat
  ended : List Nat
  pc : T → Pc

/-- What happens next. -/
inductive Act (T : Type)
  | call (t : T) (op : Op)
  | lock (t : T)
  | destroy (t : T)
  | test (t : T)
  | work (t : T) (ok : Bool)
  | leave (t : T)

variable {T : Type}

/-- Nothing is registered and nobody is there. -/
def start : State T :=
  { mutex := none, event := ⟨false, false⟩, slot := fun _ => none, made := 0, ended := []
    pc := fun _ => .outside }

section Steps

variable [DecidableEq T]

/-- The thread goes on. -/
def State.move (s : State T) (t : T) (pc : Pc) : State T :=
  { s with pc := Function.update s.pc t pc }

/-- The thread returns, and destroys its guard if it has one. -/
def State.leave (s : State T) (t : T) (op : Op) : State T :=
  { s with mutex := if op.guarded then none else s.mutex }.move t .outside

/-- An action; `ok` is whether `epoll_ctl` succeeds.  An operation other than `idle`
returns if it does not. -/
def State.act (s : State T) (t : T) (op : Op) (rest : List Action) (ok : Bool) :
    Action → Option (State T)
  | .epollCtl =>
      match ok, op with
      | true, _ | false, .idle _ => some (s.move t (.working op rest))
      | false, _ => some (s.leave t op)
  | .insert ev => some ({ s with event := s.event.insert ev }.move t (.working op rest))
  | .setContext ev =>
      match s.slot ev with
      | some _ => none
      | none =>
          some ({ s with
            slot := Function.update s.slot ev (some s.made)
            made := s.made + 1 }.move t (.working op rest))
  | .store newEvent => some ({ s with event := newEvent }.move t (.working op rest))
  | .resetContext ev =>
      some ({ s with
        slot := Function.update s.slot ev none
        ended := (s.slot ev).toList ++ s.ended }.move t (.working op rest))
  | .triggerIfSet ev =>
      some (s.move t (.working op (if s.event.has ev then .trigger ev :: rest else rest)))
  | .trigger ev =>
      some ({ s with event := s.event.erase ev }.move t (.working op (.schedule ev :: rest)))
  | .schedule ev =>
      match s.slot ev with
      | none => none
      | some r => some ({ s with ended := r :: s.ended }.move t (.working op (.forget ev :: rest)))
  | .forget ev =>
      some ({ s with slot := Function.update s.slot ev none }.move t (.working op rest))

/-- One step.  There is none where the source aborts. -/
def step (s : State T) : Act T → Option (State T)
  | .call t op => if s.pc t = .outside then some (s.move t (.entered op)) else none
  | .lock t =>
      match s.pc t, s.mutex with
      | .entered op, none => some ({ s with mutex := some t }.move t (.locked op))
      | _, _ => none
  | .destroy t =>
      match s.pc t with
      | .locked op =>
          if op.guarded then none else some ({ s with mutex := none }.move t (.released op))
      | _ => none
  | .test t =>
      match (s.pc t).testing with
      | none => none
      | some op =>
          if op.passes s.event then some (s.move t (.working op (op.actions s.event)))
          else
            match op with
            | .addEvent _ => none
            | op => some (s.leave t op)
  | .work t ok =>
      match s.pc t with
      | .working op (action :: rest) => s.act t op rest ok action
      | _ => none
  | .leave t =>
      match s.pc t with
      | .working op [] =>
          if op = .cancelAll ∧ s.event.isNone = false then none else some (s.leave t op)
      | _ => none

def Step (s : State T) (a : Act T) (s' : State T) : Prop :=
  step s a = some s'

end Steps

/-- No two threads are between the test and the update. -/
def Exclusive (s : State T) : Prop :=
  ∀ t u, (s.pc t).inSection = true → (s.pc u).inSection = true → t = u

/-- The step leaves at most one thread in its section, and no registration that was
triggered or deleted twice. -/
def Sound [DecidableEq T] (s : State T) (a : Act T) : Prop :=
  ∀ s', Step s a s' → Exclusive s' ∧ s'.ended.Nodup

/-- An operation passes its test while no `delEvent` or `cancelEvent` is in its section,
and these two while no operation is. -/
def PassesApart (s : State T) : Act T → Prop
  | .test t => ∀ op, (s.pc t).testing = some op → op.passes s.event = true →
      ∀ u, u ≠ t →
        (if op.guarded then (s.pc u).inOpenSection else (s.pc u).inSection) = false
  | _ => True

/-- The invariant.  A registration that has ended is in its slot only until the thread
that has scheduled it forgets the scheduler. -/
structure Inv (s : State T) : Prop where
  owned : Owned (fun _ : Unit => s.mutex) fun t _ => (s.pc t).holds = true
  released : ∀ t op, s.pc t = .released op → op.guarded = false
  exclusive : Exclusive s
  slot_lt : ∀ ev r, s.slot ev = some r → r < s.made
  ended_lt : ∀ r ∈ s.ended, r < s.made
  distinct : ∀ ev ev' r, s.slot ev = some r → s.slot ev' = some r → ev = ev'
  nodup : s.ended.Nodup
  forgotten : ∀ ev r, s.slot ev = some r → r ∈ s.ended →
    ∃ t op rest, s.pc t = .working op (.forget ev :: rest)

/-- Nobody is in a section at the start. -/
theorem inv_start : Inv (start : State T) where
  owned := Owned.start fun _ _ => nofun
  released := nofun
  exclusive := nofun
  slot_lt := nofun
  ended_lt := nofun
  distinct := nofun
  nodup := List.nodup_nil
  forgotten := nofun

/-- The operation of a thread that tests has the mutex if it has a guard. -/
theorem Inv.holds_testing {s : State T} (h : Inv s) {t : T} {op : Op}
    (htest : (s.pc t).testing = some op) : (s.pc t).holds = op.guarded := by
  cases hpc : s.pc t with
  | locked op' =>
      rw [hpc] at htest
      simp only [Pc.testing] at htest
      split at htest
      · rename_i hguarded
        cases htest
        exact hguarded.symm
      · cases htest
  | released op' =>
      rw [hpc] at htest
      cases htest
      exact (h.released t op hpc).symm
  | _ => simp [hpc, Pc.testing] at htest

/-- While one thread is in its section no other is. -/
theorem Inv.alone {s : State T} (h : Inv s) {t : T} (ht : (s.pc t).inSection = true) :
    ∀ u, u ≠ t → (s.pc u).inSection = false := by
  intro u hu
  by_contra hin
  exact hu (h.exclusive u t (by simpa using hin) ht)

/-- A thread in the section of an operation with a guard has the mutex. -/
theorem holds_of_inSection {pc : Pc} (hsection : pc.inSection = true)
    (hopen : pc.inOpenSection = false) : pc.holds = true := by
  cases pc with
  | working op todo =>
      cases todo with
      | nil => cases hsection
      | cons action rest => simpa [Pc.inOpenSection, Pc.holds] using hopen
  | _ => cases hsection

/-- What is in a slot has not ended, unless its own thread is about to forget it. -/
theorem Inv.not_ended {s : State T} (h : Inv s) {t : T} {op : Op} {action : Action}
    {rest : List Action} (hpc : s.pc t = .working op (action :: rest)) {ev : EventType} {r : Nat}
    (hslot : s.slot ev = some r) (hne : action ≠ .forget ev) : r ∉ s.ended := by
  intro hended
  obtain ⟨u, op', rest', hu⟩ := h.forgotten ev r hslot hended
  have hut : u = t := h.exclusive u t (by rw [hu]; rfl) (by rw [hpc]; rfl)
  subst hut
  rw [hpc] at hu
  cases hu
  exact hne rfl

/-- A thread that tests is not about to forget anything. -/
theorem not_forget_of_testing {op : Op} {s : State T} {t : T}
    (htest : (s.pc t).testing = some op) :
    ∀ op ev rest, s.pc t ≠ .working op (.forget ev :: rest) := by
  intro op' ev rest heq
  rw [heq] at htest
  cases htest

/-- An open section is one. -/
theorem inSection_of_open {pc : Pc} (h : pc.inOpenSection = true) : pc.inSection = true := by
  cases pc with
  | working op todo =>
      cases todo with
      | nil => cases h
      | cons action rest => rfl
  | _ => cases h

/-- A passed test leads into a section. -/
theorem inSection_actions (op : Op) (event : EventMask) :
    (Pc.working op (op.actions event)).inSection = true := by
  cases op <;> rfl

/-- An operation that passes its test apart from the others has its section to itself:
those with a guard exclude each other by the mutex. -/
theorem Inv.apart {s : State T} (h : Inv s) {t : T} {op : Op}
    (htest : (s.pc t).testing = some op)
    (happart : ∀ u, u ≠ t →
      (if op.guarded then (s.pc u).inOpenSection else (s.pc u).inSection) = false) :
    ∀ u, u ≠ t → (s.pc u).inSection = false := by
  intro u hu
  have hclosed := happart u hu
  cases hguarded : op.guarded with
  | false => simpa [hguarded] using hclosed
  | true =>
      rw [hguarded, if_pos rfl] at hclosed
      by_contra hin
      have hholds := holds_of_inSection (by simpa using hin) hclosed
      have hself : (s.pc t).holds = true := (h.holds_testing htest).trans hguarded
      exact hu (h.owned.unique (l := ()) hholds hself)

/-! ## What a step preserves -/

/-- The one lock changes its owner. -/
theorem update_unit (m v : Option T) :
    Function.update (fun _ : Unit => m) () v = fun _ => v :=
  funext fun _ => Function.update_self ..

section Preserves

variable [DecidableEq T] {s : State T} {t : T}

/-- A step that keeps what the thread holds keeps the owner. -/
theorem owned_same (h : Owned (fun _ : Unit => s.mutex) fun u _ => (s.pc u).holds = true)
    {pc : Pc} (hpc : pc.holds = (s.pc t).holds) :
    Owned (fun _ : Unit => s.mutex) fun u _ => (Function.update s.pc t pc u).holds = true := by
  refine h.congr fun u _ => ?_
  by_cases hu : u = t
  · subst hu
    rw [Function.update_self, hpc]
  · rw [Function.update_of_ne hu]

/-- A free mutex gets an owner. -/
theorem owned_lock (h : Owned (fun _ : Unit => s.mutex) fun u _ => (s.pc u).holds = true)
    {pc : Pc} (hfree : s.mutex = none) (hpc : pc.holds = true) :
    Owned (fun _ : Unit => some t) fun u _ => (Function.update s.pc t pc u).holds = true := by
  rw [← update_unit s.mutex]
  refine h.acquire hfree ?_ fun u _ hu => ?_
  · rw [Function.update_self, hpc]
  · have hne : u ≠ t := hu.resolve_right fun hunit => hunit rfl
    rw [Function.update_of_ne hne]

/-- The owner gives the mutex back. -/
theorem owned_unlock (h : Owned (fun _ : Unit => s.mutex) fun u _ => (s.pc u).holds = true)
    {pc : Pc} (hheld : (s.pc t).holds = true) (hpc : pc.holds = false) :
    Owned (fun _ : Unit => none) fun u _ => (Function.update s.pc t pc u).holds = true := by
  rw [← update_unit s.mutex]
  refine h.release (t := t) hheld ?_ fun u _ hu => ?_
  · rw [Function.update_self, hpc]
    exact Bool.false_ne_true
  · have hne : u ≠ t := hu.resolve_right fun hunit => hunit rfl
    rw [Function.update_of_ne hne]

/-- A thread that enters its section, or stays in it, has it to itself. -/
theorem exclusive_move (h : Exclusive s) {pc : Pc}
    (halone : pc.inSection = true → ∀ u, u ≠ t → (s.pc u).inSection = false) :
    ∀ u v, (Function.update s.pc t pc u).inSection = true →
      (Function.update s.pc t pc v).inSection = true → u = v := by
  intro u v hu hv
  by_cases hut : u = t
  · by_cases hvt : v = t
    · rw [hut, hvt]
    · subst hut
      rw [Function.update_self] at hu
      rw [Function.update_of_ne hvt, halone hu v hvt] at hv
      cases hv
  · rw [Function.update_of_ne hut] at hu
    by_cases hvt : v = t
    · subst hvt
      rw [Function.update_self] at hv
      rw [halone hv u hut] at hu
      cases hu
    · rw [Function.update_of_ne hvt] at hv
      exact h u v hu hv

/-- A thread goes on and leaves the registrations alone. -/
theorem Inv.move (h : Inv s) (mutex : Option T) (event : EventMask) {pc : Pc}
    (howned : Owned (fun _ : Unit => mutex) fun u _ => (Function.update s.pc t pc u).holds = true)
    (hreleased : ∀ op, pc = .released op → op.guarded = false)
    (halone : pc.inSection = true → ∀ u, u ≠ t → (s.pc u).inSection = false)
    (hforget : ∀ op ev rest, s.pc t ≠ .working op (.forget ev :: rest)) :
    Inv ({ s with mutex := mutex, event := event }.move t pc) := by
  refine ⟨howned, ?_, ?_, h.slot_lt, h.ended_lt, h.distinct, h.nodup, ?_⟩
  · exact (Function.forall_update_iff s.pc fun _ pc =>
      ∀ op, pc = .released op → op.guarded = false).mpr
      ⟨hreleased, fun u _ => h.released u⟩
  · exact exclusive_move h.exclusive halone
  · intro ev r hslot hended
    obtain ⟨u, op, rest, hu⟩ := h.forgotten ev r hslot hended
    have hut : u ≠ t := by
      intro heq
      subst heq
      exact hforget op ev rest hu
    exact ⟨u, op, rest, (Function.update_of_ne hut ..).trans hu⟩

/-- A thread does an action that changes the registrations. -/
theorem Inv.change (h : Inv s) {op : Op} {action : Action} {rest rest' : List Action}
    (hpc : s.pc t = .working op (action :: rest)) (slot : EventType → Option Nat) (made : Nat)
    (ended : List Nat)
    (hslot : ∀ ev r, slot ev = some r → r < made)
    (hended : ∀ r ∈ ended, r < made)
    (hdistinct : ∀ ev ev' r, slot ev = some r → slot ev' = some r → ev = ev')
    (hnodup : ended.Nodup)
    (hforgotten : ∀ ev r, slot ev = some r → r ∈ ended → ∃ more, rest' = .forget ev :: more) :
    Inv ({ s with slot := slot, made := made, ended := ended }.move t (.working op rest')) := by
  have hsection : (s.pc t).inSection = true := by rw [hpc]; rfl
  refine ⟨?_, ?_, ?_, hslot, hended, hdistinct, hnodup, ?_⟩
  · apply owned_same h.owned
    rw [hpc]
    rfl
  · exact (Function.forall_update_iff s.pc fun _ pc =>
      ∀ op, pc = .released op → op.guarded = false).mpr
      ⟨nofun, fun u _ => h.released u⟩
  · exact exclusive_move h.exclusive fun _ => h.alone hsection
  · intro ev r hr hmem
    obtain ⟨more, hmore⟩ := hforgotten ev r hr hmem
    refine ⟨t, op, more, ?_⟩
    change Function.update s.pc t _ t = _
    rw [Function.update_self, hmore]

/-- Emptying a slot leaves the others. -/
theorem slot_of_update {slot : EventType → Option Nat} {ev ev' : EventType} {r : Nat}
    (h : Function.update slot ev none ev' = some r) : ev' ≠ ev ∧ slot ev' = some r := by
  have hne : ev' ≠ ev := by
    intro heq
    rw [heq, Function.update_self] at h
    cases h
  rw [Function.update_of_ne hne] at h
  exact ⟨hne, h⟩

/-- A registration is made. -/
theorem Inv.setContext (h : Inv s) {op : Op} {ev : EventType} {rest : List Action}
    (hpc : s.pc t = .working op (.setContext ev :: rest)) (hfree : s.slot ev = none) :
    Inv ({ s with
      slot := Function.update s.slot ev (some s.made)
      made := s.made + 1 }.move t (.working op rest)) := by
  have hcases : ∀ ev' r, Function.update s.slot ev (some s.made) ev' = some r →
      ev' = ev ∧ r = s.made ∨ s.slot ev' = some r ∧ r < s.made := by
    intro ev' r hr
    by_cases hev : ev' = ev
    · subst hev
      rw [Function.update_self] at hr
      exact Or.inl ⟨rfl, (Option.some.inj hr).symm⟩
    · rw [Function.update_of_ne hev] at hr
      exact Or.inr ⟨hr, h.slot_lt ev' r hr⟩
  refine h.change hpc _ _ s.ended ?_ ?_ ?_ h.nodup ?_
  · intro ev' r hr
    rcases hcases ev' r hr with ⟨-, heq⟩ | ⟨-, hlt⟩ <;> omega
  · intro r hr
    have hlt := h.ended_lt r hr
    omega
  · intro ev₁ ev₂ r h₁ h₂
    rcases hcases ev₁ r h₁ with ⟨h₁, hr₁⟩ | ⟨h₁, hr₁⟩ <;>
      rcases hcases ev₂ r h₂ with ⟨h₂, hr₂⟩ | ⟨h₂, hr₂⟩
    · rw [h₁, h₂]
    · omega
    · omega
    · exact h.distinct ev₁ ev₂ r h₁ h₂
  · intro ev' r hr hmem
    rcases hcases ev' r hr with ⟨-, heq⟩ | ⟨hold, -⟩
    · have hlt := h.ended_lt r hmem
      omega
    · exact absurd hmem (h.not_ended hpc hold nofun)

/-- `resetContext` deletes what is registered. -/
theorem Inv.resetContext (h : Inv s) {op : Op} {ev : EventType} {rest : List Action}
    (hpc : s.pc t = .working op (.resetContext ev :: rest)) :
    Inv ({ s with
      slot := Function.update s.slot ev none
      ended := (s.slot ev).toList ++ s.ended }.move t (.working op rest)) := by
  refine h.change hpc _ s.made _ ?_ ?_ ?_ ?_ ?_
  · intro ev' r hr
    exact h.slot_lt ev' r (slot_of_update hr).2
  · intro r hr
    rcases List.mem_append.mp hr with hr | hr
    · exact h.slot_lt ev r (Option.mem_toList.mp hr)
    · exact h.ended_lt r hr
  · intro ev₁ ev₂ r h₁ h₂
    exact h.distinct ev₁ ev₂ r (slot_of_update h₁).2 (slot_of_update h₂).2
  · cases hslot : s.slot ev with
    | none => exact h.nodup
    | some r => exact List.nodup_cons.mpr ⟨h.not_ended hpc hslot nofun, h.nodup⟩
  · intro ev' r hr hmem
    obtain ⟨hne, hold⟩ := slot_of_update hr
    rcases List.mem_append.mp hmem with hmem | hmem
    · exact absurd (h.distinct ev' ev r hold (Option.mem_toList.mp hmem)) hne
    · exact absurd hmem (h.not_ended hpc hold nofun)

/-- `triggerEvent` schedules what is registered. -/
theorem Inv.schedule (h : Inv s) {op : Op} {ev : EventType} {rest : List Action} {r : Nat}
    (hpc : s.pc t = .working op (.schedule ev :: rest)) (hslot : s.slot ev = some r) :
    Inv ({ s with ended := r :: s.ended }.move t (.working op (.forget ev :: rest))) := by
  refine h.change hpc s.slot s.made _ h.slot_lt ?_ h.distinct ?_ ?_
  · intro r' hr'
    rcases List.mem_cons.mp hr' with hr' | hr'
    · subst hr'
      exact h.slot_lt ev r' hslot
    · exact h.ended_lt r' hr'
  · exact List.nodup_cons.mpr ⟨h.not_ended hpc hslot nofun, h.nodup⟩
  · intro ev' r' hr' hmem
    rcases List.mem_cons.mp hmem with hmem | hmem
    · subst hmem
      rw [h.distinct ev' ev r' hr' hslot]
      exact ⟨rest, rfl⟩
    · exact absurd hmem (h.not_ended hpc hr' nofun)

/-- `triggerEvent` forgets the scheduler. -/
theorem Inv.forget (h : Inv s) {op : Op} {ev : EventType} {rest : List Action}
    (hpc : s.pc t = .working op (.forget ev :: rest)) :
    Inv ({ s with slot := Function.update s.slot ev none }.move t (.working op rest)) := by
  refine h.change hpc _ s.made s.ended ?_ h.ended_lt ?_ h.nodup ?_
  · intro ev' r hr
    exact h.slot_lt ev' r (slot_of_update hr).2
  · intro ev₁ ev₂ r h₁ h₂
    exact h.distinct ev₁ ev₂ r (slot_of_update h₁).2 (slot_of_update h₂).2
  · intro ev' r hr hmem
    obtain ⟨hne, hold⟩ := slot_of_update hr
    have hforget : Action.forget ev ≠ .forget ev' := by
      intro heq
      cases heq
      exact hne rfl
    exact absurd hmem (h.not_ended hpc hold hforget)

/-- A thread with an action to do that is not `forget` goes on, and may change `event`. -/
theorem Inv.go (h : Inv s) {op : Op} {action : Action} {rest rest' : List Action}
    (event : EventMask) (hpc : s.pc t = .working op (action :: rest))
    (hne : ∀ ev, action ≠ .forget ev) :
    Inv ({ s with event := event }.move t (.working op rest')) := by
  have hsection : (s.pc t).inSection = true := by rw [hpc]; rfl
  refine h.move s.mutex event ?_ nofun (fun _ => h.alone hsection) ?_
  · apply owned_same h.owned
    rw [hpc]
    rfl
  · intro op' ev more heq
    rw [hpc] at heq
    cases heq
    exact hne ev rfl

/-- A thread returns. -/
theorem Inv.leave (h : Inv s) {op : Op} (hholds : (s.pc t).holds = op.guarded)
    (hforget : ∀ op ev rest, s.pc t ≠ .working op (.forget ev :: rest)) :
    Inv (s.leave t op) := by
  refine h.move _ s.event ?_ nofun nofun hforget
  cases hguarded : op.guarded with
  | true =>
      rw [hguarded] at hholds
      exact owned_unlock h.owned hholds rfl
  | false =>
      rw [hguarded] at hholds
      exact owned_same h.owned hholds.symm

/-- What an action does. -/
theorem inv_act {s' : State T} {op : Op} {action : Action} {rest : List Action} {ok : Bool}
    (h : Inv s) (hpc : s.pc t = .working op (action :: rest))
    (hact : s.act t op rest ok action = some s') : Inv s' := by
  have hholds : (s.pc t).holds = op.guarded := by rw [hpc]; rfl
  unfold State.act at hact
  cases action with
  | epollCtl =>
      dsimp only at hact
      split at hact
      · cases hact
        exact h.go s.event hpc nofun
      · cases hact
        exact h.go s.event hpc nofun
      · cases hact
        refine h.leave hholds fun op' ev more heq => ?_
        rw [hpc] at heq
        cases heq
  | insert ev =>
      cases hact
      exact h.go _ hpc nofun
  | setContext ev =>
      dsimp only at hact
      split at hact
      · cases hact
      · rename_i hfree
        cases hact
        exact h.setContext hpc hfree
  | store newEvent =>
      cases hact
      exact h.go _ hpc nofun
  | resetContext ev =>
      cases hact
      exact h.resetContext hpc
  | triggerIfSet ev =>
      cases hact
      exact h.go s.event hpc nofun
  | trigger ev =>
      cases hact
      exact h.go _ hpc nofun
  | schedule ev =>
      dsimp only at hact
      split at hact
      · cases hact
      · rename_i r hslot
        cases hact
        exact h.schedule hpc hslot
  | forget ev =>
      cases hact
      exact h.forget hpc

/-- A step under the guard keeps the invariant. -/
theorem inv_step {s' : State T} {a : Act T} (h : Inv s) (hguard : PassesApart s a)
    (hstep : Step s a s') : Inv s' := by
  unfold Step step at hstep
  cases a with
  | call t op =>
      dsimp only at hstep
      split at hstep
      · rename_i hpc
        cases hstep
        refine h.move s.mutex s.event ?_ nofun nofun ?_
        · apply owned_same h.owned
          rw [hpc]
          rfl
        · simp [hpc]
      · cases hstep
  | lock t =>
      dsimp only at hstep
      split at hstep
      · rename_i op hpc hfree
        cases hstep
        refine h.move _ s.event (owned_lock h.owned hfree rfl) nofun nofun ?_
        simp [hpc]
      · cases hstep
  | destroy t =>
      dsimp only at hstep
      split at hstep
      · rename_i op hpc
        split at hstep
        · cases hstep
        · rename_i hguarded
          cases hstep
          have hholds : (s.pc t).holds = true := by rw [hpc]; rfl
          refine h.move _ s.event (owned_unlock h.owned hholds rfl) ?_ nofun ?_
          · intro op' heq
            cases heq
            simpa using hguarded
          · simp [hpc]
      · cases hstep
  | test t =>
      dsimp only at hstep
      split at hstep
      · cases hstep
      · rename_i op htest
        have hforget := not_forget_of_testing htest
        split at hstep
        · rename_i hpasses
          cases hstep
          have halone := h.apart htest (hguard op htest hpasses)
          refine h.move _ s.event ?_ nofun (fun _ => halone) hforget
          exact owned_same h.owned (h.holds_testing htest).symm
        · split at hstep
          · cases hstep
          · cases hstep
            exact h.leave (h.holds_testing htest) hforget
  | work t ok =>
      dsimp only at hstep
      split at hstep
      · rename_i op action rest hpc
        exact inv_act h hpc hstep
      · cases hstep
  | leave t =>
      dsimp only at hstep
      split at hstep
      · rename_i op hpc
        split at hstep
        · cases hstep
        · cases hstep
          refine h.leave (by rw [hpc]; rfl) ?_
          simp [hpc]
      · cases hstep

/-- A step is sound exactly when its test passes apart from the others. -/
theorem sound_iff (h : Inv s) (a : Act T) : Sound s a ↔ PassesApart s a := by
  constructor
  · intro hsound
    cases a with
    | test t =>
        intro op htest hpasses u hu
        have hstep : Step s (.test t) (s.move t (.working op (op.actions s.event))) := by
          simp only [Step, step, htest, hpasses, if_true]
        obtain ⟨hexclusive, -⟩ := hsound _ hstep
        have hself : ((s.move t (.working op (op.actions s.event))).pc t).inSection = true := by
          change (Function.update s.pc t _ t).inSection = true
          rw [Function.update_self]
          exact inSection_actions op s.event
        have hother : (s.pc u).inSection = false := by
          by_contra hin
          refine hu (hexclusive u t ?_ hself)
          change (Function.update s.pc t _ u).inSection = true
          rw [Function.update_of_ne hu]
          simpa using hin
        split
        · by_contra hopen
          simp [inSection_of_open (by simpa using hopen)] at hother
        · exact hother
    | _ => trivial
  · intro hguard s' hstep
    have hinv := inv_step h hguard hstep
    exact ⟨hinv.exclusive, hinv.nodup⟩

/-- **Exclusive access.**  For any number of threads with any operations on one context
and every interleaving of their steps: no two threads are between their test of `event`
and their update, and no registration is triggered or deleted twice, exactly when every
operation passes its test while no `delEvent` or `cancelEvent` is in its section, and
these two while no operation is. -/
theorem sound_iff_passes_apart (acts : List (Act T)) :
    Along Step Sound (start : State T) acts ↔ Along Step PassesApart start acts := by
  refine along_iff_of_invariant (I := Inv) (V := fun _ => True) ?_ ?_ acts start inv_start
    fun _ _ => trivial
  · intro s a h _
    exact sound_iff h a
  · intro s a s' h _ hguard hstep
    exact inv_step h hguard hstep

end Preserves

/-- A thread registers an event. -/
def register (t : Bool) (ev : EventType) : List (Act Bool) :=
  [.call t (.addEvent ev), .lock t, .test t, .work t true, .work t true, .work t true, .leave t]

/-- The event loop and `cancelEvent` are both past their tests, and both schedule what is
registered before either forgets it. -/
theorem canceller_meets_event_loop :
    ¬ ∀ acts : List (Act Bool), Along Step Sound start acts := by
  intro hall
  let race : List (Act Bool) :=
    [.call false (.cancelEvent .read), .lock false, .destroy false, .test false,
      .call true (.idle ⟨true, false⟩), .lock true, .test true,
      .work false true, .work false true, .work true true, .work true true, .work false true]
  let acts := register true .read ++ race
  have hrun : (acts.foldlM step start).map (fun s => (step s (.work true true)).map
      fun s' => s'.ended) = some (some [0, 0]) := by decide
  obtain ⟨s, hs, hview⟩ := Option.map_eq_some_iff.mp hrun
  obtain ⟨s', hstep, hended⟩ := Option.map_eq_some_iff.mp hview
  have hsound := (hall (acts ++ [.work true true])).last (fun _ _ _ h => h) acts hs
  have hnodup := (hsound s' hstep).2
  rw [hended] at hnodup
  simp at hnodup

end FdContextMutex

end Agent
