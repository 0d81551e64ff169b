import GServer.Library.RwLock
import GServer.Library.Runs
import Mathlib

/-!
# The listeners of a configuration variable

`setValue` calls the listeners under the read lock and assigns under the write
lock, and lets go of the lock in between.  Several threads may be in the first
phase together.  A listener that is called by two of them keeps what it was told
last, and `m_val` what was assigned last; a listener that throws has been told of a
value that is never assigned.
-/

namespace Agent

open RwLocks Runs

namespace Config

namespace Listeners

/-- Where a thread is in `setValue(v)`.  `todo` are the listeners that the loop has
still to call, and `told` records that it has called one. -/
inductive Pc (T : Type)
  | outside
  | entered (v : T)
  | notifying (v : T) (todo : List Nat) (told : Bool)
  | waiting (v : T)
  | assigning (v : T)
  | assigned

/-- How the thread has `m_mutex`. -/
def Pc.hold {T : Type} : Pc T → Hold
  | .entered _ | .notifying _ _ _ => .read
  | .assigning _ | .assigned => .write
  | .outside | .waiting _ => .none

/-- The thread has called a listener, or has been through the loop, and has not yet
assigned. -/
def Pc.committed {T : Type} : Pc T → Bool
  | .notifying _ _ told => told
  | .waiting _ | .assigning _ => true
  | _ => false

def Pc.isOutside {T : Type} : Pc T → Bool
  | .outside => true
  | _ => false

/-- The value that the thread has come to assign. -/
def Pc.value? {T : Type} : Pc T → Option T
  | .entered v | .notifying v _ _ | .waiting v | .assigning v => some v
  | .outside | .assigned => none

/-- A variable with its listeners by their keys, and the threads that use it.  `last` is
the new value that a listener was told last since it was added. -/
structure State (Th T : Type) where
  lock : RwLock Th
  val : T
  cbs : List Nat
  funId : Nat
  last : Nat → Option T
  pc : Th → Pc T

/-- What happens next.  A listener that is called returns, or it throws. -/
inductive Act (Th T : Type)
  | setValue (t : Th) (v : T)
  | compare (t : Th)
  | notify (t : Th) (returns : Bool)
  | leave (t : Th)
  | wrlock (t : Th)
  | assign (t : Th)
  | wrunlock (t : Th)
  | addListener
  | delListerner (key : Nat)

variable {Th T : Type}

/-- Nobody uses the variable, and it has no listeners. -/
def new (default : T) : State Th T :=
  { lock := .free, val := default, cbs := [], funId := 0, last := fun _ => none
    pc := fun _ => .outside }

/-- A key of `m_cbs`, kept in order. -/
def insertKey (key : Nat) (cbs : List Nat) : List Nat :=
  if key ∈ cbs then cbs else cbs.orderedInsert (· ≤ ·) key

section Steps

variable [DecidableEq Th]

/-- The thread goes on. -/
def State.move (s : State Th T) (t : Th) (pc : Pc T) : State Th T :=
  { s with pc := Function.update s.pc t pc }

/-- One step.  `addListener` and `delListerner` are done under the write lock in one
step. -/
def step (eq : T → T → Bool) (s : State Th T) : Act Th T → Option (State Th T)
  | .setValue t v =>
      match s.pc t, s.lock.rdlock t with
      | .outside, some lock => some ({ s with lock := lock }.move t (.entered v))
      | _, _ => none
  | .compare t =>
      match s.pc t with
      | .entered v =>
          if eq v s.val then some ({ s with lock := s.lock.rdunlock t }.move t .outside)
          else some (s.move t (.notifying v s.cbs false))
      | _ => none
  | .notify t returns =>
      match s.pc t with
      | .notifying v (key :: todo) _ =>
          let s := { s with last := Function.update s.last key (some v) }
          if returns then some (s.move t (.notifying v todo true))
          else some ({ s with lock := s.lock.rdunlock t }.move t .outside)
      | _ => none
  | .leave t =>
      match s.pc t with
      | .notifying v [] _ => some ({ s with lock := s.lock.rdunlock t }.move t (.waiting v))
      | _ => none
  | .wrlock t =>
      match s.pc t, s.lock.wrlock t with
      | .waiting v, some lock => some ({ s with lock := lock }.move t (.assigning v))
      | _, _ => none
  | .assign t =>
      match s.pc t with
      | .assigning v => some ({ s with val := v }.move t .assigned)
      | _ => none
  | .wrunlock t =>
      match s.pc t with
      | .assigned => some ({ s with lock := s.lock.wrunlock }.move t .outside)
      | _ => none
  | .addListener =>
      if s.lock.writer = none ∧ s.lock.readers = ∅ then
        let key := (s.funId + 1) % 2 ^ 64
        some { s with
          funId := key, cbs := insertKey key s.cbs, last := Function.update s.last key none }
      else none
  | .delListerner key =>
      if s.lock.writer = none ∧ s.lock.readers = ∅ then
        some { s with cbs := s.cbs.filter (· ≠ key) }
      else none

def Step (eq : T → T → Bool) (s : State Th T) (a : Act Th T) (s' : State Th T) : Prop :=
  step eq s a = some s'

end Steps

/-- No thread is in `setValue`. -/
def Quiescent (s : State Th T) : Prop :=
  ∀ t, (s.pc t).isOutside = true

/-- Every listener that has been told of a value since it was added was told of the
present one last. -/
def Agree (s : State Th T) : Prop :=
  ∀ key ∈ s.cbs, ∀ v, s.last key = some v → v = s.val

/-- A listener is called only while no other thread has called one, or been through the
loop, without having assigned; and it returns. -/
def OneAtATime (s : State Th T) : Act Th T → Prop
  | .notify t returns => returns = true ∧ ∀ u, u ≠ t → (s.pc u).committed = false
  | _ => True

/-- What the listeners know is the value, or the value of a thread that is about to
assign.  What a thread is about to assign is what the listeners know. -/
structure Inv (s : State Th T) : Prop where
  agrees : s.lock.Agrees fun t => (s.pc t).hold
  sourced : ∀ key ∈ s.cbs, ∀ v, s.last key = some v →
    v = s.val ∨ ∃ t, (s.pc t).committed = true ∧ (s.pc t).value? = some v
  settled : ∀ t v, s.pc t = .waiting v ∨ s.pc t = .assigning v →
    ∀ key ∈ s.cbs, ∀ u, s.last key = some u → u = v
  told : ∀ t v todo b, s.pc t = .notifying v todo b →
    ∀ key ∈ s.cbs, key ∉ todo → s.last key = some v
  fresh : ∀ t v todo, s.pc t = .notifying v todo false → todo = s.cbs

/-- Nobody holds the lock of a new variable. -/
theorem inv_new (default : T) : Inv (new default : State Th T) where
  agrees := RwLock.agrees_free
  sourced := nofun
  settled := nofun
  told := nofun
  fresh := nofun

/-- With nobody in `setValue` the listeners know the value. -/
theorem Inv.agree {s : State Th T} (h : Inv s) (hquiet : Quiescent s) : Agree s := by
  intro key hkey v hlast
  rcases h.sourced key hkey v hlast with hval | ⟨t, hcommitted, -⟩
  · exact hval
  · have hout := hquiet t
    cases hpc : s.pc t with
    | outside => simp [hpc, Pc.committed] at hcommitted
    | _ => simp [hpc, Pc.isOutside] at hout

/-! ## What a step preserves -/

section Preserves

variable [DecidableEq Th] {s : State Th T} {t : Th}

/-- A step of one thread changes what that thread holds. -/
theorem hold_move (s : State Th T) (t : Th) (pc : Pc T) :
    (fun u => ((s.move t pc).pc u).hold) = Function.update (fun u => (s.pc u).hold) t pc.hold :=
  Function.comp_update Pc.hold s.pc t pc

/-- A thread goes on without calling a listener or assigning; if it is committed it stays
so, with its value. -/
theorem Inv.move (h : Inv s) (lock : RwLock Th) {pc : Pc T}
    (hlock : lock.Agrees (Function.update (fun u => (s.pc u).hold) t pc.hold))
    (hsourced : (s.pc t).committed = true →
      pc.committed = true ∧ pc.value? = (s.pc t).value?)
    (hsettled : ∀ v, pc = .waiting v ∨ pc = .assigning v →
      ∀ key ∈ s.cbs, ∀ u, s.last key = some u → u = v)
    (htold : ∀ v todo b, pc = .notifying v todo b →
      ∀ key ∈ s.cbs, key ∉ todo → s.last key = some v)
    (hfresh : ∀ v todo, pc = .notifying v todo false → todo = s.cbs) :
    Inv ({ s with lock := lock }.move t pc) := by
  refine ⟨?_, ?_, ?_, ?_, ?_⟩
  · rw [hold_move]
    exact hlock
  · intro key hkey v hlast
    rcases h.sourced key hkey v hlast with hval | ⟨u, hcommitted, hvalue⟩
    · exact Or.inl hval
    · refine Or.inr ((Function.exists_update_iff s.pc fun _ pc =>
        pc.committed = true ∧ pc.value? = some v).mpr ?_)
      by_cases hu : u = t
      · subst hu
        obtain ⟨hc, hv⟩ := hsourced hcommitted
        exact Or.inl ⟨hc, hv.trans hvalue⟩
      · exact Or.inr ⟨u, hu, hcommitted, hvalue⟩
  · exact (Function.forall_update_iff s.pc fun _ pc =>
      ∀ v, pc = .waiting v ∨ pc = .assigning v →
        ∀ key ∈ s.cbs, ∀ u, s.last key = some u → u = v).mpr
      ⟨hsettled, fun u _ => h.settled u⟩
  · exact (Function.forall_update_iff s.pc fun _ pc =>
      ∀ v todo b, pc = .notifying v todo b →
        ∀ key ∈ s.cbs, key ∉ todo → s.last key = some v).mpr
      ⟨htold, fun u _ => h.told u⟩
  · exact (Function.forall_update_iff s.pc fun _ pc =>
      ∀ v todo, pc = .notifying v todo false → todo = s.cbs).mpr
      ⟨hfresh, fun u _ => h.fresh u⟩

/-- A listener is called and returns, and no other thread is committed. -/
theorem Inv.notify (h : Inv s) {v : T} {key : Nat} {todo : List Nat} {b : Bool}
    (hpc : s.pc t = .notifying v (key :: todo) b)
    (halone : ∀ u, u ≠ t → (s.pc u).committed = false) :
    Inv ({ s with last := Function.update s.last key (some v) }.move t
      (.notifying v todo true)) := by
  refine ⟨?_, ?_, ?_, ?_, ?_⟩
  · rw [hold_move]
    apply h.agrees.keep
    rw [hpc]
    rfl
  · intro key' hkey' u hlast
    have hmine : u = v → ∃ w, (Function.update s.pc t (.notifying v todo true) w).committed = true ∧
        (Function.update s.pc t (.notifying v todo true) w).value? = some u := by
      intro heq
      exact (Function.exists_update_iff s.pc fun _ pc =>
        pc.committed = true ∧ pc.value? = some u).mpr (Or.inl ⟨rfl, congrArg some heq.symm⟩)
    by_cases hk : key' = key
    · subst hk
      have hlast' : v = u := by simpa [State.move] using hlast
      exact Or.inr (hmine hlast'.symm)
    · have hlast' : s.last key' = some u := by
        simpa [State.move, Function.update_of_ne hk] using hlast
      rcases h.sourced key' hkey' u hlast' with hval | ⟨w, hcommitted, hvalue⟩
      · exact Or.inl hval
      · -- whoever was committed is this thread
        have hw : w = t := by
          by_contra hne
          simp [halone w hne] at hcommitted
        subst hw
        rw [hpc] at hvalue
        exact Or.inr (hmine (Option.some.inj hvalue).symm)
  · refine (Function.forall_update_iff s.pc fun _ pc =>
      ∀ u, pc = .waiting u ∨ pc = .assigning u → ∀ key' ∈ s.cbs,
        ∀ x, Function.update s.last key (some v) key' = some x → x = u).mpr ⟨?_, ?_⟩
    · rintro u (hw | hw) <;> cases hw
    intro w hwt u hw
    have hnot := halone w hwt
    rcases hw with hw | hw <;> simp [hw, Pc.committed] at hnot
  · refine (Function.forall_update_iff s.pc fun _ pc =>
      ∀ u todo' b', pc = .notifying u todo' b' → ∀ key' ∈ s.cbs, key' ∉ todo' →
        Function.update s.last key (some v) key' = some u).mpr ⟨?_, ?_⟩
    · intro u todo' b' hw key' hkey' hnot
      cases hw
      by_cases hk : key' = key
      · subst hk
        exact Function.update_self ..
      · rw [Function.update_of_ne hk]
        exact h.told t v (key :: todo) b hpc key' hkey' (by simp [hk, hnot])
    · -- the other threads in the loop have called nobody yet
      intro w hwt u todo' b' hw key' hkey' hnot
      have hb : b' = false := by
        have huncommitted := halone w hwt
        rw [hw] at huncommitted
        exact huncommitted
      subst hb
      exact absurd (h.fresh w u todo' hw ▸ hkey') hnot
  · exact (Function.forall_update_iff s.pc fun _ pc =>
      ∀ u todo', pc = .notifying u todo' false → todo' = s.cbs).mpr
      ⟨nofun, fun w _ => h.fresh w⟩

/-- The value is assigned. -/
theorem Inv.assign (h : Inv s) {v : T} (hpc : s.pc t = .assigning v) :
    Inv ({ s with val := v }.move t .assigned) := by
  refine ⟨?_, ?_, ?_, ?_, ?_⟩
  · rw [hold_move]
    apply h.agrees.keep
    rw [hpc]
    rfl
  · intro key hkey u hlast
    exact Or.inl (h.settled t v (Or.inr hpc) key hkey u hlast)
  · refine (Function.forall_update_iff s.pc fun _ pc =>
      ∀ u, pc = .waiting u ∨ pc = .assigning u →
        ∀ key ∈ s.cbs, ∀ v, s.last key = some v → v = u).mpr ⟨?_, fun w _ => h.settled w⟩
    rintro u (hw | hw) <;> cases hw
  · exact (Function.forall_update_iff s.pc fun _ pc =>
      ∀ u todo b, pc = .notifying u todo b →
        ∀ key ∈ s.cbs, key ∉ todo → s.last key = some u).mpr
      ⟨nofun, fun w _ => h.told w⟩
  · exact (Function.forall_update_iff s.pc fun _ pc =>
      ∀ u todo, pc = .notifying u todo false → todo = s.cbs).mpr
      ⟨nofun, fun w _ => h.fresh w⟩

omit [DecidableEq Th] in
/-- The listeners change while nobody has the lock: the ones that stay are told what they
were told. -/
theorem Inv.change (h : Inv s) (cbs : List Nat) (funId : Nat) (last : Nat → Option T)
    (hwriter : s.lock.writer = none) (hreaders : s.lock.readers = ∅)
    (hkept : ∀ key ∈ cbs, ∀ v, last key = some v → key ∈ s.cbs ∧ s.last key = some v) :
    Inv { s with cbs := cbs, funId := funId, last := last } := by
  have hnobody : ∀ w u todo b, s.pc w ≠ .notifying u todo b := by
    intro w u todo b hw
    have hnone := h.agrees.hold_none hwriter hreaders w
    simp [hw, Pc.hold] at hnone
  refine ⟨h.agrees, ?_, ?_, ?_, ?_⟩
  · intro key hkey v hlast
    obtain ⟨hmem, hlast'⟩ := hkept key hkey v hlast
    exact h.sourced key hmem v hlast'
  · intro w u hw key hkey v hlast
    obtain ⟨hmem, hlast'⟩ := hkept key hkey v hlast
    exact h.settled w u hw key hmem v hlast'
  · intro w u todo b hw
    exact absurd hw (hnobody w u todo b)
  · intro w u todo hw
    exact absurd hw (hnobody w u todo false)

/-- A step under the guard keeps the invariant. -/
theorem inv_step {eq : T → T → Bool} {s' : State Th T} {a : Act Th T} (h : Inv s)
    (hguard : OneAtATime s a) (hstep : Step eq s a s') : Inv s' := by
  unfold Step step at hstep
  cases a with
  | setValue t v =>
      dsimp only at hstep
      split at hstep
      · rename_i lock hpc hlock
        cases hstep
        have hagrees := h.agrees.rdlock hlock
        refine h.move lock hagrees ?_ nofun nofun nofun
        simp [hpc, Pc.committed]
      · cases hstep
  | compare t =>
      dsimp only at hstep
      split at hstep
      · rename_i v hpc
        have hread : (s.pc t).hold = .read := by rw [hpc]; rfl
        split at hstep
        · cases hstep
          refine h.move _ (h.agrees.rdunlock hread) ?_ nofun nofun nofun
          simp [hpc, Pc.committed]
        · cases hstep
          refine h.move s.lock ?_ ?_ nofun ?_ ?_
          · apply h.agrees.keep
            rw [hread]
            rfl
          · simp [hpc, Pc.committed]
          · intro u todo b heq key hkey hnot
            cases heq
            exact absurd hkey hnot
          · intro u todo heq
            cases heq
            rfl
      · cases hstep
  | notify t returns =>
      dsimp only at hstep
      split at hstep
      · rename_i v key todo b hpc
        obtain ⟨hreturns, halone⟩ := hguard
        rw [if_pos hreturns] at hstep
        cases hstep
        exact h.notify hpc halone
      · cases hstep
  | leave t =>
      dsimp only at hstep
      split at hstep
      · rename_i v b hpc
        have hread : (s.pc t).hold = .read := by rw [hpc]; rfl
        cases hstep
        refine h.move _ (h.agrees.rdunlock hread) ?_ ?_ nofun nofun
        · intro _
          rw [hpc]
          exact ⟨rfl, rfl⟩
        · intro u hu key hkey w hlast
          obtain rfl : v = u := by
            rcases hu with hu | hu
            · cases hu
              rfl
            · cases hu
          have htold := h.told t v [] b hpc key hkey List.not_mem_nil
          exact Option.some.inj (hlast.symm.trans htold)
      · cases hstep
  | wrlock t =>
      dsimp only at hstep
      split at hstep
      · rename_i v lock hpc hlock
        cases hstep
        refine h.move _ (h.agrees.wrlock hlock) ?_ ?_ nofun nofun
        · intro _
          rw [hpc]
          exact ⟨rfl, rfl⟩
        · intro u hu
          obtain rfl : v = u := by
            rcases hu with hu | hu
            · cases hu
            · cases hu
              rfl
          exact h.settled t v (Or.inl hpc)
      · cases hstep
  | assign t =>
      dsimp only at hstep
      split at hstep
      · rename_i v hpc
        cases hstep
        exact h.assign hpc
      · cases hstep
  | wrunlock t =>
      dsimp only at hstep
      split at hstep
      · rename_i hpc
        have hwrite : (s.pc t).hold = .write := by rw [hpc]; rfl
        cases hstep
        refine h.move _ (h.agrees.wrunlock hwrite) ?_ nofun nofun nofun
        simp [hpc, Pc.committed]
      · cases hstep
  | addListener =>
      dsimp only at hstep
      split at hstep
      · rename_i hfree
        cases hstep
        refine h.change _ _ _ hfree.1 hfree.2 ?_
        intro key hkey v hlast
        have hne : key ≠ (s.funId + 1) % 2 ^ 64 := by
          intro heq
          rw [heq, Function.update_self] at hlast
          cases hlast
        rw [Function.update_of_ne hne] at hlast
        refine ⟨?_, hlast⟩
        unfold insertKey at hkey
        split at hkey
        · exact hkey
        · exact (List.mem_orderedInsert _).mp hkey |>.resolve_left hne
      · cases hstep
  | delListerner key =>
      dsimp only at hstep
      split at hstep
      · rename_i hfree
        cases hstep
        refine h.change _ s.funId s.last hfree.1 hfree.2 ?_
        intro key' hkey' v hlast
        exact ⟨(List.mem_filter.mp hkey').1, hlast⟩
      · cases hstep

/-- **Listeners and value.**  For any number of threads that set the value and any
listeners, in every run in which no listener throws, and none is called while another
thread has called a listener, or been through its loop, without having assigned: with
nobody in `setValue`, every listener that has been told of a value was told of the
present one last. -/
theorem reachable_agree {eq : T → T → Bool} {default : T} {s : State Th T}
    (h : ReachableUnder (· = new default) (Step eq) OneAtATime s) (hquiet : Quiescent s) :
    Agree s := by
  refine (h.invariant (I := Inv) ?_ ?_).agree hquiet
  · intro s hs
    subst hs
    exact inv_new default
  · intro s a s' hs hguard hstep
    exact inv_step hs hguard hstep

end Preserves

instance [Fintype Th] [DecidableEq Th] (s : State Th T) : DecidablePred (OneAtATime s) :=
  fun a => by
    cases a with
    | notify t returns => exact inferInstanceAs (Decidable (_ ∧ ∀ u, u ≠ t → _))
    | _ => exact inferInstanceAs (Decidable True)

/-- The first phase of `setValue` with one listener. -/
def tell (t : Bool) (v : Nat) : List (Act Bool Nat) :=
  [.setValue t v, .compare t, .notify t true, .leave t]

/-- The second phase. -/
def finish (t : Bool) : List (Act Bool Nat) :=
  [.wrlock t, .assign t, .wrunlock t]

/-- The listener's key, what it was told last, the value, and whether both threads are
out of `setValue`. -/
def view (s : State Bool Nat) : List Nat × Option Nat × Nat × Bool × Bool :=
  (s.cbs, s.last 1, s.val, (s.pc true).isOutside, (s.pc false).isOutside)

/-- The view shows that no call is being made. -/
theorem quiescent_of_view {s : State Bool Nat} {cbs : List Nat} {last : Option Nat} {val : Nat}
    (h : view s = (cbs, last, val, true, true)) : Quiescent s := by
  simp only [view, Prod.mk.injEq] at h
  intro t
  cases t with
  | true => exact h.2.2.2.1
  | false => exact h.2.2.2.2

/-- Two threads tell the listener in one order and assign in the other. -/
theorem crossed_threads_disagree :
    ¬ ∀ s : State Bool Nat, Reachable (· = new 0) (Step (· == ·)) s → Quiescent s → Agree s := by
  intro hnot
  let acts : List (Act Bool Nat) :=
    [.addListener] ++ tell true 1 ++ tell false 2 ++ finish false ++ finish true
  have hrun : (acts.foldlM (step (· == ·)) (new 0)).map view =
      some ([1], some 2, 1, true, true) := by decide
  obtain ⟨s, hreach, hview⟩ : ∃ s : State Bool Nat,
      Reachable (· = new 0) (Step (· == ·)) s ∧ view s = ([1], some 2, 1, true, true) := by
    refine exists_view ?_ ?_ acts hrun
    · rfl
    · intro _ _ _ h
      exact ⟨trivial, h⟩
  have hagree := hnot s hreach (quiescent_of_view hview)
  simp only [view, Prod.mk.injEq] at hview
  have hkey : 1 ∈ s.cbs := by simp [hview.1]
  have htwo := hagree 1 hkey 2 hview.2.1
  simp [hview.2.2.1] at htwo

/-- One after the other they agree. -/
theorem reachable_agree_of_turns :
    ∃ s : State Bool Nat, ReachableUnder (· = new 0) (Step (· == ·)) OneAtATime s ∧
      view s = ([1], some 2, 2, true, true) ∧ Agree s := by
  let acts : List (Act Bool Nat) :=
    [.addListener] ++ tell true 1 ++ finish true ++ tell false 2 ++ finish false
  have hrun : (acts.foldlM
      (fun s a => if OneAtATime s a then step (· == ·) s a else none) (new 0)).map view =
      some ([1], some 2, 2, true, true) := by decide
  obtain ⟨s, hreach, hview⟩ : ∃ s : State Bool Nat,
      ReachableUnder (· = new 0) (Step (· == ·)) OneAtATime s ∧
        view s = ([1], some 2, 2, true, true) := by
    refine exists_guarded_view ?_ ?_ acts hrun
    · rfl
    · intro _ _ _ h
      exact h
  exact ⟨s, hreach, hview, reachable_agree hreach (quiescent_of_view hview)⟩

end Listeners

end Config

end Agent
