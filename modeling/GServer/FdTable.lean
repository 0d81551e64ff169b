import GServer.Library.RwLock
import GServer.Library.Runs
import Mathlib

/-!
# The table of descriptor contexts

`addEvent` looks a descriptor up under the read lock of `m_rwmutex`.  Where the
table is too short it lets go of the lock, takes the write lock and resizes the
table to one and a half times its own descriptor.  In between another thread may
have made the table longer than that; then the resize cuts it.
-/

namespace Agent

open RwLocks Runs

namespace FdTable

/-- A descriptor: an `int` that is at least 2. -/
structure Descriptor where
  fd : Nat
  two_le : 2 ≤ fd
  lt_int : fd < 2 ^ 31
deriving DecidableEq

/-- `fd * 1.5`, converted to `size_t`. -/
def Descriptor.newSize (d : Descriptor) : Nat :=
  d.fd * 3 / 2

/-- Where a thread is in `addEvent`, up to where it has its context. -/
inductive Pc
  | outside
  | entered (d : Descriptor)
  | found (d : Descriptor)
  | missing (d : Descriptor)
  | writing (d : Descriptor)
  | resized (d : Descriptor)
deriving DecidableEq

/-- How the thread has `m_rwmutex`. -/
def Pc.hold : Pc → Hold
  | .entered _ | .found _ => .read
  | .writing _ | .resized _ => .write
  | .outside | .missing _ => .none

/-- The contexts of the table are numbered as they are made.  `given` records the
contexts that calls of `addEvent` have got for their descriptors. -/
structure State (T : Type) where
  lock : RwLock T
  table : List Nat
  made : Nat
  given : List (Nat × Nat)
  pc : T → Pc

/-- What happens next. -/
inductive Act (T : Type)
  | addEvent (t : T) (d : Descriptor)
  | check (t : T)
  | wrlock (t : T)
  | resize (t : T)
  | access (t : T)

variable {T : Type}

/-- `IOManager::contextResize`. -/
def State.contextResize (s : State T) (size : Nat) : State T :=
  { s with
    table := s.table.take size ++ List.range' s.made (size - s.table.length)
    made := s.made + (size - s.table.length) }

/-- The table that the constructor makes. -/
def start : State T :=
  { lock := .free, table := [], made := 0, given := [], pc := fun _ => .outside : State T
      }.contextResize 32

/-- `(int)m_fdContexts.size()`. -/
@[irreducible] def intSize (table : List Nat) : Int :=
  Int.bmod table.length (2 ^ 32)

section Steps

variable [DecidableEq T]

/-- The thread goes on. -/
def State.move (s : State T) (t : T) (pc : Pc) : State T :=
  { s with pc := Function.update s.pc t pc }

/-- `m_fdContexts[fd]`, where there is such an index. -/
def State.give (s : State T) (d : Descriptor) : Option (State T) :=
  match s.table[d.fd]? with
  | none => none
  | some ctx => some { s with given := (d.fd, ctx) :: s.given }

/-- One step. -/
def step (s : State T) : Act T → Option (State T)
  | .addEvent t d =>
      match s.pc t, s.lock.rdlock t with
      | .outside, some lock => some ({ s with lock := lock }.move t (.entered d))
      | _, _ => none
  | .check t =>
      match s.pc t with
      | .entered d =>
          if (d.fd : Int) < intSize s.table then some (s.move t (.found d))
          else some ({ s with lock := s.lock.rdunlock t }.move t (.missing d))
      | _ => none
  | .wrlock t =>
      match s.pc t, s.lock.wrlock t with
      | .missing d, some lock => some ({ s with lock := lock }.move t (.writing d))
      | _, _ => none
  | .resize t =>
      match s.pc t with
      | .writing d => some ((s.contextResize d.newSize).move t (.resized d))
      | _ => none
  | .access t =>
      match s.pc t with
      | .found d => (s.give d).map fun s => { s with lock := s.lock.rdunlock t }.move t .outside
      | .resized d => (s.give d).map fun s => { s with lock := s.lock.wrunlock }.move t .outside
      | _ => none

def Step (s : State T) (a : Act T) (s' : State T) : Prop :=
  step s a = some s'

end Steps

/-- The contexts that were given out are where they were. -/
def Stable (s : State T) : Prop :=
  ∀ e ∈ s.given, s.table[e.1]? = some e.2

/-- The thread accesses the table below its size. -/
def InBounds (s : State T) : Act T → Prop
  | .access t => ∀ d, s.pc t = .found d ∨ s.pc t = .resized d → d.fd < s.table.length
  | _ => True

/-- The table does not shrink, accesses are in bounds, and contexts stay. -/
def OnlyGrows [DecidableEq T] (s : State T) (a : Act T) : Prop :=
  InBounds s a ∧ ∀ s', Step s a s' → s.table.length ≤ s'.table.length ∧ Stable s'

/-- A thread that resizes the table does not find it longer than what it has come to
make of it. -/
def NotOvertaken (s : State T) : Act T → Prop
  | .resize t => ∀ d, s.pc t = .writing d → s.table.length ≤ d.newSize
  | _ => True

/-- The invariant. -/
structure Inv (s : State T) : Prop where
  agrees : s.lock.Agrees fun t => (s.pc t).hold
  found : ∀ t d, s.pc t = .found d ∨ s.pc t = .resized d → d.fd < s.table.length
  stable : Stable s

/-- The invariant holds at the start. -/
theorem inv_start : Inv (start : State T) where
  agrees := RwLock.agrees_free
  found _ _ h := by rcases h with h | h <;> cases h
  stable := nofun

/-- The new size has room for the descriptor. -/
theorem Descriptor.lt_newSize (d : Descriptor) : d.fd < d.newSize := by
  have htwo := d.two_le
  unfold newSize
  omega

/-- What is below the size as an `int` is below the size. -/
theorem lt_of_intSize {table : List Nat} {n : Nat} (h : (n : Int) < intSize table) :
    n < table.length := by
  unfold intSize at h
  rw [Int.bmod_def] at h
  split at h <;> omega

/-- A larger table has new contexts at its end. -/
theorem contextResize_table {s : State T} {size : Nat} (h : s.table.length ≤ size) :
    (s.contextResize size).table =
      s.table ++ List.range' s.made (size - s.table.length) := by
  simp only [State.contextResize, List.take_of_length_le h]

/-- The table has the size that it is given. -/
theorem length_contextResize (s : State T) (size : Nat) :
    (s.contextResize size).table.length = size := by
  simp only [State.contextResize, List.length_append, List.length_take, List.length_range']
  omega

/-! ## What a step preserves -/

section Preserves

variable [DecidableEq T] {s : State T} {t : T}

/-- A step of one thread changes what that thread holds. -/
theorem hold_move (s : State T) (t : T) (pc : Pc) :
    (fun u => ((s.move t pc).pc u).hold) = Function.update (fun u => (s.pc u).hold) t pc.hold :=
  Function.comp_update Pc.hold s.pc t pc

/-- A thread goes on and leaves the table alone. -/
theorem Inv.move (h : Inv s) (lock : RwLock T) {pc : Pc}
    (hlock : lock.Agrees (Function.update (fun u => (s.pc u).hold) t pc.hold))
    (hfound : ∀ d, pc = .found d ∨ pc = .resized d → d.fd < s.table.length) :
    Inv ({ s with lock := lock }.move t pc) := by
  refine ⟨?_, ?_, h.stable⟩
  · rw [hold_move]
    exact hlock
  · exact (Function.forall_update_iff s.pc fun _ pc =>
      ∀ d, pc = .found d ∨ pc = .resized d → d.fd < s.table.length).mpr
      ⟨hfound, fun u _ => h.found u⟩

/-- The table is resized to no less than it has. -/
theorem Inv.resize (h : Inv s) {d : Descriptor} (hpc : s.pc t = .writing d)
    (hle : s.table.length ≤ d.newSize) :
    Inv ((s.contextResize d.newSize).move t (.resized d)) := by
  refine ⟨?_, ?_, fun e he => ?_⟩
  · rw [hold_move]
    apply h.agrees.keep
    rw [hpc]
    rfl
  · refine (Function.forall_update_iff s.pc fun _ pc =>
      ∀ d', pc = .found d' ∨ pc = .resized d' →
        d'.fd < (s.contextResize d.newSize).table.length).mpr ⟨?_, ?_⟩
    · intro d' hd'
      obtain rfl : d = d' := by
        rcases hd' with hd' | hd' <;> cases hd'
        rfl
      rw [length_contextResize]
      exact d.lt_newSize
    · intro u _ d' hu
      rw [length_contextResize]
      exact Nat.lt_of_lt_of_le (h.found u d' hu) hle
  · change (s.contextResize d.newSize).table[e.1]? = some e.2
    have hold := h.stable e he
    have hlt := (List.getElem?_eq_some_iff.mp hold).1
    rw [contextResize_table hle, List.getElem?_append_left hlt, hold]

/-- The context is given out and the lock released. -/
theorem Inv.access (h : Inv s) {d : Descriptor} {s₁ : State T} {lock : RwLock T}
    (hgive : s.give d = some s₁)
    (hlock : lock.Agrees (Function.update (fun u => (s.pc u).hold) t Hold.none)) :
    Inv ({ s₁ with lock := lock }.move t .outside) ∧ s₁.table = s.table := by
  unfold State.give at hgive
  split at hgive
  · cases hgive
  · rename_i ctx hctx
    cases hgive
    have hgiven : Inv { s with given := (d.fd, ctx) :: s.given } := by
      refine ⟨h.agrees, h.found, fun e he => ?_⟩
      rcases List.mem_cons.mp he with he | he
      · subst he
        exact hctx
      · exact h.stable e he
    exact ⟨hgiven.move lock hlock nofun, rfl⟩

/-- A step under the guard keeps the invariant, and the table does not shrink. -/
theorem inv_step {s' : State T} {a : Act T} (h : Inv s) (hguard : NotOvertaken s a)
    (hstep : Step s a s') : Inv s' ∧ s.table.length ≤ s'.table.length := by
  unfold Step step at hstep
  cases a with
  | addEvent t d =>
      dsimp only at hstep
      split at hstep
      · rename_i lock hpc hlock
        cases hstep
        have hagrees := h.agrees.rdlock hlock
        exact ⟨h.move lock hagrees nofun, Nat.le_refl _⟩
      · cases hstep
  | check t =>
      dsimp only at hstep
      split at hstep
      · rename_i d hpc
        have hread : (s.pc t).hold = .read := by rw [hpc]; rfl
        split at hstep
        · rename_i hlt
          cases hstep
          refine ⟨h.move s.lock ?_ ?_, Nat.le_refl _⟩
          · apply h.agrees.keep
            rw [hread]
            rfl
          · intro d' hd'
            obtain rfl : d = d' := by
              rcases hd' with hd' | hd' <;> cases hd'
              rfl
            exact lt_of_intSize hlt
        · cases hstep
          exact ⟨h.move _ (h.agrees.rdunlock hread) nofun, Nat.le_refl _⟩
      · cases hstep
  | wrlock t =>
      dsimp only at hstep
      split at hstep
      · rename_i d lock hpc hlock
        cases hstep
        have hagrees := h.agrees.wrlock hlock
        exact ⟨h.move lock hagrees nofun, Nat.le_refl _⟩
      · cases hstep
  | resize t =>
      dsimp only at hstep
      split at hstep
      · rename_i d hpc
        cases hstep
        have hle := hguard d hpc
        refine ⟨h.resize hpc hle, ?_⟩
        change s.table.length ≤ (s.contextResize d.newSize).table.length
        rw [length_contextResize]
        exact hle
      · cases hstep
  | access t =>
      dsimp only at hstep
      split at hstep
      · rename_i d hpc
        have hread : (s.pc t).hold = .read := by rw [hpc]; rfl
        obtain ⟨s₁, hgive, rfl⟩ := Option.map_eq_some_iff.mp hstep
        have hlock : s₁.lock = s.lock := by
          unfold State.give at hgive
          split at hgive <;> cases hgive
          rfl
        obtain ⟨hinv, htable⟩ := h.access hgive (h.agrees.rdunlock hread)
        rw [hlock]
        exact ⟨hinv, Nat.le_of_eq (congrArg List.length htable.symm)⟩
      · rename_i d hpc
        have hwrite : (s.pc t).hold = .write := by rw [hpc]; rfl
        obtain ⟨s₁, hgive, rfl⟩ := Option.map_eq_some_iff.mp hstep
        have hlock : s₁.lock = s.lock := by
          unfold State.give at hgive
          split at hgive <;> cases hgive
          rfl
        obtain ⟨hinv, htable⟩ := h.access hgive (h.agrees.wrunlock hwrite)
        rw [hlock]
        exact ⟨hinv, Nat.le_of_eq (congrArg List.length htable.symm)⟩
      · cases hstep

/-- A step lets the table only grow exactly when its thread has not been overtaken. -/
theorem onlyGrows_iff {a : Act T} (h : Inv s) : OnlyGrows s a ↔ NotOvertaken s a := by
  constructor
  · intro hgrows
    cases a with
    | resize t =>
        intro d hpc
        have hstep : Step s (.resize t) ((s.contextResize d.newSize).move t (.resized d)) := by
          simp only [Step, step, hpc]
        have hle := (hgrows.2 _ hstep).1
        change s.table.length ≤ (s.contextResize d.newSize).table.length at hle
        rwa [length_contextResize] at hle
    | _ => trivial
  · intro hguard
    constructor
    · cases a with
      | access t => exact fun d hd => h.found t d hd
      | _ => trivial
    · intro s' hstep
      obtain ⟨hinv, hle⟩ := inv_step h hguard hstep
      exact ⟨hle, hinv.stable⟩

/-- **The table only grows.**  For any number of threads and every sequence of their
steps: the table never shrinks, is accessed in bounds and keeps the contexts that were
given out exactly when no thread that resizes it finds it longer than one and a half
times its descriptor. -/
theorem onlyGrows_iff_not_overtaken (acts : List (Act T)) :
    Along Step OnlyGrows (start : State T) acts ↔ Along Step NotOvertaken start acts := by
  refine along_iff_of_invariant (I := Inv) (V := fun _ => True) ?_ ?_ acts start inv_start
    fun _ _ => trivial
  · intro s a h _
    exact onlyGrows_iff h
  · intro s a s' h _ hguard hstep
    exact (inv_step h hguard hstep).1

end Preserves

/-- Descriptors 100 and 40. -/
def hundred : Descriptor := ⟨100, by decide, by decide⟩
def forty : Descriptor := ⟨40, by decide, by decide⟩

/-- Two threads find the table too short for their descriptors; the one with the smaller
descriptor resizes it last. -/
theorem overtaken_resize_shrinks :
    ¬ ∀ acts : List (Act Bool), Along Step OnlyGrows start acts := by
  intro hall
  let acts : List (Act Bool) := [.addEvent true hundred, .check true, .addEvent false forty,
    .check false, .wrlock true, .resize true, .access true, .wrlock false]
  have hrun : (acts.foldlM step start).map
      (fun s => (s.table.length, (step s (.resize false)).map fun s' => s'.table.length)) =
      some (150, some 60) := by decide +kernel
  obtain ⟨s, hs, hview⟩ := Option.map_eq_some_iff.mp hrun
  obtain ⟨hlength, hnext⟩ := Prod.mk.injEq .. ▸ hview
  obtain ⟨s', hstep, hlength'⟩ := Option.map_eq_some_iff.mp hnext
  have hgrows := (hall (acts ++ [.resize false])).last (fun _ _ _ h => h) acts hs
  have hle := (hgrows.2 s' hstep).1
  omega

end FdTable

end Agent
