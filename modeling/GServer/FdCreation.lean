import GServer.FdManager

/-!
# Concurrent creation of a context

`FdManager::get(fd, true)` looks the context up under the read lock, releases it,
and when there was none takes the write lock and creates one, without a second
look.  Each half is one step here.  Any number of calls for one descriptor take
their steps in any order.

A call that has missed overwrites what another call has stored and returned in the
meantime.  `FdCreation.oneContext_iff_first_creation` says that this, and the
descriptors 0 and 1 that `resize(fd * 1.5)` leaves without a slot, are all that can
go wrong.
-/

namespace Agent

open Runs

namespace FdCreation

/-- Where a call of `get(fd, true)` is. -/
inductive Pc
  | start
  | missed
  | returned (ctx : Option FdCtxPtr)
deriving DecidableEq

/-- The manager and the calls.  After an access to `m_datas` out of bounds there are no
further steps. -/
structure State (T : Type) where
  manager : FdManager
  pc : T → Pc
  crashed : Bool

/-- A call takes its read-locked or its write-locked half; `stat` is what `fstat`
reports to the new context. -/
inductive Act (T : Type)
  | lookup (t : T)
  | create (t : T) (stat : FdStat)

variable {T : Type}

/-- No call has begun. -/
def start (m : FdManager) : State T :=
  { manager := m, pc := fun _ => .start, crashed := false }

variable [DecidableEq T]

def State.move (s : State T) (t : T) (pc : Pc) : State T :=
  { s with pc := Function.update s.pc t pc }

/-- One step of the calls for `fd`. -/
def step (fd : Int) (s : State T) : Act T → Option (State T)
  | .lookup t =>
      if s.crashed = false ∧ s.pc t = .start then
        match s.manager.find fd true with
        | none => some { s with crashed := true }
        | some .null => some (s.move t (.returned none))
        | some (.ctx p) => some (s.move t (.returned (some p)))
        | some .create => some (s.move t .missed)
      else none
  | .create t stat =>
      if s.crashed = false ∧ s.pc t = .missed then
        match s.manager.create fd true stat with
        | none => some { s with crashed := true }
        | some (p, m) => some ({ s with manager := m }.move t (.returned p))
      else none

/-- The steps of a run. -/
def Step (fd : Int) (s : State T) (a : Act T) (s' : State T) : Prop :=
  step fd s a = some s'

/-- No access is out of bounds, and every call that has returned returned the context
that is stored. -/
structure OneContext (fd : Int) (s : State T) : Prop where
  inBounds : s.crashed = false
  same : ∀ t ctx, s.pc t = .returned ctx → ctx ≠ none ∧ ctx = s.manager.stored fd

/-- The step leads to one context. -/
def Agrees (fd : Int) (s : State T) (a : Act T) : Prop :=
  ∀ s', Step fd s a s' → OneContext fd s'

/-- A call creates a context only for a descriptor from 2 on and while no call has
returned. -/
def FirstCreation (fd : Int) (s : State T) : Act T → Prop
  | .lookup _ => True
  | .create t _ => s.pc t = .missed → 2 ≤ fd ∧ ∀ u ctx, s.pc u ≠ .returned ctx

/-- The invariant: one context, which has been allocated. -/
structure Inv (fd : Int) (s : State T) : Prop where
  oneContext : OneContext fd s
  allocated : ∀ p, s.manager.stored fd = some p → p < s.manager.contexts.length

end FdCreation

namespace FdManager

/-- Every pointer in the vector is that of an allocated context. -/
def Allocated (m : FdManager) : Prop :=
  ∀ p, some p ∈ m.datas → p < m.contexts.length

/-- A context that is stored is in the vector. -/
theorem mem_datas_of_stored {m : FdManager} {fd : Int} {p : FdCtxPtr}
    (h : m.stored fd = some p) : some p ∈ m.datas := by
  have hv : slot? m.datas fd = some (some p) := Option.join_eq_some_iff.mp h
  unfold slot? at hv
  split at hv
  · exact List.mem_of_getElem? hv
  · cases hv

/-- A creation allocates what it stores. -/
theorem allocated_create {m m' : FdManager} {fd : Int} {autoCreate : Bool} {stat : FdStat}
    {r : Option FdCtxPtr} (h : m.Allocated) (hcreate : m.create fd autoCreate stat = some (r, m')) :
    m'.Allocated := by
  have hresized : ∀ p, some p ∈ (if autoCreate then resize m.datas (fd * 3 / 2).toNat
      else m.datas) → p < m.contexts.length := by
    intro p hp
    cases autoCreate with
    | false => exact h p hp
    | true =>
        rcases List.mem_append.mp hp with hp | hp
        · exact h p (List.mem_of_mem_take hp)
        · cases List.eq_of_mem_replicate hp
  unfold create at hcreate
  dsimp only at hcreate
  split at hcreate
  · cases hcreate
  · obtain ⟨-, rfl⟩ := Prod.mk.inj (Option.some.inj hcreate)
    intro p hp
    simp only [List.length_append, List.length_singleton]
    rcases List.mem_or_eq_of_mem_set hp with hp | hp
    · exact Nat.lt_succ_of_lt (hresized p hp)
    · rw [Option.some.inj hp]
      exact Nat.lt_succ_self _

/-- Every call keeps the pointers good. -/
theorem allocated_step {m m' : FdManager} {call : Call} (h : m.Allocated)
    (hstep : Step m call m') : m'.Allocated := by
  obtain ⟨r, hr⟩ := hstep
  cases call with
  | get fd autoCreate stat =>
      simp only [exec, get] at hr
      split at hr
      · cases hr
      · obtain ⟨-, rfl⟩ := Prod.mk.inj (Option.some.inj hr)
        exact h
      · obtain ⟨-, rfl⟩ := Prod.mk.inj (Option.some.inj hr)
        exact h
      · exact allocated_create h hr
  | del fd =>
      obtain ⟨m'', hdel, heq⟩ := Option.map_eq_some_iff.mp hr
      obtain ⟨-, rfl⟩ := Prod.mk.inj heq
      unfold del at hdel
      split at hdel
      · obtain rfl := Option.some.inj hdel
        exact h
      · split at hdel
        · cases hdel
        · obtain rfl := Option.some.inj hdel
          intro p hp
          rcases List.mem_or_eq_of_mem_set hp with hp | hp
          · exact h p hp
          · cases hp

/-- In every run the pointers are good. -/
theorem reachable_allocated {m : FdManager} (h : Reachable (· = new) Step m) : m.Allocated := by
  refine h.invariant (fun m h0 => ?_) (fun m call m' h _ hstep => allocated_step h hstep)
  subst h0
  intro p hp
  cases List.eq_of_mem_replicate hp

end FdManager

namespace FdCreation

open FdManager

variable {T : Type} [DecidableEq T]

/-- The lookup for a descriptor: it returns the stored context, or misses. -/
theorem find_cases {m : FdManager} {fd : Int} (h0 : 0 ≤ fd) :
    (∃ p, m.find fd true = some (.ctx p) ∧ m.stored fd = some p) ∨
      m.find fd true = some .create := by
  have hne : fd ≠ -1 := by omega
  by_cases hlt : fd < m.intSize
  · have hslot := slot?_of_lt_intSize h0 hlt
    have hnle : ¬ m.intSize ≤ fd := by omega
    cases hst : m.stored fd with
    | none => exact Or.inr (by simp [find, hne, hnle, hslot, hst])
    | some p => exact Or.inl ⟨p, by simp [find, hne, hnle, hslot, hst], rfl⟩
  · exact Or.inr (by simp [find, hne, Int.not_lt.mp hlt])

/-- What a step does. -/
theorem step_cases {fd : Int} {s s' : State T} {a : Act T} (h0 : 0 ≤ fd)
    (hstep : Step fd s a s') :
    (∃ t p, a = .lookup t ∧ s.manager.stored fd = some p ∧
      s' = s.move t (.returned (some p))) ∨
    (∃ t, a = .lookup t ∧ s' = s.move t .missed) ∨
    (∃ t stat, a = .create t stat ∧ s.pc t = .missed ∧ fd < 2 ∧
      s' = { s with crashed := true }) ∨
    (∃ t stat m, a = .create t stat ∧ s.pc t = .missed ∧ 2 ≤ fd ∧
      m.contexts.length = s.manager.contexts.length + 1 ∧
      m.stored fd = some s.manager.contexts.length ∧
      s' = { s with manager := m }.move t (.returned (some s.manager.contexts.length))) := by
  unfold Step step at hstep
  cases a with
  | lookup t =>
      obtain ⟨-, hrun⟩ := Option.ite_none_right_eq_some.mp hstep
      rcases find_cases (m := s.manager) h0 with ⟨p, hfind, hstored⟩ | hfind
      · rw [hfind] at hrun
        exact Or.inl ⟨t, p, rfl, hstored, (Option.some.inj hrun).symm⟩
      · rw [hfind] at hrun
        exact Or.inr (Or.inl ⟨t, rfl, (Option.some.inj hrun).symm⟩)
  | create t stat =>
      obtain ⟨⟨-, hpc⟩, hrun⟩ := Option.ite_none_right_eq_some.mp hstep
      obtain ⟨hroom, hfull⟩ := create_true s.manager stat h0
      by_cases h2 : 2 ≤ fd
      · obtain ⟨m, hm, hcontexts, hstored⟩ := hroom h2
        rw [hm] at hrun
        refine Or.inr (Or.inr (Or.inr ⟨t, stat, m, rfl, hpc, h2, by simp [hcontexts], ?_,
          (Option.some.inj hrun).symm⟩))
        rw [hstored, Function.update_self]
      · rw [hfull (by omega)] at hrun
        exact Or.inr (Or.inr (Or.inl ⟨t, stat, rfl, hpc, by omega,
          (Option.some.inj hrun).symm⟩))

omit [DecidableEq T] in
/-- Before a call has returned there is no more than one context. -/
theorem inv_start {m : FdManager} (h : m.Allocated) (fd : Int) :
    Inv fd (start m : State T) where
  oneContext := ⟨rfl, fun _ _ hpc => by simp [start] at hpc⟩
  allocated := fun p hp => h p (mem_datas_of_stored hp)

/-- A call moves to where it has not returned, or returns what is stored. -/
theorem OneContext.move {fd : Int} {s : State T} (h : OneContext fd s) (t : T) {pc : Pc}
    (hpc : ∀ ctx, pc = .returned ctx → ctx ≠ none ∧ ctx = s.manager.stored fd) :
    OneContext fd (s.move t pc) := by
  refine ⟨h.inBounds, fun u ctx hu => ?_⟩
  by_cases heq : u = t
  · subst heq
    exact hpc ctx (by simpa [State.move] using hu)
  · exact h.same u ctx (by simpa [State.move, Function.update_of_ne heq] using hu)

/-- A creation while no call has returned leads to one context, and no other does. -/
theorem agrees_create_iff {fd : Int} {s s' : State T} {t : T} (h : Inv fd s)
    {m : FdManager} (hpc : s.pc t = .missed)
    (hstored : m.stored fd = some s.manager.contexts.length)
    (hs' : s' = { s with manager := m }.move t (.returned (some s.manager.contexts.length))) :
    OneContext fd s' ↔ ∀ u ctx, s.pc u ≠ .returned ctx := by
  subst hs'
  constructor
  · rintro hone u ctx hu
    have hne : u ≠ t := by
      intro heq
      rw [heq, hpc] at hu
      cases hu
    obtain ⟨hsome, hold⟩ := h.oneContext.same u ctx hu
    obtain ⟨p, rfl⟩ := Option.ne_none_iff_exists'.mp hsome
    -- the call returned the context that was stored then
    have hnew : some p = m.stored fd :=
      (hone.same u (some p) (by simpa [State.move, Function.update_of_ne hne] using hu)).2
    have hlt := h.allocated p hold.symm
    rw [hstored] at hnew
    exact absurd (Option.some.inj hnew) (Nat.ne_of_lt hlt)
  · intro hnobody
    have hone : OneContext fd { s with manager := m } :=
      ⟨h.oneContext.inBounds, fun u ctx hu => absurd hu (hnobody u ctx)⟩
    refine hone.move t fun ctx hctx => ?_
    obtain rfl := Pc.returned.inj hctx
    exact ⟨by simp, hstored.symm⟩

/-- Whether a step leads to one context. -/
theorem oneContext_step {fd : Int} {s s' : State T} {a : Act T} (h0 : 0 ≤ fd) (h : Inv fd s)
    (hstep : Step fd s a s') : OneContext fd s' ↔ FirstCreation fd s a := by
  rcases step_cases h0 hstep with ⟨t, p, rfl, hstored, rfl⟩ | ⟨t, rfl, rfl⟩ |
    ⟨t, stat, rfl, hpc, hlt, rfl⟩ | ⟨t, stat, m, rfl, hpc, h2, -, hstored, hs'⟩
  · refine iff_of_true (h.oneContext.move t fun ctx hctx => ?_) trivial
    obtain rfl := Pc.returned.inj hctx
    exact ⟨by simp, hstored.symm⟩
  · exact iff_of_true (h.oneContext.move t fun ctx hctx => by cases hctx) trivial
  · refine iff_of_false (fun hone => ?_) fun hfirst => ?_
    · simpa using hone.inBounds
    · have := (hfirst hpc).1
      omega
  · rw [agrees_create_iff h hpc hstored hs']
    exact ⟨fun hnobody _ => ⟨h2, hnobody⟩, fun hfirst => (hfirst hpc).2⟩

/-- A step under the guard keeps the one context. -/
theorem inv_step {fd : Int} {s s' : State T} {a : Act T} (h0 : 0 ≤ fd) (h : Inv fd s)
    (hguard : FirstCreation fd s a) (hstep : Step fd s a s') : Inv fd s' := by
  refine ⟨(oneContext_step h0 h hstep).mpr hguard, ?_⟩
  rcases step_cases h0 hstep with ⟨t, p, -, -, rfl⟩ | ⟨t, -, rfl⟩ | ⟨t, stat, -, -, -, rfl⟩ |
    ⟨t, stat, m, -, -, -, hlen, hstored, rfl⟩
  · exact h.allocated
  · exact h.allocated
  · exact h.allocated
  · intro p hp
    have hp : m.stored fd = some p := hp
    show p < m.contexts.length
    rw [hstored] at hp
    rw [hlen, ← Option.some.inj hp]
    exact Nat.lt_succ_self _

/-- A call whose halves follow each other is `FdManager::get`. -/
theorem alone_eq_get {m m' : FdManager} {fd : Int} {stat : FdStat} {r : Option FdCtxPtr} (t : T)
    (h0 : 0 ≤ fd) (hget : m.get fd true stat = some (r, m')) :
    ∃ acts : List (Act T), acts.foldlM (step fd) (start m) =
      some ({ start m with manager := m' }.move t (.returned r)) := by
  have hstart : (start m : State T).crashed = false ∧ (start m : State T).pc t = .start :=
    ⟨rfl, rfl⟩
  have hmiss : ((start m : State T).move t .missed).crashed = false ∧
      ((start m : State T).move t .missed).pc t = .missed := ⟨rfl, Function.update_self ..⟩
  rcases find_cases (m := m) h0 with ⟨p, hfind, -⟩ | hfind
  · obtain ⟨rfl, rfl⟩ : some p = r ∧ m = m' := by simpa [FdManager.get, hfind] using hget
    refine ⟨[.lookup t], ?_⟩
    have hfind' : (start m : State T).manager.find fd true = some (.ctx p) := hfind
    simp only [List.foldlM_cons, List.foldlM_nil, step, if_pos hstart, hfind']
    rfl
  · have hcreate : m.create fd true stat = some (r, m') := by
      simpa [FdManager.get, hfind] using hget
    refine ⟨[.lookup t, .create t stat], ?_⟩
    have hfind' : (start m : State T).manager.find fd true = some .create := hfind
    have hcreate' : ((start m : State T).move t .missed).manager.create fd true stat =
        some (r, m') := hcreate
    have hlookup : step fd (start m) (.lookup t) = some ((start m : State T).move t .missed) := by
      simp only [step, if_pos hstart, hfind']
    have hthen : step fd ((start m : State T).move t .missed) (.create t stat) =
        some ({ start m with manager := m' }.move t (.returned r)) := by
      simp only [step, if_pos hmiss, hcreate']
      simp [State.move]
    simp [hlookup, hthen]

/-- **One context per descriptor.**  For any calls of `get(fd, true)` from any manager
that the calls before them have left, and for every interleaving of their halves, all
calls return the one context that is stored exactly when contexts are created only
while no call has returned, and for descriptors from 2 on. -/
theorem oneContext_iff_first_creation (fd : Int) (m : FdManager) (acts : List (Act T))
    (h0 : 0 ≤ fd) (hm : Reachable (· = FdManager.new) FdManager.Step m) :
    Along (Step fd) (Agrees fd) (start m) acts ↔
      Along (Step fd) (FirstCreation fd) (start m) acts := by
  refine along_iff_of_invariant (I := Inv fd) (V := fun _ => True) (fun s a h _ => ?_)
    (fun s a s' h _ hguard hstep => inv_step h0 h hguard hstep) acts (start m)
    (inv_start (reachable_allocated hm) fd) fun _ _ => trivial
  constructor
  · intro hagrees
    cases hrun : step fd s a with
    | some s' => exact (oneContext_step h0 h hrun).mp (hagrees s' hrun)
    | none =>
        cases a with
        | lookup t => trivial
        | create t stat =>
            -- a call that has missed can always take its second half
            intro hpc
            have hready : s.crashed = false ∧ s.pc t = .missed :=
              ⟨h.oneContext.inBounds, hpc⟩
            simp only [step, if_pos hready] at hrun
            split at hrun <;> cases hrun
  · exact fun hfirst s' hstep => (oneContext_step h0 h hstep).mpr hfirst

/-- Both calls look up before either creates: they return different contexts. -/
theorem two_creations_differ :
    ¬ ∀ (fd : Int) (m : FdManager) (acts : List (Act Bool)), 0 ≤ fd →
      Reachable (· = FdManager.new) FdManager.Step m →
      Along (Step fd) (Agrees fd) (start m) acts := by
  intro hone
  let acts : List (Act Bool) := [.lookup true, .lookup false, .create true .socket]
  let last : Act Bool := .create false .socket
  have hrun := hone 5 .new (acts ++ [last]) (by decide) (.start rfl)
  have hview : ((acts ++ [last]).foldlM (step 5) (start FdManager.new)).map
      (fun s => (s.pc true, s.pc false)) =
        some (.returned (some 0), .returned (some 1)) := by
    decide +kernel
  obtain ⟨s', hs', hat⟩ := Option.map_eq_some_iff.mp hview
  rw [List.foldlM_append] at hs'
  obtain ⟨s, hs, hlast⟩ := Option.bind_eq_some_iff.mp hs'
  have hstep : step 5 s last = some s' := by simpa using hlast
  have hagrees : OneContext 5 s' := Along.last (fun _ _ _ h => h) acts hrun hs s' hstep
  obtain ⟨htrue, hfalse⟩ := Prod.mk.inj hat
  have hsame := (hagrees.same _ _ htrue).2.trans (hagrees.same _ _ hfalse).2.symm
  simp at hsame

/-- The second call finds what the first has created. -/
theorem oneContext_of_second_lookup_late :
    let acts : List (Act Bool) := [.lookup true, .create true .socket, .lookup false]
    Along (Step 5) (Agrees 5) (start FdManager.new) acts := by
  refine (oneContext_iff_first_creation 5 .new _ (by decide) (.start rfl)).mpr ?_
  refine ⟨trivial, fun s hs => ⟨fun _ => ⟨by decide, fun u ctx => ?_⟩,
    fun _ _ => ⟨trivial, fun _ _ => trivial⟩⟩⟩
  have hlookup : step 5 (start FdManager.new) (.lookup true) =
      some ((start FdManager.new).move true .missed) :=
    rfl
  obtain rfl := Option.some.inj (hlookup.symm.trans hs)
  cases u with
  | true => exact nofun
  | false => exact nofun

end FdCreation

end Agent
