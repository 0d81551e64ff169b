/-!
# Runs of a step relation

A system is a step relation `step s a s'`: from state `s` the call or event
`a` may lead to `s'`.  Two notions of run are used throughout.

* `ReachableUnder init step guard` collects the states at the end of the runs
  all of whose steps meet `guard`.  With the trivial guard these are the
  reachable states.
* `Along step P s as` says that `P` holds at every call of the list `as`, each
  taken in the state that the calls before it lead to.

`ReachableUnder.invariant` and `along_iff_of_invariant` package the two
inductions once: a development states what one step preserves and obtains the
statement about whole runs.
-/

namespace Runs

variable {σ α : Type}

/-- The states reached from `init` by steps that all meet `guard`. -/
inductive ReachableUnder (init : σ → Prop) (step : σ → α → σ → Prop)
    (guard : σ → α → Prop) : σ → Prop
  | start {s : σ} (hinit : init s) : ReachableUnder init step guard s
  | next {s s' : σ} {a : α} (hreach : ReachableUnder init step guard s)
      (hguard : guard s a) (hstep : step s a s') :
      ReachableUnder init step guard s'

/-- The states reached from `init` by any steps. -/
abbrev Reachable (init : σ → Prop) (step : σ → α → σ → Prop) : σ → Prop :=
  ReachableUnder init step (fun _ _ => True)

section Invariants

variable {init : σ → Prop} {step : σ → α → σ → Prop} {guard : σ → α → Prop}

/-- **Invariant rule.**  What holds initially and is preserved by every step
that meets the guard holds in every state reached under the guard. -/
theorem ReachableUnder.invariant {I : σ → Prop}
    (hinit : ∀ s, init s → I s)
    (hstep : ∀ s a s', I s → guard s a → step s a s' → I s')
    {s : σ} (h : ReachableUnder init step guard s) : I s := by
  induction h with
  | start h0 => exact hinit _ h0
  | next _ hg hs ih => exact hstep _ _ _ ih hg hs

/-- A step function that only makes steps under the guard reaches its results:
concrete runs are evaluated with it. -/
theorem ReachableUnder.foldlM {f : σ → α → Option σ}
    (hf : ∀ s a s', f s a = some s' → guard s a ∧ step s a s') (as : List α) :
    ∀ {s s' : σ}, ReachableUnder init step guard s → as.foldlM f s = some s' →
      ReachableUnder init step guard s' := by
  induction as with
  | nil =>
      intro s s' h hrun
      obtain rfl : s = s' := by simpa using hrun
      exact h
  | cons a as ih =>
      intro s s' h hrun
      rw [List.foldlM_cons] at hrun
      obtain ⟨t, ht, hrest⟩ := Option.bind_eq_some_iff.mp hrun
      obtain ⟨hguard, hstep⟩ := hf s a t ht
      exact ih (h.next hguard hstep) hrest

/-- The same, with the guard tested before each step. -/
theorem ReachableUnder.guarded {f : σ → α → Option σ} [∀ s, DecidablePred (guard s)]
    (hf : ∀ s a s', f s a = some s' → step s a s') (as : List α) {s s' : σ}
    (h : ReachableUnder init step guard s)
    (hrun : as.foldlM (fun s a => if guard s a then f s a else none) s = some s') :
    ReachableUnder init step guard s' := by
  refine h.foldlM (fun s a t ht => ?_) as hrun
  obtain ⟨hguard, hstep⟩ := Option.ite_none_right_eq_some.mp ht
  exact ⟨hguard, hf s a t hstep⟩

/-- A concrete run that is evaluated, and what is seen at its end. -/
theorem exists_view {β : Type} {f : σ → α → Option σ} {view : σ → β} {v : β} {s₀ : σ}
    (hinit : init s₀) (hf : ∀ s a s', f s a = some s' → guard s a ∧ step s a s') (as : List α)
    (hrun : (as.foldlM f s₀).map view = some v) :
    ∃ s, ReachableUnder init step guard s ∧ view s = v := by
  obtain ⟨s, hs, hview⟩ := Option.map_eq_some_iff.mp hrun
  have hstart : ReachableUnder init step guard s₀ := .start hinit
  exact ⟨s, hstart.foldlM hf as hs, hview⟩

/-- The same, with the guard tested before each step. -/
theorem exists_guarded_view {β : Type} {f : σ → α → Option σ} {view : σ → β} {v : β} {s₀ : σ}
    [∀ s, DecidablePred (guard s)] (hinit : init s₀)
    (hf : ∀ s a s', f s a = some s' → step s a s') (as : List α)
    (hrun : (as.foldlM (fun s a => if guard s a then f s a else none) s₀).map view = some v) :
    ∃ s, ReachableUnder init step guard s ∧ view s = v := by
  obtain ⟨s, hs, hview⟩ := Option.map_eq_some_iff.mp hrun
  have hstart : ReachableUnder init step guard s₀ := .start hinit
  exact ⟨s, hstart.guarded hf as hs, hview⟩

end Invariants

/-- `P` holds at every call of `as`, each taken in the state that the calls
before it lead to.  A call that leads nowhere ends the run. -/
def Along (step : σ → α → σ → Prop) (P : σ → α → Prop) : σ → List α → Prop
  | _, [] => True
  | s, a :: as => P s a ∧ ∀ s', step s a s' → Along step P s' as

section Along

variable {step : σ → α → σ → Prop} {P Q : σ → α → Prop}

/-- **Call-by-call rule.**  If an invariant makes `P` and `Q` agree at each
call and is preserved by the calls that meet both, then `P` along a run is
`Q` along it. -/
theorem along_iff_of_invariant {I : σ → Prop} {V : α → Prop}
    (hiff : ∀ s a, I s → V a → (P s a ↔ Q s a))
    (hstep : ∀ s a s', I s → V a → Q s a → step s a s' → I s') :
    ∀ (as : List α) (s : σ), I s → (∀ a ∈ as, V a) →
      (Along step P s as ↔ Along step Q s as) := by
  intro as
  induction as with
  | nil => intro s _ _; exact Iff.rfl
  | cons a as ih =>
      intro s hI hV
      have ha : V a := hV a List.mem_cons_self
      have hrest : ∀ b ∈ as, V b := fun b hb => hV b (List.mem_cons_of_mem a hb)
      constructor
      · rintro ⟨hP, htail⟩
        have hQ : Q s a := (hiff s a hI ha).mp hP
        exact ⟨hQ, fun s' hs =>
          (ih s' (hstep s a s' hI ha hQ hs) hrest).mp (htail s' hs)⟩
      · rintro ⟨hQ, htail⟩
        exact ⟨(hiff s a hI ha).mpr hQ, fun s' hs =>
          (ih s' (hstep s a s' hI ha hQ hs) hrest).mpr (htail s' hs)⟩

/-- What holds along a run holds at the call that a concrete run comes to. -/
theorem Along.last {f : σ → α → Option σ} (hf : ∀ s a s', f s a = some s' → step s a s')
    (as : List α) {a : α} :
    ∀ {s s' : σ}, Along step P s (as ++ [a]) → as.foldlM f s = some s' → P s' a := by
  induction as with
  | nil =>
      intro s s' h hrun
      obtain rfl : s = s' := by simpa using hrun
      exact h.1
  | cons b as ih =>
      intro s s' h hrun
      rw [List.foldlM_cons] at hrun
      obtain ⟨t, ht, hrest⟩ := Option.bind_eq_some_iff.mp hrun
      exact ih (h.2 t (hf s b t ht)) hrest

end Along

end Runs
