import Mathlib.Logic.Function.Basic

/-!
# Ownership of locks

A set of locks is used by a set of threads.  `owner` records which thread has
each lock and `holds t l` says that the program counter of `t` lies between an
acquisition of `l` and its release.  `Owned owner holds` says that the two
agree; a thread that acquires or releases a lock keeps them in agreement, and
two threads never hold one lock together.
-/

namespace Locks

variable {L T : Type} [DecidableEq L] {owner : L → Option T}
  {holds holds' : T → L → Prop}

/-- The recorded owners are the threads that hold the locks. -/
def Owned (owner : L → Option T) (holds : T → L → Prop) : Prop :=
  ∀ l t, owner l = some t ↔ holds t l

omit [DecidableEq L] in
/-- **Exclusion.**  Two threads that hold one lock are the same. -/
theorem Owned.unique (h : Owned owner holds) {l : L} {t u : T}
    (ht : holds t l) (hu : holds u l) : t = u :=
  Option.some.inj (((h l t).mpr ht).symm.trans ((h l u).mpr hu))

omit [DecidableEq L] in
/-- No lock is held at the start. -/
theorem Owned.start (h : ∀ t l, ¬ holds t l) : Owned (fun _ => none) holds :=
  fun l t => by simp [h t l]

omit [DecidableEq L] in
/-- Steps that hold the same locks keep the agreement. -/
theorem Owned.congr (h : Owned owner holds) (heq : ∀ t l, holds' t l ↔ holds t l) :
    Owned owner holds' :=
  fun l t => (h l t).trans (heq t l).symm

/-- A thread that acquires a free lock becomes its owner. -/
theorem Owned.acquire (h : Owned owner holds) {l : L} {t : T} (hfree : owner l = none)
    (hgot : holds' t l)
    (hother : ∀ u k, u ≠ t ∨ k ≠ l → (holds' u k ↔ holds u k)) :
    Owned (Function.update owner l (some t)) holds' := by
  intro k u
  by_cases hk : k = l
  · subst hk
    rw [Function.update_self]
    by_cases hu : u = t
    · subst hu
      simp [hgot]
    · rw [hother u k (Or.inl hu), ← h k u, hfree]
      simp [Ne.symm hu]
  · rw [Function.update_of_ne hk, hother u k (Or.inr hk)]
    exact h k u

/-- A thread that releases its lock leaves it free. -/
theorem Owned.release (h : Owned owner holds) {l : L} {t : T} (hheld : holds t l)
    (hgone : ¬ holds' t l)
    (hother : ∀ u k, u ≠ t ∨ k ≠ l → (holds' u k ↔ holds u k)) :
    Owned (Function.update owner l none) holds' := by
  intro k u
  by_cases hk : k = l
  · subst hk
    rw [Function.update_self]
    by_cases hu : u = t
    · subst hu
      simp [hgone]
    · rw [hother u k (Or.inl hu)]
      have hnot : ¬ holds u k := fun hu' => hu (h.unique hu' hheld)
      simp [hnot]
  · rw [Function.update_of_ne hk, hother u k (Or.inr hk)]
    exact h k u

end Locks
