import Mathlib.Data.List.Induction

/-!
# Loops that may stop

A loop over a list, or over the positions of a list, whose turns may fail.
-/

namespace Folds

variable {α β σ : Type}

/-- What holds at the start of a loop and is kept by its turns holds at its end. -/
theorem foldlM_invariant {f : σ → α → Option σ} {I : σ → Prop}
    (hturn : ∀ s a s', I s → f s a = some s' → I s') (as : List α) {s s' : σ} (hs : I s)
    (h : as.foldlM f s = some s') : I s' := by
  induction as generalizing s with
  | nil =>
      obtain rfl : s = s' := by simpa using h
      exact hs
  | cons a as ih =>
      rw [List.foldlM_cons] at h
      obtain ⟨s₁, hs₁, hrest⟩ := Option.bind_eq_some_iff.mp h
      exact ih (hturn s a s₁ hs hs₁) hrest

/-- A loop over the positions of a list is the loop over its elements. -/
theorem foldlM_range {f : σ → Nat → Option σ} {g : σ → β → σ} (bs : List β)
    (hturn : ∀ s i b, bs[i]? = some b → f s i = some (g s b)) (s : σ) :
    (List.range bs.length).foldlM f s = some (bs.foldl g s) := by
  induction bs using List.reverseRecOn with
  | nil => rfl
  | append_singleton bs b ih =>
      have hbefore : ∀ s i c, bs[i]? = some c → f s i = some (g s c) := by
        intro s i c hc
        refine hturn s i c ?_
        rw [List.getElem?_append_left (List.getElem?_eq_some_iff.mp hc).1]
        exact hc
      have hlast : (bs ++ [b])[bs.length]? = some b := by simp
      rw [List.length_append, List.length_singleton, List.range_succ, List.foldlM_append,
        ih hbefore, List.foldl_append]
      simp only [Option.bind_eq_bind, Option.bind_some, List.foldlM_cons, List.foldlM_nil,
        hturn _ _ _ hlast]
      rfl

/-- A loop over the positions below `n`: what its first `k` turns establish, for every
`k`. -/
theorem foldl_finRange {n : Nat} {f : σ → Fin n → σ} {I : Nat → σ → Prop}
    (hturn : ∀ (i : Fin n) s, I i.val s → I (i.val + 1) (f s i)) {s : σ} (hs : I 0 s) :
    I n ((List.finRange n).foldl f s) := by
  have hprogress : ∀ k, k ≤ n → I k (((List.finRange n).take k).foldl f s) := by
    intro k
    induction k with
    | zero => exact fun _ => hs
    | succ k ih =>
        intro hk
        have hlt : k < (List.finRange n).length := by rwa [List.length_finRange]
        rw [List.take_succ_eq_append_getElem hlt, List.foldl_append, List.getElem_finRange]
        exact hturn ⟨k, hk⟩ _ (ih (Nat.le_of_lt hk))
  have hall := hprogress n (Nat.le_refl n)
  rwa [List.take_of_length_le (by simp)] at hall

/-- A loop that adds each element at the end copies the list. -/
theorem foldl_concat (bs acc : List β) :
    bs.foldl (fun bs b => bs ++ [b]) acc = acc ++ bs := by
  induction bs generalizing acc with
  | nil => exact (List.append_nil acc).symm
  | cons b bs ih => rw [List.foldl_cons, ih, List.append_assoc, List.singleton_append]

end Folds
