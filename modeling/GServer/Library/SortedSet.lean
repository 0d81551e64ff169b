/-!
# Ordered sets as sorted lists

A set that is searched with a comparator `less` and keeps its elements in
comparator order (such as `std::set`) is a list that is pairwise `less`.
`insert` and `find?` walk to the first element that is not less than their
argument, the lower bound, and look at that element only.  An insertion that
meets an equivalent element changes nothing.

The comparator is read again at every call, so a set whose elements are ordered
by a field that changes keeps its meaning as long as it stays pairwise `less`.
-/

namespace SortedSet

variable {α : Type}

/-- The comparator is a strict linear order. -/
structure StrictLinear (less : α → α → Bool) : Prop where
  irrefl : ∀ a, less a a = false
  trans : ∀ a b c, less a b = true → less b c = true → less a c = true
  total : ∀ a b, a ≠ b → less a b = true ∨ less b a = true

/-- The elements stand in comparator order, none twice. -/
def Sorted (less : α → α → Bool) (l : List α) : Prop :=
  l.Pairwise (fun a b => less a b = true)

/-- Insert `x` before its lower bound, unless the lower bound is equivalent. -/
def insert (less : α → α → Bool) (x : α) : List α → List α
  | [] => [x]
  | y :: l =>
      if less y x then y :: insert less x l
      else if less x y then x :: y :: l
      else y :: l

/-- The position of the element equivalent to `x`; `none` is the end. -/
def find? (less : α → α → Bool) (x : α) : List α → Option Nat
  | [] => none
  | y :: l =>
      if less y x then (find? less x l).map (· + 1)
      else if less x y then none
      else some 0

section Transitive

variable {less : α → α → Bool}

/-- Insertion brings nothing but its element. -/
theorem eq_or_mem_of_mem_insert {x y : α} {l : List α} (h : y ∈ insert less x l) :
    y = x ∨ y ∈ l := by
  induction l with
  | nil => exact List.mem_cons.mp h
  | cons z l ih =>
      unfold insert at h
      split at h
      · rcases List.mem_cons.mp h with rfl | hy
        · exact Or.inr List.mem_cons_self
        · exact (ih hy).imp_right (List.mem_cons_of_mem z)
      · split at h
        · exact List.mem_cons.mp h
        · exact Or.inr h

/-- Insertion keeps the order of a transitive comparator. -/
theorem Sorted.insert_of_trans
    (htrans : ∀ a b c, less a b = true → less b c = true → less a c = true) {x : α}
    {l : List α} (h : Sorted less l) : Sorted less (SortedSet.insert less x l) := by
  induction l with
  | nil => exact List.pairwise_singleton _ _
  | cons y l ih =>
      obtain ⟨hy, hl⟩ := List.pairwise_cons.mp h
      unfold SortedSet.insert
      split
      · rename_i hyx
        refine List.pairwise_cons.mpr ⟨fun z hz => ?_, ih hl⟩
        rcases eq_or_mem_of_mem_insert hz with rfl | hz
        · exact hyx
        · exact hy z hz
      · split
        · rename_i hxy
          refine List.pairwise_cons.mpr ⟨fun z hz => ?_, h⟩
          rcases List.mem_cons.mp hz with rfl | hz
          · exact hxy
          · exact htrans x y z hxy (hy z hz)
        · exact h

/-- What is greater than every element comes last. -/
theorem insert_of_forall_less {x : α} {l : List α} (h : ∀ y ∈ l, less y x = true) :
    insert less x l = l ++ [x] := by
  induction l with
  | nil => rfl
  | cons y l ih =>
      rw [insert, if_pos (h y List.mem_cons_self), ih fun z hz => h z (List.mem_cons_of_mem y hz)]
      rfl

/-- Inserting the elements of a sorted list in order builds that list. -/
theorem foldl_insert (acc xs : List α) (h : Sorted less (acc ++ xs)) :
    xs.foldl (fun l x => insert less x l) acc = acc ++ xs := by
  induction xs generalizing acc with
  | nil => exact (List.append_nil acc).symm
  | cons x xs ih =>
      have hless : ∀ y ∈ acc, less y x = true := fun y hy =>
        (List.pairwise_append.mp h).2.2 y hy x List.mem_cons_self
      rw [List.append_cons] at h
      rw [List.foldl_cons, insert_of_forall_less hless, ih _ h, ← List.append_cons]

end Transitive

section Laws

variable {less : α → α → Bool} (hless : StrictLinear less)
include hless

/-- Equivalent elements are equal. -/
theorem StrictLinear.eq_of_incomparable {a b : α}
    (hab : less a b = false) (hba : less b a = false) : a = b := by
  by_cases h : a = b
  · exact h
  · rcases hless.total a b h with h' | h'
    · simp [h'] at hab
    · simp [h'] at hba

/-- A sorted list has no duplicates. -/
theorem Sorted.nodup {l : List α} (h : Sorted less l) : l.Nodup := by
  refine List.Pairwise.imp ?_ h
  rintro a b hab rfl
  rw [hless.irrefl a] at hab
  cases hab

/-- Insertion adds its element and keeps the others. -/
theorem mem_insert {x y : α} {l : List α} :
    y ∈ insert less x l ↔ y = x ∨ y ∈ l := by
  induction l with
  | nil => simp [insert]
  | cons z l ih =>
      unfold insert
      split
      · rw [List.mem_cons, ih, List.mem_cons]
        exact or_left_comm
      · split
        · exact List.mem_cons
        · rename_i hzx hxz
          have hx : x = z := hless.eq_of_incomparable (by simpa using hxz)
            (by simpa using hzx)
          subst hx
          simp

/-- Insertion keeps the order. -/
theorem Sorted.insert {x : α} {l : List α} (h : Sorted less l) :
    Sorted less (insert less x l) :=
  h.insert_of_trans hless.trans

/-- Every element of a sorted list is found, at its own position. -/
theorem Sorted.find?_mem {x : α} {l : List α} (h : Sorted less l) (hx : x ∈ l) :
    ∃ i, find? less x l = some i ∧ l[i]? = some x := by
  induction l with
  | nil => exact absurd hx List.not_mem_nil
  | cons y l ih =>
      obtain ⟨hy, hl⟩ := List.pairwise_cons.mp h
      rcases List.mem_cons.mp hx with rfl | hx
      · exact ⟨0, by simp [find?, hless.irrefl], rfl⟩
      · obtain ⟨i, hi, hget⟩ := ih hl hx
        refine ⟨i + 1, by simp [find?, hy x hx, hi], by simpa using hget⟩

/-- Erasing the position of `x` removes `x` and keeps the others. -/
theorem Sorted.mem_eraseIdx {x y : α} {l : List α} {i : Nat}
    (h : Sorted less l) (hi : l[i]? = some x) :
    y ∈ l.eraseIdx i ↔ y ≠ x ∧ y ∈ l := by
  induction l generalizing i with
  | nil => simp at hi
  | cons z l ih =>
      obtain ⟨hz, hl⟩ := List.pairwise_cons.mp h
      have hne : ∀ w ∈ l, w ≠ z := by
        rintro w hw rfl
        have := hz w hw
        rw [hless.irrefl w] at this
        cases this
      cases i with
      | zero =>
          obtain rfl : z = x := by simpa using hi
          constructor
          · intro hy
            exact ⟨hne y hy, List.mem_cons_of_mem _ hy⟩
          · rintro ⟨hyx, hy⟩
            exact (List.mem_cons.mp hy).resolve_left hyx
      | succ i =>
          have hx : l[i]? = some x := by simpa using hi
          have hxz : z ≠ x := fun heq =>
            hne x (List.mem_of_getElem? hx) heq.symm
          rw [List.eraseIdx_cons_succ, List.mem_cons, ih hl hx, List.mem_cons]
          constructor
          · rintro (rfl | ⟨hyx, hy⟩)
            · exact ⟨hxz, Or.inl rfl⟩
            · exact ⟨hyx, Or.inr hy⟩
          · rintro ⟨hyx, rfl | hy⟩
            · exact Or.inl rfl
            · exact Or.inr ⟨hyx, hy⟩

omit hless in
/-- Erasing a position keeps the order. -/
theorem Sorted.eraseIdx {l : List α} (h : Sorted less l) (i : Nat) :
    Sorted less (l.eraseIdx i) :=
  List.Pairwise.sublist (List.eraseIdx_sublist l i) h

end Laws

/-- Predicates that agree on a list cut it at the same place. -/
theorem takeWhile_congr {p q : α → Bool} {l : List α}
    (h : ∀ a ∈ l, p a = q a) : l.takeWhile p = l.takeWhile q := by
  induction l with
  | nil => rfl
  | cons a l ih =>
      have ha : p a = q a := h a List.mem_cons_self
      have hl := ih (fun b hb => h b (List.mem_cons_of_mem a hb))
      simp only [List.takeWhile_cons, ha, hl]

/-- In a sorted list the elements that come first under a predicate closed
downwards are all the elements with it. -/
theorem Sorted.mem_takeWhile {less : α → α → Bool} {l : List α}
    (h : Sorted less l) {p : α → Bool}
    (hdown : ∀ a b, less a b = true → p b = true → p a = true) {x : α} :
    x ∈ l.takeWhile p ↔ x ∈ l ∧ p x = true := by
  induction l with
  | nil => simp
  | cons y l ih =>
      obtain ⟨hy, hl⟩ := List.pairwise_cons.mp h
      by_cases hpy : p y = true
      · rw [List.takeWhile_cons_of_pos hpy, List.mem_cons, ih hl, List.mem_cons]
        constructor
        · rintro (rfl | ⟨hx, hpx⟩)
          · exact ⟨Or.inl rfl, hpy⟩
          · exact ⟨Or.inr hx, hpx⟩
        · rintro ⟨rfl | hx, hpx⟩
          · exact Or.inl rfl
          · exact Or.inr ⟨hx, hpx⟩
      · rw [List.takeWhile_cons_of_neg (by simpa using hpy), List.mem_cons]
        constructor
        · intro hx
          exact absurd hx List.not_mem_nil
        · rintro ⟨rfl | hx, hpx⟩
          · exact absurd hpx hpy
          · exact absurd (hdown y x (hy x hx) hpx) hpy

end SortedSet
