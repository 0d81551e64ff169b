/-!
# A sequence that arrives in pieces

A sequence is cut into pieces, and a reader takes it from the front: each time the
next piece, or its first `limit` elements.  `dropFront` is what is left after `n`
elements, `startOf` and `endOf` say where the take that holds an element begins and
ends.
-/

namespace Pieces

variable {α : Type}

/-- No piece is empty. -/
def AllNonempty (ps : List (List α)) : Prop :=
  ∀ p ∈ ps, p ≠ []

/-- The pieces without their first `n` elements. -/
def dropFront : Nat → List (List α) → List (List α)
  | _, [] => []
  | n, p :: ps => if p.length ≤ n then dropFront (n - p.length) ps else p.drop n :: ps

/-- What the next take gives. -/
def front (limit : Nat) : List (List α) → List α
  | [] => []
  | p :: _ => p.take limit

/-- Where the take that holds element `i` begins. -/
def startOf (limit : Nat) : List (List α) → Nat → Nat
  | [], _ => 0
  | p :: ps, i =>
      if i < p.length then i / limit * limit else p.length + startOf limit ps (i - p.length)

/-- Where the take that holds element `i` ends. -/
def endOf (limit : Nat) : List (List α) → Nat → Nat
  | [], _ => 0
  | p :: ps, i =>
      if i < p.length then min p.length (i / limit * limit + limit)
      else p.length + endOf limit ps (i - p.length)

theorem AllNonempty.tail {p : List α} {ps : List (List α)} (h : AllNonempty (p :: ps)) :
    AllNonempty ps :=
  fun q hq => h q (List.mem_cons_of_mem p hq)

theorem AllNonempty.length_pos {p : List α} {ps : List (List α)} (h : AllNonempty (p :: ps)) :
    0 < p.length :=
  List.length_pos_iff.mpr (h p List.mem_cons_self)

/-- Dropping from the front leaves no empty piece. -/
theorem AllNonempty.dropFront {ps : List (List α)} (h : AllNonempty ps) (n : Nat) :
    AllNonempty (dropFront n ps) := by
  induction ps generalizing n with
  | nil => exact h
  | cons p ps ih =>
      unfold Pieces.dropFront
      split
      · exact ih h.tail _
      · rename_i hlt
        intro q hq
        rcases List.mem_cons.mp hq with rfl | hq
        · rw [← List.length_pos_iff, List.length_drop]
          omega
        · exact h.tail q hq

/-- Dropping nothing changes nothing. -/
theorem dropFront_zero {ps : List (List α)} (h : AllNonempty ps) : dropFront 0 ps = ps := by
  cases ps with
  | nil => rfl
  | cons p ps =>
      have hp := h.length_pos
      rw [dropFront, if_neg (by omega), List.drop_zero]

/-- The bytes behind are left. -/
theorem flatten_dropFront (n : Nat) (ps : List (List α)) :
    (dropFront n ps).flatten = ps.flatten.drop n := by
  induction ps generalizing n with
  | nil => simp [dropFront]
  | cons p ps ih =>
      unfold dropFront
      rw [List.flatten_cons, List.drop_append]
      split
      · rename_i hle
        rw [ih, List.drop_eq_nil_iff.mpr hle, List.nil_append]
      · rename_i hlt
        rw [List.flatten_cons, Nat.sub_eq_zero_of_le (by omega), List.drop_zero]

/-- Dropping twice drops both. -/
theorem dropFront_dropFront {ps : List (List α)} (h : AllNonempty ps) (m n : Nat) :
    dropFront n (dropFront m ps) = dropFront (m + n) ps := by
  induction ps generalizing m with
  | nil => rfl
  | cons p ps ih =>
      have hp := h.length_pos
      by_cases hm : p.length ≤ m
      · have hcons : dropFront m (p :: ps) = dropFront (m - p.length) ps := if_pos hm
        have hsum : dropFront (m + n) (p :: ps) = dropFront (m + n - p.length) ps :=
          if_pos (by omega)
        rw [hcons, hsum, ih h.tail]
        congr 1
        omega
      · have hcons : dropFront m (p :: ps) = p.drop m :: ps := if_neg hm
        have hlen : (p.drop m).length = p.length - m := List.length_drop
        rw [hcons, dropFront, dropFront, hlen]
        by_cases hn : p.length - m ≤ n
        · rw [if_pos hn, if_pos (by omega)]
          congr 1
          omega
        · rw [if_neg hn, if_neg (by omega), List.drop_drop]

/-! ## Takes -/

section Takes

/-- What is taken and what is left make up the sequence. -/
theorem front_append (limit : Nat) (ps : List (List α)) : front limit ps ++ (dropFront (front limit ps).length ps).flatten =
    ps.flatten := by
  rw [flatten_dropFront]
  cases ps with
  | nil => rfl
  | cons p ps =>
      have hlen : (p.take limit).length ≤ p.length := by
        rw [List.length_take]
        exact Nat.min_le_right _ _
      rw [front, List.flatten_cons, List.drop_append_of_le_length hlen, ← List.append_assoc,
        List.length_take]
      congr 1
      by_cases hle : p.length ≤ limit
      · rw [Nat.min_eq_right hle, List.drop_length, List.append_nil, List.take_of_length_le hle]
      · rw [Nat.min_eq_left (by omega), List.take_append_drop]

variable {limit : Nat} {ps : List (List α)}

/-- The first take begins at the front. -/
theorem bounds_front {i : Nat} (hi : i < (front limit ps).length) :
    startOf limit ps i = 0 ∧ endOf limit ps i = (front limit ps).length := by
  cases ps with
  | nil => simp [front] at hi
  | cons p ps =>
      rw [front, List.length_take] at hi
      have hdiv : i / limit = 0 := Nat.div_eq_of_lt (by omega)
      rw [startOf, endOf, if_pos (by omega), if_pos (by omega), hdiv, front, List.length_take]
      omega

variable (hlimit : 0 < limit) (h : AllNonempty ps)
include hlimit h

/-- The first read of something is not empty. -/
theorem front_ne_nil (hne : ps ≠ []) : front limit ps ≠ [] := by
  cases ps with
  | nil => exact absurd rfl hne
  | cons p ps =>
      have hp := h.length_pos
      rw [← List.length_pos_iff, front, List.length_take]
      omega

/-- The takes after the first are those of what is left. -/
theorem bounds_after (i : Nat) :
    startOf limit ps ((front limit ps).length + i) =
        (front limit ps).length + startOf limit (dropFront (front limit ps).length ps) i ∧
      endOf limit ps ((front limit ps).length + i) =
        (front limit ps).length + endOf limit (dropFront (front limit ps).length ps) i := by
  cases ps with
  | nil => simp [front, startOf, endOf, dropFront]
  | cons p ps =>
      rw [front, List.length_take, startOf, endOf]
      by_cases hle : p.length ≤ limit
      · have hdrop : dropFront p.length (p :: ps) = ps := by
          rw [dropFront, if_pos (Nat.le_refl _), Nat.sub_self, dropFront_zero h.tail]
        rw [Nat.min_eq_right hle, hdrop, if_neg (by omega), if_neg (by omega),
          Nat.add_sub_cancel_left]
        exact ⟨rfl, rfl⟩
      · have hdrop : dropFront limit (p :: ps) = p.drop limit :: ps := if_neg (by omega)
        have hlen : (p.drop limit).length = p.length - limit := List.length_drop
        rw [Nat.min_eq_left (by omega), hdrop, startOf, endOf, hlen]
        by_cases hi : limit + i < p.length
        · have hdiv : (limit + i) / limit = i / limit + 1 := by
            rw [Nat.add_comm, Nat.add_div_right _ hlimit]
          rw [if_pos hi, if_pos hi, if_pos (by omega), if_pos (by omega), hdiv, Nat.succ_mul]
          omega
        · have hsub : limit + i - p.length = i - (p.length - limit) := by omega
          rw [if_neg hi, if_neg hi, if_neg (by omega), if_neg (by omega), hsub]
          omega

end Takes

/-- A read starts before what it holds. -/
theorem startOf_le (limit : Nat) (ps : List (List α)) (i : Nat) : startOf limit ps i ≤ i := by
  induction ps generalizing i with
  | nil => exact Nat.zero_le i
  | cons p ps ih =>
      unfold startOf
      split
      · exact Nat.div_mul_le_self i limit
      · have := ih (i - p.length)
        omega

/-- A take ends after its elements and within the sequence. -/
theorem endOf_bounds {limit : Nat} (hlimit : 0 < limit) {ps : List (List α)} {i : Nat}
    (hi : i < ps.flatten.length) :
    i < endOf limit ps i ∧ endOf limit ps i ≤ ps.flatten.length := by
  induction ps generalizing i with
  | nil => exact absurd hi (Nat.not_lt_zero i)
  | cons p ps ih =>
      rw [List.flatten_cons, List.length_append] at hi ⊢
      unfold endOf
      split
      · have hdm := Nat.div_add_mod i limit
        have hmod := Nat.mod_lt i hlimit
        rw [Nat.mul_comm] at hdm
        omega
      · obtain ⟨hlt, hle⟩ := ih (i := i - p.length) (by omega)
        omega

/-- Elements between the beginning of a take and one of its elements are in that take. -/
theorem startOf_eq {limit : Nat} (hlimit : 0 < limit) {ps : List (List α)} {i j : Nat}
    (hstart : startOf limit ps i ≤ j) (hji : j ≤ i) : startOf limit ps j = startOf limit ps i := by
  induction ps generalizing i j with
  | nil => rfl
  | cons p ps ih =>
      unfold startOf at hstart ⊢
      by_cases hi : i < p.length
      · rw [if_pos hi] at hstart ⊢
        have hdiv : j / limit = i / limit := by
          refine Nat.le_antisymm (Nat.div_le_div_right hji) ?_
          rwa [Nat.le_div_iff_mul_le hlimit]
        rw [if_pos (by omega), hdiv]
      · rw [if_neg hi] at hstart ⊢
        rw [if_neg (by omega), ih (i := i - p.length) (j := j - p.length) (by omega) (by omega)]

end Pieces
