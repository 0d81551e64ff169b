import Mathlib.Data.List.Basic

/-!
# Lists in chunks of one size

A buffer that grows is kept as a list of chunks of `b` elements each; its
contents are the chunks one after the other.  `overwrite` replaces a range of a
list, and splits along a boundary between chunks.
-/

namespace Chunks

variable {α : Type}

/-- Every chunk has `b` elements. -/
def Uniform (b : Nat) (chunks : List (List α)) : Prop :=
  ∀ c ∈ chunks, c.length = b

theorem Uniform.head {b : Nat} {c : List α} {chunks : List (List α)}
    (h : Uniform b (c :: chunks)) : c.length = b :=
  h c List.mem_cons_self

theorem Uniform.tail {b : Nat} {c : List α} {chunks : List (List α)}
    (h : Uniform b (c :: chunks)) : Uniform b chunks :=
  fun d hd => h d (List.mem_cons_of_mem c hd)

theorem Uniform.cons {b : Nat} {c : List α} {chunks : List (List α)}
    (hc : c.length = b) (h : Uniform b chunks) : Uniform b (c :: chunks) := by
  intro d hd
  rcases List.mem_cons.mp hd with rfl | hd
  · exact hc
  · exact h d hd

/-- Two lists of equal chunks make one. -/
theorem Uniform.append {b : Nat} {xs ys : List (List α)} (hx : Uniform b xs)
    (hy : Uniform b ys) : Uniform b (xs ++ ys) := by
  intro d hd
  rcases List.mem_append.mp hd with hd | hd
  · exact hx d hd
  · exact hy d hd

theorem Uniform.take {b : Nat} {chunks : List (List α)} (h : Uniform b chunks) (k : Nat) :
    Uniform b (chunks.take k) :=
  fun d hd => h d (List.mem_of_mem_take hd)

theorem Uniform.drop {b : Nat} {chunks : List (List α)} (h : Uniform b chunks) (k : Nat) :
    Uniform b (chunks.drop k) :=
  fun d hd => h d (List.mem_of_mem_drop hd)

/-- The whole is as long as its chunks. -/
theorem Uniform.length_flatten {b : Nat} {chunks : List (List α)} (h : Uniform b chunks) :
    chunks.flatten.length = chunks.length * b := by
  induction chunks with
  | nil => simp
  | cons c chunks ih =>
      rw [List.flatten_cons, List.length_append, h.head, ih h.tail, List.length_cons,
        Nat.succ_mul, Nat.add_comm]

/-- Leaving out chunks leaves out their elements. -/
theorem Uniform.flatten_drop {b : Nat} :
    ∀ {chunks : List (List α)}, Uniform b chunks → ∀ k,
      (chunks.drop k).flatten = chunks.flatten.drop (k * b) := by
  intro chunks
  induction chunks with
  | nil => intro _ k; simp
  | cons c chunks ih =>
      intro h k
      cases k with
      | zero => simp
      | succ k =>
          have hsum : (k + 1) * b = c.length + k * b := by
            rw [h.head, Nat.succ_mul, Nat.add_comm]
          rw [List.drop_succ_cons, ih h.tail, List.flatten_cons, hsum,
            List.drop_length_add_append]

/-- Replace the elements of `l` from position `i` on by `xs`. -/
def overwrite (l : List α) (i : Nat) (xs : List α) : List α :=
  l.take i ++ xs ++ l.drop (i + xs.length)

/-- Overwriting keeps the length. -/
theorem length_overwrite {l xs : List α} {i : Nat} (h : i + xs.length ≤ l.length) :
    (overwrite l i xs).length = l.length := by
  simp only [overwrite, List.length_append, List.length_take, List.length_drop]
  omega

/-- A range within the first part of a list. -/
theorem overwrite_append_left {l r xs : List α} {i : Nat} (h : i + xs.length ≤ l.length) :
    overwrite (l ++ r) i xs = overwrite l i xs ++ r := by
  simp only [overwrite]
  rw [List.take_append_of_le_length (by omega), List.drop_append_of_le_length h]
  simp [List.append_assoc]

/-- A range beyond the first part of a list. -/
theorem overwrite_append_right {l r xs : List α} {i : Nat} :
    overwrite (l ++ r) (l.length + i) xs = l ++ overwrite r i xs := by
  simp only [overwrite, Nat.add_assoc, List.take_length_add_append,
    List.drop_length_add_append, List.append_assoc]

/-- A range across the boundary of the two parts. -/
theorem overwrite_append {l r xs : List α} {i : Nat} (hi : i ≤ l.length)
    (h : l.length ≤ i + xs.length) :
    overwrite (l ++ r) i xs =
      overwrite l i (xs.take (l.length - i)) ++ overwrite r 0 (xs.drop (l.length - i)) := by
  have hleft : l.drop (i + (xs.take (l.length - i)).length) = [] := by
    simp only [List.length_take, List.drop_eq_nil_iff]
    omega
  have hright : (l ++ r).drop (i + xs.length) =
      r.drop (0 + (xs.drop (l.length - i)).length) := by
    have hlen : i + xs.length = l.length + (0 + (xs.drop (l.length - i)).length) := by
      simp only [List.length_drop]
      omega
    rw [hlen, List.drop_length_add_append]
  simp only [overwrite, hleft, hright, List.take_append_of_le_length hi, List.take_zero,
    List.nil_append, List.append_nil]
  conv_lhs => rw [← List.take_append_drop (l.length - i) xs]
  simp only [List.append_assoc, List.take_append_drop]
  rw [← List.append_assoc (xs.take _) (xs.drop _), List.take_append_drop]

theorem overwrite_nil (l : List α) (i : Nat) : overwrite l i [] = l := by
  simp [overwrite]

/-- Two ranges side by side are one. -/
theorem overwrite_overwrite {l xs ys : List α} {i : Nat} (h : i ≤ l.length) :
    overwrite (overwrite l i xs) (i + xs.length) ys = overwrite l i (xs ++ ys) := by
  have hlen : (l.take i ++ xs).length = i + xs.length := by
    rw [List.length_append, List.length_take]
    omega
  simp only [overwrite]
  rw [← hlen, List.take_left, List.drop_length_add_append, List.drop_drop, hlen,
    List.length_append, List.append_assoc, List.append_assoc, Nat.add_assoc]
  simp only [List.append_assoc]

/-- A range of one chunk. -/
theorem Uniform.flatten_modify {b : Nat} {xs : List α} {j : Nat} (hj : j + xs.length ≤ b) :
    ∀ {chunks : List (List α)} {i : Nat}, Uniform b chunks → i < chunks.length →
      (chunks.modify i fun c => overwrite c j xs).flatten =
        overwrite chunks.flatten (i * b + j) xs := by
  intro chunks
  induction chunks with
  | nil => intro i _ hi; exact absurd hi (Nat.not_lt_zero i)
  | cons c chunks ih =>
      intro i h hi
      cases i with
      | zero =>
          rw [List.modify_zero_cons, List.flatten_cons, List.flatten_cons, Nat.zero_mul,
            Nat.zero_add, overwrite_append_left (by rw [h.head]; exact hj)]
      | succ i =>
          have hsum : (i + 1) * b + j = c.length + (i * b + j) := by
            rw [h.head, Nat.succ_mul]
            omega
          rw [List.modify_succ_cons, List.flatten_cons, List.flatten_cons, hsum,
            overwrite_append_right, ih h.tail (Nat.lt_of_succ_lt_succ hi)]

/-- Overwriting within a chunk keeps the chunks equal. -/
theorem Uniform.modify {b : Nat} {xs : List α} {i j : Nat} {chunks : List (List α)}
    (h : Uniform b chunks) (hj : j + xs.length ≤ b) :
    Uniform b (chunks.modify i fun c => overwrite c j xs) := by
  intro d hd
  obtain ⟨k, hk, rfl⟩ := List.mem_iff_getElem.mp hd
  have hk' : k < chunks.length := by simpa using hk
  have hc := h chunks[k] (List.getElem_mem hk')
  rw [List.getElem_modify]
  split
  · rw [length_overwrite (by rw [hc]; exact hj), hc]
  · exact hc

/-- A range that starts within the first `n` elements: what is kept of the list ends
with these elements or with the range. -/
theorem take_overwrite {l xs : List α} {i n : Nat} (hi : i ≤ n) (hn : n ≤ l.length) :
    (overwrite l i xs).take (max n (i + xs.length)) = overwrite (l.take n) i xs := by
  have hlen : (l.take i ++ xs).length = i + xs.length := by
    rw [List.length_append, List.length_take]
    omega
  have hmax : max n (i + xs.length) = (l.take i ++ xs).length + (n - (i + xs.length)) := by
    omega
  rw [overwrite, hmax, List.take_length_add_append, overwrite, List.take_take,
    Nat.min_eq_left hi, List.drop_take]

end Chunks
