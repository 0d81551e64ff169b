import GServer.Library.Chunks

/-!
# A flat buffer with a cursor

What a byte buffer is for: one list of elements and a position in it.  A write
overwrites or extends at the cursor, a read returns the next elements, and a
seek goes anywhere up to the end.
-/

namespace Flat

open Chunks

variable {α : Type}

/-- The elements and the cursor, which is at most at the end. -/
@[ext] structure Buffer (α : Type) where
  elems : List α
  cursor : Nat
  cursor_le : cursor ≤ elems.length

namespace Buffer

/-- No elements. -/
def empty : Buffer α :=
  ⟨[], 0, Nat.le_refl 0⟩

/-- The elements from the cursor on. -/
def rest (f : Buffer α) : List α :=
  f.elems.drop f.cursor

/-- After a write the cursor is within the buffer. -/
theorem end_le_length_overwrite (f : Buffer α) (xs : List α) :
    f.cursor + xs.length ≤ (overwrite f.elems f.cursor xs).length := by
  have hcursor := f.cursor_le
  simp only [overwrite, List.length_append, List.length_take, List.length_drop]
  omega

/-- Overwrite or extend at the cursor. -/
def write (f : Buffer α) (xs : List α) : Buffer α where
  elems := overwrite f.elems f.cursor xs
  cursor := f.cursor + xs.length
  cursor_le := f.end_le_length_overwrite xs

/-- The next `n` elements, if there are so many. -/
def read (f : Buffer α) (n : Nat) : Option (List α × Buffer α) :=
  if h : f.cursor + n ≤ f.elems.length then
    some (f.rest.take n, ⟨f.elems, f.cursor + n, h⟩)
  else none

/-- Move the cursor, at most to the end. -/
def seek (f : Buffer α) (pos : Nat) : Option (Buffer α) :=
  if h : pos ≤ f.elems.length then some ⟨f.elems, pos, h⟩ else none

/-- What is left is the length behind the cursor. -/
theorem length_rest (f : Buffer α) : f.rest.length = f.elems.length - f.cursor :=
  List.length_drop

/-- Writing nothing changes nothing. -/
theorem write_nil (f : Buffer α) : f.write [] = f := by
  ext1
  · simp [write, overwrite]
  · rfl

/-- Two writes are one. -/
theorem write_write (f : Buffer α) (xs ys : List α) :
    (f.write xs).write ys = f.write (xs ++ ys) := by
  ext1
  · exact overwrite_overwrite f.cursor_le
  · simp [write, Nat.add_assoc]

/-- After a write the elements from the old cursor on are the written ones and what
they did not overwrite. -/
theorem rest_seek_write (f : Buffer α) (xs : List α) :
    ∃ g, (f.write xs).seek f.cursor = some g ∧ g.cursor = f.cursor ∧
      g.elems = (f.write xs).elems ∧ g.rest = xs ++ f.rest.drop xs.length := by
  have hle : f.cursor ≤ (f.write xs).elems.length :=
    Nat.le_trans (Nat.le_add_right _ _) (f.write xs).cursor_le
  refine ⟨_, dif_pos hle, rfl, rfl, ?_⟩
  have htake : (f.elems.take f.cursor).length = f.cursor := by
    rw [List.length_take, Nat.min_eq_left f.cursor_le]
  simp only [rest, write, overwrite, List.append_assoc, List.drop_drop]
  nth_rewrite 1 [← htake]
  rw [List.drop_left]

end Buffer

end Flat
