/-!
# Tables over ranges of bytes

A row of a table gives an output to the bytes of a class, a class being a list of
ranges.  A program reads the first row that applies (`lookup`).  A specification is a
table too, but any row that applies may be meant (`Allows`): its rows may overlap.

`refines` compares the rows of two tables without looking at single bytes.  It is
evaluated once for a table, and `allows_of_lookup` is what a proof uses of it.
-/

namespace RangeTables

/-- The bytes from `lo` to `hi`. -/
structure Range where
  lo : Nat
  hi : Nat
deriving DecidableEq

/-- A set of bytes. -/
abbrev ByteClass := List Range

/-- The byte is in one of the ranges. -/
def ByteClass.has (c : ByteClass) (n : Nat) : Bool :=
  c.any fun r => Nat.ble r.lo n && Nat.ble n r.hi

/-- The bytes of a class and what they lead to. -/
structure Row (α : Type) where
  bytes : ByteClass
  out : α

variable {α β : Type}

/-- The output of the first row that applies. -/
def lookup (rows : List (Row α)) (n : Nat) : Option α :=
  (rows.find? fun row => row.bytes.has n).map Row.out

/-- Some row that applies has this output. -/
def Allows (rows : List (Row α)) (n : Nat) (a : α) : Prop :=
  ∃ row ∈ rows, row.bytes.has n = true ∧ row.out = a

@[simp] theorem allows_nil (n : Nat) (a : α) : Allows [] n a ↔ False := by
  simp [Allows]

@[simp] theorem allows_cons (row : Row α) (rows : List (Row α)) (n : Nat) (a : α) :
    Allows (row :: rows) n a ↔ row.bytes.has n = true ∧ row.out = a ∨ Allows rows n a := by
  simp [Allows]

@[simp] theorem allows_append (rows rows' : List (Row α)) (n : Nat) (a : α) :
    Allows (rows ++ rows') n a ↔ Allows rows n a ∨ Allows rows' n a := by
  simp [Allows, or_and_right, exists_or]

/-- Every range of the first class lies in one of the second. -/
def ByteClass.within (c d : ByteClass) : Bool :=
  c.all fun r => d.any fun s => Nat.ble s.lo r.lo && Nat.ble r.hi s.hi

/-- Every row of the table is one of the specification, seen through `f`. -/
def refines [DecidableEq β] (f : α → β) (rows : List (Row α)) (spec : List (Row β)) : Bool :=
  rows.all fun row => spec.any fun s => decide (s.out = f row.out) && row.bytes.within s.bytes

/-- A byte is of the class when one of the ranges has it. -/
theorem ByteClass.has_iff {c : ByteClass} {n : Nat} :
    c.has n = true ↔ ∃ r ∈ c, r.lo ≤ n ∧ n ≤ r.hi := by
  simp only [ByteClass.has, List.any_eq_true, Bool.and_eq_true, Nat.ble_eq]

/-- A smaller class has fewer. -/
theorem ByteClass.has_of_within {c d : ByteClass} {n : Nat} (h : c.within d = true)
    (hn : c.has n = true) : d.has n = true := by
  obtain ⟨r, hr, hlo, hhi⟩ := has_iff.mp hn
  obtain ⟨s, hs, hsr⟩ := List.any_eq_true.mp (List.all_eq_true.mp h r hr)
  simp only [Bool.and_eq_true, Nat.ble_eq] at hsr
  exact has_iff.mpr ⟨s, hs, by omega, by omega⟩

/-- The row that is found allows its answer. -/
theorem allows_of_lookup_self {rows : List (Row α)} {n : Nat} {a : α}
    (h : lookup rows n = some a) : Allows rows n a := by
  obtain ⟨row, hfind, rfl⟩ := Option.map_eq_some_iff.mp h
  have hhas := List.find?_some hfind
  exact ⟨row, List.mem_of_find?_eq_some hfind, hhas, rfl⟩

/-- **A table refines its specification.**  What is read from the table is allowed. -/
theorem allows_of_lookup [DecidableEq β] {f : α → β} {rows : List (Row α)}
    {spec : List (Row β)} (hrefines : refines f rows spec = true) {n : Nat} {a : α}
    (h : lookup rows n = some a) : Allows spec n (f a) := by
  obtain ⟨row, hrow, hn, rfl⟩ := allows_of_lookup_self h
  obtain ⟨s, hs, hmatch⟩ := List.any_eq_true.mp (List.all_eq_true.mp hrefines row hrow)
  simp only [Bool.and_eq_true, decide_eq_true_eq] at hmatch
  exact ⟨s, hs, ByteClass.has_of_within hmatch.2 hn, hmatch.1⟩

/-- Two tables refine when both do. -/
theorem refines_append [DecidableEq β] {f : α → β} {rows rows' : List (Row α)}
    {spec : List (Row β)} (h : refines f rows spec = true) (h' : refines f rows' spec = true) :
    refines f (rows ++ rows') spec = true := by
  rw [refines, List.all_append, Bool.and_eq_true]
  exact ⟨h, h'⟩

/-- Rows that do not apply may be left out at the end. -/
theorem lookup_append_of_forall {rows extra : List (Row α)} {n : Nat}
    (h : ∀ row ∈ extra, row.bytes.has n = false) : lookup (rows ++ extra) n = lookup rows n := by
  have hnone : extra.find? (fun row => row.bytes.has n) = none :=
    List.find?_eq_none.mpr fun row hrow => by rw [h row hrow]; exact Bool.false_ne_true
  rw [lookup, lookup, List.find?_append, hnone, Option.or_none]

/-- Rows behind are not looked at. -/
theorem lookup_append_of_some {rows : List (Row α)} {n : Nat} {a : α}
    (h : lookup rows n = some a) (extra : List (Row α)) : lookup (rows ++ extra) n = some a := by
  obtain ⟨row, hfind, rfl⟩ := Option.map_eq_some_iff.mp h
  rw [lookup, List.find?_append, hfind]
  rfl

/-- The bytes of a range all find a row with this output: the range lies in one row and
meets none before it. -/
def rangeLeads [DecidableEq α] : List (Row α) → Range → α → Bool
  | [], _, _ => false
  | row :: rows, r, a =>
      if ByteClass.within [r] row.bytes then decide (row.out = a)
      else (row.bytes.all fun s => Nat.blt r.hi s.lo || Nat.blt s.hi r.lo) && rangeLeads rows r a

/-- The same for all ranges of a class. -/
def classLeads [DecidableEq α] (rows : List (Row α)) (c : ByteClass) (a : α) : Bool :=
  c.all fun r => rangeLeads rows r a

/-- A range that leads somewhere does so for each of its bytes. -/
theorem lookup_of_rangeLeads [DecidableEq α] {rows : List (Row α)} {r : Range} {a : α} {n : Nat}
    (h : rangeLeads rows r a = true) (hlo : r.lo ≤ n) (hhi : n ≤ r.hi) :
    lookup rows n = some a := by
  induction rows with
  | nil => exact absurd h Bool.false_ne_true
  | cons row rows ih =>
      rw [rangeLeads] at h
      split at h
      · next hin =>
          have hhas : row.bytes.has n = true :=
            ByteClass.has_of_within hin
              (ByteClass.has_iff.mpr ⟨r, List.mem_singleton_self r, hlo, hhi⟩)
          simp only [lookup, List.find?_cons, hhas, Option.map_some]
          exact congrArg some (of_decide_eq_true h)
      · rw [Bool.and_eq_true] at h
        have hnot : row.bytes.has n = false := by
          refine Bool.eq_false_iff.mpr fun hhas => ?_
          obtain ⟨s, hs, hslo, hshi⟩ := ByteClass.has_iff.mp hhas
          have hapart := List.all_eq_true.mp h.1 s hs
          simp only [Bool.or_eq_true, Nat.blt_eq] at hapart
          omega
        simp only [lookup, List.find?_cons, hnot]
        exact ih h.2

/-- **What the bytes of a class find.** -/
theorem lookup_of_classLeads [DecidableEq α] {rows : List (Row α)} {c : ByteClass} {a : α}
    (h : classLeads rows c a = true) {n : Nat} (hn : c.has n = true) :
    lookup rows n = some a := by
  obtain ⟨r, hr, hlo, hhi⟩ := ByteClass.has_iff.mp hn
  exact lookup_of_rangeLeads (List.all_eq_true.mp h r hr) hlo hhi

end RangeTables
