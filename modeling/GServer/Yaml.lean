import GServer.HttpParser

/-!
# YAML documents

The documents that the program reads and writes, and the part of the YAML library that
the log configuration uses.  The library itself is a parameter: a node that was loaded
can be asked for its size, its items, its fields and its text, and a call that throws has
no result.
-/

namespace Agent

open Http (Str ascii)

/-- A document of maps, sequences and texts.  A key stands for what `Scalar()` returns of
it. -/
inductive Tree
  | null
  | scalar (text : Str)
  | seq (items : List Tree)
  | map (entries : List (Str × Tree))

/-- Induction over a document: what holds of the parts holds of the whole. -/
@[induction_eliminator]
theorem Tree.ind {motive : Tree → Prop} (null : motive .null)
    (scalar : ∀ text, motive (.scalar text))
    (seq : ∀ items, (∀ item ∈ items, motive item) → motive (.seq items))
    (map : ∀ entries, (∀ e ∈ entries, motive e.2) → motive (.map entries)) :
    ∀ t, motive t
  | .null => null
  | .scalar text => scalar text
  | .seq items => seq items fun item _ => Tree.ind null scalar seq map item
  | .map entries => map entries fun e _ => Tree.ind null scalar seq map e.2
termination_by t => sizeOf t
decreasing_by
  · rename_i hitem
    have := List.sizeOf_lt_of_mem hitem
    simp only [Tree.seq.sizeOf_spec]
    omega
  · rename_i hentry
    have := List.sizeOf_lt_of_mem hentry
    cases e
    simp only [Tree.map.sizeOf_spec, Prod.mk.sizeOf_spec] at this ⊢
    omega

/-- `YAML::Node` and `YAML::Load`; `field` is `none` inside for a field that is not
defined, and `emit` prints a document that was built. -/
structure YamlCpp where
  Node : Type
  load : Str → Option Node
  size : Node → Nat
  index : Node → Nat → Option Node
  field : Node → Str → Option (Option Node)
  asString : Node → Option Str
  emit : Tree → Str

namespace YamlCpp

/-- Asked in any way, the node answers as the document says. -/
inductive Shows (y : YamlCpp) : y.Node → Tree → Prop
  | null {n : y.Node} (hsize : y.size n = 0) : Shows y n .null
  | scalar {n : y.Node} {text : Str} (htext : y.asString n = some text) : Shows y n (.scalar text)
  | seq {n : y.Node} {items : List Tree} (child : Nat → y.Node)
      (hsize : y.size n = items.length)
      (hindex : ∀ i, i < items.length → y.index n i = some (child i))
      (hitems : ∀ i item, items[i]? = some item → Shows y (child i) item) :
      Shows y n (.seq items)
  | map {n : y.Node} {entries : List (Str × Tree)} (child : Str → y.Node)
      (hfield : ∀ key, y.field n key = some ((entries.lookup key).map fun _ => child key))
      (hentries : ∀ key item, entries.lookup key = some item → Shows y (child key) item) :
      Shows y n (.map entries)

/-- What is printed of a document is loaded as that document. -/
def ReadsBack (y : YamlCpp) (t : Tree) : Prop :=
  ∃ n, y.load (y.emit t) = some n ∧ Shows y n t

/-- A library that knows one text, which stands for one document. -/
def knowing (text : Str) (t : Tree) : YamlCpp where
  Node := Tree
  load := fun v => if v = text then some t else none
  size
    | .seq items => items.length
    | .map entries => entries.length
    | _ => 0
  index
    | .seq items, i => items[i]?
    | _, _ => none
  field
    | .map entries, key => some (entries.lookup key)
    | .scalar _, _ => none
    | _, _ => some none
  asString
    | .scalar text => some text
    | _ => none
  emit := fun _ => text

/-- Every document answers as it says. -/
theorem knowing_shows (text : Str) (doc t : Tree) : (knowing text doc).Shows t t := by
  induction t with
  | null => exact .null rfl
  | scalar _ => exact .scalar rfl
  | seq items ih =>
      refine .seq (fun i => items.getD i .null) rfl (fun i hi => ?_) fun i item hitem => ?_
      · have hget : items.getD i .null = items[i] := by simp [hi]
        rw [hget]
        exact List.getElem?_eq_getElem hi
      · have hget : items.getD i .null = item := by simp [hitem]
        rw [hget]
        exact ih item (List.mem_of_getElem? hitem)
  | map entries ih =>
      refine .map (fun key => (entries.lookup key).getD .null) (fun key => ?_)
        fun key item hitem => ?_
      · change some (entries.lookup key) = _
        cases entries.lookup key <;> rfl
      · obtain ⟨before, after, rfl, -⟩ := List.lookup_eq_some_iff.mp hitem
        rw [hitem]
        exact ih (key, item) (by simp)

/-- The library that knows this text reads it back. -/
theorem knowing_readsBack (text : Str) (t : Tree) : (knowing text t).ReadsBack t := by
  refine ⟨t, ?_, knowing_shows text t t⟩
  change (if text = text then some t else none) = some t
  exact if_pos rfl

end YamlCpp

end Agent
