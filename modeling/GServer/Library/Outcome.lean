/-!
# Programs that may throw or fault

A call on a state of type `σ` returns a value, throws an exception and leaves a
state behind, or faults: it accesses memory that it must not, and there is no
state to go on with.  `Program σ α` is a program made of such calls.  The rules
give the outcome of a sequence from that of its first part.
-/

namespace Faults

/-- How a call ends. -/
inductive Outcome (σ α : Type)
  | ok (a : α) (s : σ)
  | throws (s : σ)
  | fault

namespace Outcome

variable {σ α β : Type}

/-- The state that is left, if any. -/
def state? : Outcome σ α → Option σ
  | ok _ s => some s
  | throws s => some s
  | fault => none

/-- The state that an exception leaves. -/
def thrown? : Outcome σ α → Option σ
  | ok _ _ => none
  | throws s => some s
  | fault => none

/-- Change the returned value. -/
def map (f : α → β) : Outcome σ α → Outcome σ β
  | ok a s => ok (f a) s
  | throws s => throws s
  | fault => fault

/-- Go on with the returned value. -/
def bind : Outcome σ α → (α → σ → Outcome σ β) → Outcome σ β
  | ok a s, f => f a s
  | throws s, _ => throws s
  | fault, _ => fault

@[simp] theorem map_ok (f : α → β) (a : α) (s : σ) : (ok a s).map f = ok (f a) s := rfl

@[simp] theorem map_throws (f : α → β) (s : σ) :
    (throws s : Outcome σ α).map f = throws s := rfl

@[simp] theorem thrown?_map (f : α → β) (o : Outcome σ α) : (o.map f).thrown? = o.thrown? := by
  cases o <;> rfl

/-- What was thrown is what the outcome says. -/
theorem thrown?_eq_some {o : Outcome σ α} {s : σ} : o.thrown? = some s ↔ o = throws s := by
  cases o <;> simp [thrown?]

end Outcome

/-- A program on states of type `σ`. -/
def Program (σ α : Type) : Type := σ → Outcome σ α

namespace Program

variable {σ α β : Type}

instance : Monad (Program σ) where
  pure a := fun s => .ok a s
  bind x f := fun s => (x s).bind f

section Sequences

variable {x : Program σ α} {f : α → Program σ β} {s s' : σ} {a : α}

/-- Where the first part returns, the sequence goes on. -/
theorem bind_of_ok (h : x s = .ok a s') : (x >>= f) s = f a s' := by
  change (x s).bind (fun a => f a) = f a s'
  rw [h]
  rfl

/-- Where the first part throws, so does the sequence. -/
theorem bind_of_throws (h : x s = .throws s') : (x >>= f) s = .throws s' := by
  change (x s).bind (fun a => f a) = .throws s'
  rw [h]
  rfl

/-- Where the first part faults, so does the sequence. -/
theorem bind_of_fault (h : x s = .fault) : (x >>= f) s = .fault := by
  change (x s).bind (fun a => f a) = .fault
  rw [h]
  rfl

/-- A sequence that returns has a first part that does. -/
theorem bind_eq_ok {b : β} {s'' : σ} (h : (x >>= f) s = .ok b s'') :
    ∃ a s', x s = .ok a s' ∧ f a s' = .ok b s'' := by
  cases hx : x s with
  | ok a s' => exact ⟨a, s', rfl, (bind_of_ok hx).symm.trans h⟩
  | throws s' => cases (bind_of_throws hx).symm.trans h
  | fault => cases (bind_of_fault hx).symm.trans h

end Sequences

/-- Sequences associate. -/
theorem bind_assoc {γ : Type} (x : Program σ α) (f : α → Program σ β) (g : β → Program σ γ) :
    x >>= f >>= g = x >>= fun a => f a >>= g := by
  funext s
  change ((x s).bind fun a => f a).bind (fun b => g b) = (x s).bind fun a s => (f a s).bind fun b => g b
  cases x s <;> rfl

end Program

end Faults
