/-!
# Scoped locks in one thread

A thread uses data under a lock by way of guards: making a guard acquires the
lock, and leaving its scope releases it, by a return or by an exception.  What
acquiring and releasing do is a matter of the lock.

Two locks are given.  A `StrictLock` keeps to the rules: acquiring it while the
thread holds it, or releasing it while the thread does not, ends the program.  A
`CountingLock` is what the read-write lock of the GNU C library makes of such calls
when one thread alone uses it and looks at no return value.  A program is balanced if
from a free strict lock it never ends so and leaves the lock free.
-/

namespace Guards

/-- How a lock is acquired. -/
inductive Mode
  | read
  | write
deriving DecidableEq

/-- A lock as its thread sees it; `none` where the thread does not go on. -/
class Lock (L : Type) where
  acquire : Mode → L → Option L
  release : L → Option L

/-- The data and their lock. -/
structure Guarded (L σ : Type) where
  data : σ
  lock : L

/-- A program returns or throws, or its thread does not go on. -/
def Program (L σ ε α : Type) : Type :=
  Guarded L σ → Option (Except ε α × Guarded L σ)

namespace Program

section Programs

variable {L σ ε α β : Type}

/-- Use the data; no lock is touched. -/
def access (f : σ → Except ε α × σ) : Program L σ ε α := fun s =>
  some ((f s.data).1, { s with data := (f s.data).2 })

/-- The second program after the first, unless that throws. -/
def bind (p : Program L σ ε α) (q : α → Program L σ ε β) : Program L σ ε β := fun s =>
  match p s with
  | none => none
  | some (.ok a, s) => q a s
  | some (.error e, s) => some (.error e, s)

/-- Return what `handle` makes of the exceptions that it catches. -/
def catching (handle : ε → Option α) (p : Program L σ ε α) : Program L σ ε α := fun s =>
  match p s with
  | some (.error e, s) =>
      match handle e with
      | none => some (.error e, s)
      | some a => some (.ok a, s)
  | out => out

/-- Run `p` in the scope of a guard. -/
def withGuard [Lock L] (mode : Mode) (p : Program L σ ε α) : Program L σ ε α := fun s =>
  match Lock.acquire mode s.lock with
  | none => none
  | some lock =>
      match p { s with lock := lock } with
      | none => none
      | some (r, s) =>
          match Lock.release s.lock with
          | none => none
          | some lock => some (r, { s with lock := lock })

/-- What a guard does around a program, once its lock is known to be acquired and
released. -/
theorem withGuard_eq [Lock L] {mode : Mode} {p : Program L σ ε α} {s s' : Guarded L σ}
    {lock lock' : L} {r : Except ε α} (hacquire : Lock.acquire mode s.lock = some lock)
    (hrun : p { s with lock := lock } = some (r, s'))
    (hrelease : Lock.release s'.lock = some lock') :
    withGuard mode p s = some (r, { s' with lock := lock' }) := by
  simp only [withGuard, hacquire, hrun, hrelease]

end Programs

end Program

/-! ## A lock with rules -/

/-- How the thread holds the lock, if it does. -/
structure StrictLock where
  held : Option Mode
deriving DecidableEq

namespace StrictLock

/-- Nobody holds the lock. -/
def free : StrictLock := ⟨none⟩

instance : Lock StrictLock where
  acquire mode lock :=
    match lock.held with
    | none => some ⟨some mode⟩
    | some _ => none
  release lock :=
    match lock.held with
    | none => none
    | some _ => some ⟨none⟩

end StrictLock

namespace Program

variable {σ ε α β : Type}

/-- The program goes on and leaves the lock as it is. -/
def Quiet (p : Program StrictLock σ ε α) : Prop :=
  ∀ s, ∃ r s', p s = some (r, s') ∧ s'.lock = s.lock

/-- From a free lock the program goes on and leaves the lock free. -/
def Balanced (p : Program StrictLock σ ε α) : Prop :=
  ∀ s, s.lock = .free → ∃ r s', p s = some (r, s') ∧ s'.lock = .free

/-- An access takes no lock. -/
theorem quiet_access (f : σ → Except ε α × σ) : Quiet (access f) :=
  fun _ => ⟨_, _, rfl, rfl⟩

/-- A quiet program is balanced. -/
theorem Quiet.balanced {p : Program StrictLock σ ε α} (h : Quiet p) : Balanced p := by
  intro s hfree
  obtain ⟨r, s', hrun, hlock⟩ := h s
  exact ⟨r, s', hrun, hlock.trans hfree⟩

/-- The guard's scope releases what its beginning has acquired. -/
theorem Quiet.withGuard {p : Program StrictLock σ ε α} (h : Quiet p) (mode : Mode) :
    Balanced (withGuard mode p) := by
  intro s hfree
  obtain ⟨r, s', hrun, hlock⟩ := h { s with lock := ⟨some mode⟩ }
  have hacquire : Lock.acquire mode s.lock = some ⟨some mode⟩ := by rw [hfree]; rfl
  have hrelease : Lock.release s'.lock = some StrictLock.free := by rw [hlock]; rfl
  exact ⟨r, _, withGuard_eq hacquire hrun hrelease, rfl⟩

/-- Two balanced programs one after the other are balanced. -/
theorem Balanced.bind {p : Program StrictLock σ ε α} {q : α → Program StrictLock σ ε β}
    (hp : Balanced p) (hq : ∀ a, Balanced (q a)) : Balanced (bind p q) := by
  intro s hfree
  obtain ⟨r, s₁, hrun, hlock⟩ := hp s hfree
  cases r with
  | ok a =>
      obtain ⟨r', s', hrun', hlock'⟩ := hq a s₁ hlock
      exact ⟨r', s', by simp only [Program.bind, hrun, hrun'], hlock'⟩
  | error e => exact ⟨.error e, s₁, by simp only [Program.bind, hrun], hlock⟩

/-- A balanced program stays so when its exceptions are caught. -/
theorem Balanced.catching {p : Program StrictLock σ ε α} (hp : Balanced p)
    (handle : ε → Option α) : Balanced (catching handle p) := by
  intro s hfree
  obtain ⟨r, s', hrun, hlock⟩ := hp s hfree
  cases r with
  | ok a => exact ⟨.ok a, s', by simp only [Program.catching, hrun], hlock⟩
  | error e =>
      cases hhandle : handle e with
      | none => exact ⟨.error e, s', by simp only [Program.catching, hrun, hhandle], hlock⟩
      | some a => exact ⟨.ok a, s', by simp only [Program.catching, hrun, hhandle], hlock⟩

/-- **No second guard.**  In the scope of a guard no other can be made. -/
theorem withGuard_of_held {s : Guarded StrictLock σ} (h : s.lock ≠ .free) (mode : Mode)
    (p : Program StrictLock σ ε α) : withGuard mode p s = none := by
  obtain ⟨data, held⟩ := s
  cases held with
  | mk held =>
      cases held with
      | none => exact absurd rfl h
      | some held => rfl

end Program

/-! ## A lock that counts -/

/-- Whether the thread is the writer, and the count of the readers. -/
structure CountingLock where
  writing : Bool
  readers : Int
deriving DecidableEq

namespace CountingLock

/-- Nobody holds the lock. -/
def free : CountingLock := ⟨false, 0⟩

/-- The lock has been released once too often: a reader is missing. -/
def broken : CountingLock := ⟨false, -1⟩

/-- A writer that acquires the lock again is refused, and goes on.  It waits for ever for
readers that are counted, since the thread is alone.  A thread that is not the writer
releases the lock as a reader. -/
instance : Lock CountingLock where
  acquire mode lock :=
    if lock.writing then some lock
    else
      match mode with
      | .read => some { lock with readers := lock.readers + 1 }
      | .write => if lock.readers = 0 then some { lock with writing := true } else none
  release lock :=
    if lock.writing then some { lock with writing := false }
    else some { lock with readers := lock.readers - 1 }

end CountingLock

section Counting

variable {σ ε α : Type}

/-- Under a broken lock no write guard is ever made. -/
theorem Program.write_of_broken {s : Guarded CountingLock σ} (h : s.lock = .broken)
    (p : Program CountingLock σ ε α) : withGuard .write p s = none := by
  obtain ⟨data, lock⟩ := s
  cases h
  rfl

end Counting

end Guards
