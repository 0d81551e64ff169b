import Mathlib.Data.Finset.Basic
import Mathlib.Logic.Function.Basic

/-!
# Read-write locks

A lock has a set of readers or one writer.  `hold t` says how the program counter
of the thread `t` has the lock, and `Agrees lock hold` that the lock knows it.  The
four operations keep them in agreement, and a writer is alone.
-/

namespace RwLocks

/-- How a thread has the lock. -/
inductive Hold
  | none
  | read
  | write
deriving DecidableEq

/-- The threads that have the lock. -/
structure RwLock (T : Type) where
  readers : Finset T
  writer : Option T

namespace RwLock

variable {T : Type}

/-- Nobody has the lock. -/
def free : RwLock T := { readers := ∅, writer := none }

section Operations

variable [DecidableEq T]

/-- Acquire the lock for reading, where nobody writes. -/
def rdlock (lock : RwLock T) (t : T) : Option (RwLock T) :=
  if lock.writer = none then some { lock with readers := insert t lock.readers } else none

/-- Acquire the lock for writing, where nobody has it. -/
def wrlock (lock : RwLock T) (t : T) : Option (RwLock T) :=
  if lock.writer = none ∧ lock.readers = ∅ then some { lock with writer := some t } else none

/-- Release the lock after reading. -/
def rdunlock (lock : RwLock T) (t : T) : RwLock T :=
  { lock with readers := lock.readers.erase t }

/-- Release the lock after writing. -/
def wrunlock (lock : RwLock T) : RwLock T :=
  { lock with writer := none }

end Operations

/-- The lock knows who has it, and a writer has it alone. -/
structure Agrees (lock : RwLock T) (hold : T → Hold) : Prop where
  read_iff : ∀ t, t ∈ lock.readers ↔ hold t = .read
  write_iff : ∀ t, lock.writer = some t ↔ hold t = .write
  alone : lock.writer ≠ none → lock.readers = ∅

section Agrees

variable {lock lock' : RwLock T} {hold : T → Hold} {t u : T}

/-- A free lock is held by nobody. -/
theorem agrees_free : Agrees (free : RwLock T) fun _ => .none where
  read_iff _ := by simp [free]
  write_iff _ := by simp [free]
  alone h := absurd rfl h

/-- **Exclusion.**  While one thread writes no other has the lock. -/
theorem Agrees.exclusive (h : Agrees lock hold) (ht : hold t = .write)
    (hu : hold u ≠ .none) : u = t := by
  have hwriter := (h.write_iff t).mpr ht
  cases hhold : hold u with
  | none => exact absurd hhold hu
  | read =>
      have hmem := (h.read_iff u).mpr hhold
      rw [h.alone (by simp [hwriter])] at hmem
      simp at hmem
  | write =>
      have hwriter' := (h.write_iff u).mpr hhold
      exact Option.some.inj (hwriter'.symm.trans hwriter)

/-- Where the lock is free for a writer, nobody has it. -/
theorem Agrees.hold_none (h : Agrees lock hold) (hwriter : lock.writer = none)
    (hreaders : lock.readers = ∅) (t : T) : hold t = .none := by
  cases hhold : hold t with
  | none => rfl
  | read =>
      have hmem := (h.read_iff t).mpr hhold
      simp [hreaders] at hmem
  | write =>
      have hsome := (h.write_iff t).mpr hhold
      simp [hwriter] at hsome

variable [DecidableEq T]

/-- A thread that keeps what it holds changes nothing. -/
theorem Agrees.keep (h : Agrees lock hold) {mine : Hold} (ht : mine = hold t) :
    Agrees lock (Function.update hold t mine) := by
  rw [ht, Function.update_eq_self]
  exact h

/-- After a reader has come the lock agrees with the holders. -/
theorem Agrees.rdlock (h : Agrees lock hold) (hlock : lock.rdlock t = some lock') :
    Agrees lock' (Function.update hold t .read) := by
  unfold RwLock.rdlock at hlock
  split at hlock
  · rename_i hwriter
    cases hlock
    refine ⟨fun u => ?_, fun u => ?_, fun hne => absurd hwriter hne⟩
    · by_cases hu : u = t
      · simp [hu]
      · simp [hu, h.read_iff u]
    · by_cases hu : u = t
      · simp [hu, hwriter]
      · simpa [Function.update_of_ne hu] using h.write_iff u
  · cases hlock

/-- After a writer has come the lock agrees with the holders. -/
theorem Agrees.wrlock (h : Agrees lock hold) (hlock : lock.wrlock t = some lock') :
    Agrees lock' (Function.update hold t .write) := by
  unfold RwLock.wrlock at hlock
  split at hlock
  · rename_i hfree
    cases hlock
    have hnone := h.hold_none hfree.1 hfree.2
    refine ⟨fun u => ?_, fun u => ?_, fun _ => hfree.2⟩
    · by_cases hu : u = t
      · simp [hu, hfree.2]
      · simp [Function.update_of_ne hu, hnone u, hfree.2]
    · by_cases hu : u = t
      · simp [hu]
      · simp [Function.update_of_ne hu, hnone u, Ne.symm hu]
  · cases hlock

/-- After a reader has gone the lock agrees with the holders. -/
theorem Agrees.rdunlock (h : Agrees lock hold) (ht : hold t = .read) :
    Agrees (lock.rdunlock t) (Function.update hold t .none) := by
  refine ⟨fun u => ?_, fun u => ?_, fun hne => ?_⟩
  · by_cases hu : u = t
    · simp [RwLock.rdunlock, hu]
    · simp [RwLock.rdunlock, hu, h.read_iff u]
  · by_cases hu : u = t
    · have hnot : lock.writer ≠ some t := by
        rw [ne_eq, h.write_iff t, ht]
        simp
      simpa [RwLock.rdunlock, hu] using hnot
    · simpa [RwLock.rdunlock, Function.update_of_ne hu] using h.write_iff u
  · simp [RwLock.rdunlock, h.alone hne]

/-- After a writer has gone the lock agrees with the holders. -/
theorem Agrees.wrunlock (h : Agrees lock hold) (ht : hold t = .write) :
    Agrees lock.wrunlock (Function.update hold t .none) := by
  have hreaders := h.alone (by simp [(h.write_iff t).mpr ht])
  refine ⟨fun u => ?_, fun u => ?_, fun hne => absurd rfl hne⟩
  · by_cases hu : u = t
    · simp [RwLock.wrunlock, hu, hreaders]
    · simpa [RwLock.wrunlock, Function.update_of_ne hu] using h.read_iff u
  · by_cases hu : u = t
    · simp [RwLock.wrunlock, hu]
    · have hnot : hold u ≠ .write := fun hwrite => hu (h.exclusive ht (by simp [hwrite]))
      simp [RwLock.wrunlock, Function.update_of_ne hu, hnot]

end Agrees

end RwLock

end RwLocks
