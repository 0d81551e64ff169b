import Mathlib.Logic.Function.Basic

/-!
# Threads that switch between stacks

Threads execute on stacks and switch by saving a context and loading another.  A
context is a position: the stack and how often the stack had been left when the
context was saved.  Every stack has a slot that contexts are saved in, but nothing in
`swap` makes a thread save in the slot of the stack it leaves, nor load a position that
is still the last one.

`Sound` says that a thread is alone on its stack, at the last position of it, and that
a stack nobody executes on has its last position in its own slot.  `Sound.swap` is the
rule for a thread that saves in its own slot and loads from that of a free stack.
-/

namespace StackSwitching

/-- A position on a stack. -/
structure Position (K : Type) where
  stack : K
  turn : Nat
deriving DecidableEq

/-- `left` counts how often a stack has been left or made anew. -/
structure Machine (T K : Type) where
  on : T → Option (Position K)
  left : K → Nat
  slot : K → Option (Position K)

namespace Machine

variable {T K : Type}

/-- No thread executes on a stack, and none is saved. -/
def empty : Machine T K :=
  { on := fun _ => none, left := fun _ => 0, slot := fun _ => none }

/-- The stack that a thread executes on. -/
def stack (m : Machine T K) (t : T) : Option K :=
  (m.on t).map Position.stack

/-- No thread executes on the stack. -/
def Free (m : Machine T K) (k : K) : Prop :=
  ∀ t, m.stack t ≠ some k

section Operations

variable [DecidableEq T] [DecidableEq K]

/-- `getcontext` on the stack of a thread. -/
def adopt (m : Machine T K) (t : T) (k : K) : Machine T K :=
  { m with
    on := Function.update m.on t (some ⟨k, m.left k⟩)
    slot := Function.update m.slot k (some ⟨k, m.left k⟩) }

/-- `makecontext`: the beginning of a new stack. -/
def make (m : Machine T K) (k : K) : Machine T K :=
  { m with
    left := Function.update m.left k (m.left k + 1)
    slot := Function.update m.slot k (some ⟨k, m.left k + 1⟩) }

/-- The thread leaves its stack with the position saved in the slot `save`. -/
def saved (m : Machine T K) (p : Position K) (save : K) : Machine T K :=
  { m with
    left := Function.update m.left p.stack (m.left p.stack + 1)
    slot := Function.update m.slot save (some ⟨p.stack, m.left p.stack + 1⟩) }

/-- `swapcontext(&save, &load)`. -/
def swap (m : Machine T K) (t : T) (save load : K) : Option (Machine T K) :=
  match m.on t with
  | none => none
  | some p =>
      match (m.saved p save).slot load with
      | none => none
      | some q => some { m.saved p save with on := Function.update m.on t (some q) }

end Operations

/-- Every thread is alone on its stack and at the last position of it; a slot holds
positions of its own stack, the last one if nobody executes on it. -/
structure Sound (m : Machine T K) : Prop where
  alone : ∀ t u k, m.stack t = some k → m.stack u = some k → t = u
  current : ∀ t p, m.on t = some p → p.turn = m.left p.stack
  owned : ∀ k p, m.slot k = some p → p.stack = k
  kept : ∀ k p, m.slot k = some p → m.Free k → p.turn = m.left k

/-- Nobody is anywhere. -/
theorem Sound.empty : Sound (empty : Machine T K) where
  alone _ _ _ ht := by simp [Machine.empty, stack] at ht
  current _ _ ht := by simp [Machine.empty] at ht
  owned _ _ hk := by simp [Machine.empty] at hk
  kept _ _ hk := by simp [Machine.empty] at hk

/-- A thread is on the stack of its position. -/
theorem stack_of_on {m : Machine T K} {t : T} {p : Position K} (h : m.on t = some p) :
    m.stack t = some p.stack := by
  rw [stack, h]
  rfl

section Rules

variable [DecidableEq T] [DecidableEq K] {m m' : Machine T K} {t : T} {k : K} {n : Nat}

omit [DecidableEq K] in
/-- The thread is at a new position, every other thread where it was. -/
theorem stack_update (hon : m'.on = Function.update m.on t (some ⟨k, n⟩)) (u : T) :
    m'.stack u = if u = t then some k else m.stack u := by
  rw [stack, hon]
  by_cases hu : u = t
  · subst hu
    rw [Function.update_self, if_pos rfl]
    rfl
  · rw [Function.update_of_ne hu, if_neg hu]
    rfl

omit [DecidableEq K] in
/-- A thread that goes to a stack nobody else is on is alone there. -/
theorem alone_update (h : m.Sound) (hon : m'.on = Function.update m.on t (some ⟨k, n⟩))
    (hk : ∀ u, u ≠ t → m.stack u ≠ some k) (u v : T) (j : K) (hu : m'.stack u = some j)
    (hv : m'.stack v = some j) : u = v := by
  rw [stack_update hon] at hu hv
  by_cases hut : u = t
  · by_cases hvt : v = t
    · rw [hut, hvt]
    · rw [if_pos hut] at hu
      rw [if_neg hvt] at hv
      exact absurd (hv.trans hu.symm) (hk v hvt)
  · rw [if_neg hut] at hu
    by_cases hvt : v = t
    · rw [if_pos hvt] at hv
      exact absurd (hu.trans hv.symm) (hk u hut)
    · rw [if_neg hvt] at hv
      exact h.alone u v j hu hv

/-- A thread that was on no stack begins on one of its own. -/
theorem Sound.adopt (h : m.Sound) (ht : m.on t = none) (hk : m.Free k) :
    (m.adopt t k).Sound := by
  have hon : (m.adopt t k).on = Function.update m.on t (some ⟨k, m.left k⟩) := rfl
  refine ⟨alone_update h hon fun u _ => hk u, fun u p hu => ?_, fun j p hj => ?_,
    fun j p hj hfree => ?_⟩
  · by_cases hut : u = t
    · subst hut
      obtain rfl : ⟨k, m.left k⟩ = p := by simpa [Machine.adopt] using hu
      rfl
    · exact h.current u p (by simpa [Machine.adopt, hut] using hu)
  · by_cases hjk : j = k
    · subst hjk
      obtain rfl : ⟨j, m.left j⟩ = p := by simpa [Machine.adopt] using hj
      rfl
    · exact h.owned j p (by simpa [Machine.adopt, hjk] using hj)
  · have hjk : j ≠ k := by
      intro heq
      apply hfree t
      rw [stack_update hon, if_pos rfl, heq]
    refine h.kept j p (by simpa [Machine.adopt, hjk] using hj) fun u hu => hfree u ?_
    have hut : u ≠ t := by
      intro heq
      rw [stack, heq, ht] at hu
      cases hu
    rw [stack_update hon, if_neg hut, hu]

omit [DecidableEq T] in
/-- A stack nobody executes on may be made anew. -/
theorem Sound.make (h : m.Sound) (hk : m.Free k) : (m.make k).Sound := by
  refine ⟨h.alone, fun u p hu => ?_, fun j p hj => ?_, fun j p hj hfree => ?_⟩
  · have hpk : p.stack ≠ k := by
      intro heq
      apply hk u
      have hstack : m.stack u = some p.stack := stack_of_on hu
      rw [hstack, heq]
    have hleft : (m.make k).left p.stack = m.left p.stack := Function.update_of_ne hpk _ _
    rw [hleft]
    exact h.current u p hu
  · by_cases hjk : j = k
    · subst hjk
      obtain rfl : ⟨j, m.left j + 1⟩ = p := by simpa [Machine.make] using hj
      rfl
    · exact h.owned j p (by simpa [Machine.make, hjk] using hj)
  · by_cases hjk : j = k
    · subst hjk
      obtain rfl : ⟨j, m.left j + 1⟩ = p := by simpa [Machine.make] using hj
      simp [Machine.make]
    · have hkept : p.turn = m.left j := h.kept j p (by simpa [Machine.make, hjk] using hj) hfree
      simpa [Machine.make, hjk] using hkept

/-- **The switch.**  A thread that saves in the slot of its own stack and loads from the
slot of a free one goes on at the last position of that one. -/
theorem Sound.swap (h : m.Sound) (ht : m.stack t = some k) {load : K}
    (hslot : (m.slot load).isSome = true) (hfree : m.Free load) :
    ∃ m', m.swap t k load = some m' ∧ m'.Sound ∧
      m'.on = Function.update m.on t (some ⟨load, m'.left load⟩) ∧
      (∀ j, (m'.slot j).isSome = (if j = k then true else (m.slot j).isSome)) := by
  obtain ⟨p, hon, rfl⟩ := Option.map_eq_some_iff.mp ht
  obtain ⟨q, hq⟩ := Option.isSome_iff_exists.mp hslot
  have hne : load ≠ p.stack := fun heq => hfree t (heq ▸ ht)
  obtain ⟨j, n⟩ := q
  obtain rfl : j = load := h.owned load _ hq
  have hn : n = m.left j := h.kept j _ hq hfree
  subst hn
  have hsaved : (m.saved p p.stack).slot j = some ⟨j, m.left j⟩ := by
    simpa [saved, hne] using hq
  have hleft : (m.saved p p.stack).left j = m.left j := Function.update_of_ne hne _ _
  have hmoved : ({ m.saved p p.stack with
      on := Function.update m.on t (some ⟨j, m.left j⟩) } : Machine T K).on =
      Function.update m.on t (some ⟨j, m.left j⟩) := rfl
  refine ⟨{ m.saved p p.stack with on := Function.update m.on t (some ⟨j, m.left j⟩) },
    ?_, ⟨alone_update h hmoved fun u _ => hfree u, fun u r hu => ?_, fun i r hi => ?_,
      fun i r hi hfree' => ?_⟩, ?_, fun i => ?_⟩
  · rw [Machine.swap, hon]
    simp only [hsaved]
  · by_cases hut : u = t
    · subst hut
      obtain rfl : ⟨j, m.left j⟩ = r := by simpa using hu
      exact hleft.symm
    · have hur : m.on u = some r := by simpa [hut] using hu
      have hother : r.stack ≠ p.stack := by
        intro heq
        apply hut
        apply h.alone u t p.stack _ ht
        rw [stack_of_on hur, heq]
      have hcurrent := h.current u r hur
      simpa [saved, hother] using hcurrent
  · by_cases hip : i = p.stack
    · subst hip
      obtain rfl : ⟨p.stack, m.left p.stack + 1⟩ = r := by simpa [saved] using hi
      rfl
    · exact h.owned i r (by simpa [saved, hip] using hi)
  · by_cases hip : i = p.stack
    · subst hip
      obtain rfl : ⟨p.stack, m.left p.stack + 1⟩ = r := by simpa [saved] using hi
      simp [saved]
    · have hkept : r.turn = m.left i := by
        refine h.kept i r (by simpa [saved, hip] using hi) fun u hu => ?_
        by_cases hut : u = t
        · rw [hut, ht] at hu
          exact hip (Option.some.inj hu).symm
        · apply hfree' u
          rw [stack_update hmoved, if_neg hut, hu]
      simpa [saved, hip] using hkept
  · exact hmoved.trans (by rw [← hleft])
  · by_cases hip : i = p.stack
    · subst hip
      simp [saved]
    · simp [saved, hip]

end Rules

end Machine

end StackSwitching
