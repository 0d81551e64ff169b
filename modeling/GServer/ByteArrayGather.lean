import GServer.ByteArrayRefinement
import GServer.ByteArrayReadAt

/-!
# The ranges at a position

`getReadBuffers(buffers, len, position)` lists the ranges from any position, which it
finds from the root.  It cuts the length to the number of bytes after the cursor and
not to those after `position`: behind the cursor it lists less than there is, and
before it more, up to the end of the nodes or over it.
-/

namespace Agent

open Faults Runs Chunks

namespace ByteArray

/-- `ByteArray::getReadBuffers` at a position.  The walk from the root and the loop
fault where they go through a null pointer. -/
def getReadBuffersAt (len position : Nat) : Op (Nat × List IoVec) := fun s =>
  let len := min len s.getReadSize
  if len = 0 then .ok (0, []) s
  else
    let count := position / s.baseSize
    match buffersLoop (s.nodes.drop count) count (position % s.baseSize) len with
    | none => .fault
    | some buffers => .ok (len, buffers) s

/-- What the list of ranges at a position should be. -/
structure Gathers (s : ByteArray) (len position : Nat) (r : Nat × List IoVec) : Prop where
  /-- The total is what there is at the position, at most `len`. -/
  total : r.1 = min len (s.size - position)
  /-- The ranges lie in their nodes. -/
  inside : ∀ v ∈ r.2, v.Inside s.nodes
  /-- Together they are the stored bytes from the position on. -/
  bytes : r.2.flatMap (fun v => v.bytes s.nodes) =
    (s.data.drop position).take (min len (s.size - position))
  /-- No byte at or beyond the size is listed. -/
  below : ∀ i ∈ r.2.flatMap (fun v => v.positions s.baseSize), i < s.size
  /-- At the cursor it is the list of the other overload. -/
  same : position = s.position → getReadBuffers len s = .ok r s

/-- The call returns such a list and changes nothing. -/
def GathersAt (s : ByteArray) (len position : Nat) : Prop :=
  ∃ r, getReadBuffersAt len position s = .ok r s ∧ Gathers s len position r

/-- At the cursor, or so short that neither the cursor nor the position cuts it. -/
def CutsAlike (s : ByteArray) (len position : Nat) : Prop :=
  position = s.position ∨ len ≤ s.size - max position s.position

instance (s : ByteArray) (len position : Nat) : Decidable (CutsAlike s len position) :=
  inferInstanceAs (Decidable (_ ∨ _))

section Gather

variable {s : ByteArray} {len position : Nat}

/-- The two ways to cut the length agree. -/
theorem cutsAlike_iff (h : Inv s) (hpos : position ≤ s.size) :
    CutsAlike s len position ↔ min len s.getReadSize = min len (s.size - position) := by
  have hcursor := h.position_le
  simp only [CutsAlike, getReadSize]
  omega

/-- At the cursor the two overloads do the same. -/
theorem getReadBuffersAt_position (h : Inv s) :
    getReadBuffersAt len s.position s = getReadBuffers len s := by
  unfold getReadBuffersAt getReadBuffers
  exact h.cur ▸ rfl

/-- The loop from any position below the size, as it is for a cursor there. -/
theorem buffersLoop_at (h : Inv s) {n : Nat} (hn : 1 ≤ n) (hend : position + n ≤ s.size) :
    ∃ iovecs, buffersLoop (s.nodes.drop (position / s.baseSize)) (position / s.baseSize)
        (position % s.baseSize) n = some iovecs ∧
      Lists s.nodes s.baseSize position n iovecs := by
  have hmoved : Inv { s with position := position, cur := position / s.baseSize } :=
    h.setPosition (by omega)
  have hmod := Nat.mod_lt position h.base
  have hcap := h.size_le
  have hroom := (hmoved.rest (n := n)).mpr (by dsimp only; omega)
  obtain ⟨iovecs, hloop⟩ := (buffersLoop_spec (s.nodes.drop (position / s.baseSize))
    (position / s.baseSize) (position % s.baseSize) n (h.uniform.drop _) hmod hn).1 hroom
  exact ⟨iovecs, hloop, hmoved.lists hloop⟩

/-- A list of as many bytes as are stored at the position. -/
theorem gathers_of_lists {n : Nat} {iovecs : List IoVec} (hend : position + n ≤ s.size)
    (hn : n = min len (s.size - position)) (hlists : Lists s.nodes s.baseSize position n iovecs)
    (hsame : position = s.position → getReadBuffers len s = .ok (n, iovecs) s) :
    Gathers s len position (n, iovecs) where
  total := hn
  inside := hlists.inside
  bytes := hn ▸ hlists.bytes
  below i hi := by
    rw [hlists.positions, List.mem_range'_1] at hi
    omega
  same := hsame

/-- **Ranges at a position.**  In every state reached, for every position up to the size
and every length, the list at the position is the stored bytes from there exactly when
the cursor and the position cut the length alike. -/
theorem gathersAt_iff_cutsAlike {b : Nat} (hb : 1 ≤ b) {s : ByteArray}
    (hs : Reachable (· = new b) Step s) {position : Nat} (hpos : position ≤ s.size) (len : Nat) :
    GathersAt s len position ↔ CutsAlike s len position := by
  have h := inv_of_reachable hb hs
  rw [cutsAlike_iff h hpos]
  constructor
  · rintro ⟨r, hrun, hgathers⟩
    rw [← hgathers.total]
    unfold getReadBuffersAt at hrun
    dsimp only at hrun
    by_cases hzero : min len s.getReadSize = 0
    · rw [if_pos hzero] at hrun
      cases hrun
      exact hzero
    · rw [if_neg hzero] at hrun
      split at hrun
      · cases hrun
      · cases hrun
        rfl
  · intro hcut
    have hsame : ∀ r, getReadBuffersAt len position s = .ok r s →
        position = s.position → getReadBuffers len s = .ok r s := by
      intro r hrun heq
      rw [← getReadBuffersAt_position h, ← heq]
      exact hrun
    by_cases hzero : min len s.getReadSize = 0
    · have hrun : getReadBuffersAt len position s = .ok (0, []) s := if_pos hzero
      exact ⟨_, hrun, gathers_of_lists hpos (by omega) lists_nil (hsame _ hrun)⟩
    · have hend : position + min len s.getReadSize ≤ s.size := by omega
      obtain ⟨iovecs, hloop, hlists⟩ := buffersLoop_at h (by omega) hend
      have hrun : getReadBuffersAt len position s = .ok (min len s.getReadSize, iovecs) s := by
        unfold getReadBuffersAt
        dsimp only
        rw [if_neg hzero, hloop]
      exact ⟨_, hrun, gathers_of_lists hend hcut hlists (hsame _ hrun)⟩

end Gather

/-- Three bytes of six in nodes of four, from the middle of the first node to the second;
the cursor is at the start. -/
theorem gathersAt_across_nodes :
    getReadBuffersAt 3 2 (sixInTwoNodes 0 0) =
        .ok (3, [⟨0, 2, 2⟩, ⟨1, 0, 1⟩]) (sixInTwoNodes 0 0) ∧
      GathersAt (sixInTwoNodes 0 0) 3 2 := by
  refine ⟨rfl, (gathersAt_iff_cutsAlike ?_ reachable_sixInTwoNodes.2 ?_ 3).mpr ?_⟩
  · decide
  · decide
  · decide

/-- With the cursor behind six bytes nothing is listed at the start; with the cursor at the
start two bytes beyond the six are listed, and the third faults. -/
theorem gather_ignores_the_position :
    (∃ s, Reachable (· = new 4) Step s ∧ s.size = 6 ∧
      getReadBuffersAt 6 0 s = .ok (0, []) s ∧ ¬ GathersAt s 6 0) ∧
    (∃ s, Reachable (· = new 4) Step s ∧ s.size = 6 ∧
      getReadBuffersAt 2 6 s = .ok (2, [⟨1, 2, 2⟩]) s ∧ getReadBuffersAt 3 6 s = .fault) := by
  obtain ⟨hsix, hsought⟩ := reachable_sixInTwoNodes
  refine ⟨⟨_, hsix, rfl, rfl, ?_⟩, ⟨_, hsought, rfl, rfl, rfl⟩⟩
  rintro ⟨r, hrun, hgathers⟩
  cases hrun
  exact absurd hgathers.total (by decide)

end ByteArray

end Agent
