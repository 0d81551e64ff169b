import GServer.ByteArraySafety

/-!
# Reads at a position

`read(buf, size, position) const` and `toString`.  The copy starts in the node
`m_cur` points to, at the offset the position has in its own node, and its last
piece is taken from `m_cur` once more.  `takenFrom` is where each byte of a range
comes from; a read is right exactly when the walk stays in the list and the byte
found there is the one that is asked for.
-/

namespace Agent

open Faults Runs Chunks

namespace ByteArray

/-- `m_size - position`, in `size_t`. -/
def sizeFrom (s : ByteArray) (position : Nat) : Nat :=
  if position ≤ s.size then s.size - position else 2 ^ 64 - (position - s.size)

/-- The loop of the positional `read` with the local `cur` at the head of the list;
`home` is the node of `m_cur`. -/
def readAtLoop (home : List UInt8) : List (List UInt8) → Nat → Nat → Option (List UInt8)
  | [], _, _ => none
  | node :: rest, npos, size =>
      let ncap := node.length - npos
      if size = 0 then some []
      -- the last piece: `m_cur->ptr`, where the others have `cur->ptr`
      else if size ≤ ncap then some ((home.drop npos).take size)
      else
        match readAtLoop home rest 0 (size - ncap) with
        | none => none
        | some bytes => some (node.drop npos ++ bytes)

/-- `ByteArray::read` at a position. -/
def readAt (size position : Nat) : Op (List UInt8) := fun s =>
  let size := min size (s.sizeFrom position)
  match s.nodes[s.cur]? with
  | none => .fault
  | some home =>
      match readAtLoop home (s.nodes.drop s.cur) (position % s.baseSize) size with
      | none => .fault
      | some bytes => .ok bytes s

/-- `ByteArray::toString`. -/
def toString : Op (List UInt8) := fun s =>
  if s.getReadSize = 0 then .ok [] s else readAt s.getReadSize s.position s

/-! ## Where the bytes come from -/

/-- How many nodes the loop leaves behind before its last piece. -/
def nodesPassed (s : ByteArray) (position size : Nat) : Nat :=
  (position % s.baseSize + size - 1) / s.baseSize

/-- The offset in the byte array from which the loop takes byte `i` of the range. -/
def takenFrom (s : ByteArray) (position size i : Nat) : Nat :=
  let q := position % s.baseSize + i
  s.cur * s.baseSize +
    if q < s.nodesPassed position size * s.baseSize then q else q % s.baseSize

/-- `m_cur` is not null, and where the range is not empty the walk stays in the list
and every byte is found where the loop looks for it. -/
structure Meets (s : ByteArray) (position size : Nat) : Prop where
  cursor : s.cur < s.nodes.length
  walk : size ≠ 0 → s.cur + s.nodesPassed position size < s.nodes.length
  bytes : ∀ i, i < size → s.data[s.takenFrom position size i]? = s.data[position + i]?

section Loop

variable {b : Nat}

/-- The loop takes its bytes from the chunks it passes, and the last of them from the chunk that
the cursor is in; it leaves the list when there are not enough. -/
theorem readAtLoop_spec (hb : 1 ≤ b) (home : List UInt8) (hhome : home.length = b) :
    ∀ (nodes : List (List UInt8)) (npos size : Nat),
      Uniform b nodes → npos < b → size ≠ 0 →
      ((npos + size - 1) / b < nodes.length →
        ∃ bytes, readAtLoop home nodes npos size = some bytes ∧ bytes.length = size ∧
          ∀ i, i < size → bytes[i]? =
            if npos + i < (npos + size - 1) / b * b then nodes.flatten[npos + i]?
            else home[(npos + i) % b]?) ∧
      (nodes.length ≤ (npos + size - 1) / b → readAtLoop home nodes npos size = none) := by
  intro nodes
  induction nodes with
  | nil =>
      intro npos size _ _ _
      exact ⟨fun h => absurd h (Nat.not_lt_zero _), fun _ => rfl⟩
  | cons node rest ih =>
      intro npos size huni hnpos hsize
      have hnode : node.length = b := huni.head
      have hdrop : (node.drop npos).length = b - npos := by rw [List.length_drop, hnode]
      unfold readAtLoop
      dsimp only
      rw [hnode, if_neg hsize]
      by_cases hfit : size ≤ b - npos
      · -- the last piece
        have hnone : (npos + size - 1) / b = 0 := Nat.div_eq_of_lt (by omega)
        rw [if_pos hfit, hnone]
        refine ⟨fun _ => ⟨_, rfl, ?_, fun i hi => ?_⟩, fun h => ?_⟩
        · rw [List.length_take, List.length_drop]
          omega
        · rw [Nat.zero_mul, if_neg (Nat.not_lt_zero _), List.getElem?_take, if_pos hi,
            List.getElem?_drop, Nat.mod_eq_of_lt (by omega)]
        · rw [List.length_cons] at h
          omega
      · have hpast : (npos + size - 1) / b = (0 + (size - (b - npos)) - 1) / b + 1 := by
          have hsum : npos + size - 1 = 0 + (size - (b - npos)) - 1 + b := by omega
          rw [hsum, Nat.add_div_right _ hb]
        obtain ⟨hin, hout⟩ :=
          ih 0 (size - (b - npos)) huni.tail (by omega) (by omega)
        generalize (0 + (size - (b - npos)) - 1) / b = k at hpast hin hout
        rw [if_neg hfit, hpast]
        refine ⟨fun h => ?_, fun h => ?_⟩
        · specialize hin (Nat.lt_of_succ_lt_succ h)
          obtain ⟨bytes, hrun, hlen, hbytes⟩ := hin
          rw [hrun]
          refine ⟨_, rfl, ?_, fun i hi => ?_⟩
          · rw [List.length_append, hdrop, hlen]
            omega
          by_cases hfirst : i < b - npos
          · have hlt : npos + i < (k + 1) * b := by
              rw [Nat.succ_mul]
              omega
            rw [if_pos hlt, List.getElem?_append_left (by omega), List.getElem?_drop,
              List.flatten_cons, List.getElem?_append_left (by omega)]
          · have hback : npos + i = 0 + (i - (b - npos)) + b := by omega
            have hlt : 0 + (i - (b - npos)) + b < (k + 1) * b ↔
                0 + (i - (b - npos)) < k * b := by
              rw [Nat.succ_mul]
              exact Nat.add_lt_add_iff_right
            rw [List.getElem?_append_right (by omega), hdrop, hbytes _ (by omega),
              List.flatten_cons, List.getElem?_append_right (by omega), hnode]
            simp only [hback, hlt, Nat.add_mod_right, Nat.add_sub_cancel]
        · rw [hout (Nat.le_of_succ_le_succ h)]

end Loop

/-! ## The read -/

section Reads

variable {s : ByteArray}

/-- A range of the bytes of the nodes, one by one. -/
theorem eq_range_iff (l : List UInt8) (position : Nat) {bytes : List UInt8} {size : Nat}
    (hlen : bytes.length = size) :
    bytes = (l.drop position).take size ↔
      ∀ i, i < size → bytes[i]? = l[position + i]? := by
  constructor
  · intro heq i hi
    rw [heq, List.getElem?_take, if_pos hi, List.getElem?_drop]
  · intro hall
    apply List.ext_getElem?
    intro i
    rw [List.getElem?_take, List.getElem?_drop]
    split
    · exact hall i ‹_›
    · exact List.getElem?_eq_none (by omega)

/-- The bytes of the node of the cursor and of those after it. -/
theorem Inv.data_from_cursor (h : Inv s) (q : Nat) :
    s.data[s.cur * s.baseSize + q]? = (s.nodes.drop s.cur).flatten[q]? := by
  rw [h.uniform.flatten_drop, List.getElem?_drop]
  rfl

/-- From the cursor the loop stays in the list or falls off its end, and where it
stays it copies the bytes from where it takes them. -/
theorem readAtLoop_of_inv (h : Inv s) (position : Nat) {size : Nat} {home : List UInt8}
    (hhome : s.nodes[s.cur]? = some home) (hsize : size ≠ 0) :
    (s.cur + s.nodesPassed position size < s.nodes.length →
      ∃ bytes, readAtLoop home (s.nodes.drop s.cur) (position % s.baseSize) size =
          some bytes ∧ bytes.length = size ∧
        ∀ i, i < size → bytes[i]? = s.data[s.takenFrom position size i]?) ∧
    (s.nodes.length ≤ s.cur + s.nodesPassed position size →
      readAtLoop home (s.nodes.drop s.cur) (position % s.baseSize) size = none) := by
  have hmod : position % s.baseSize < s.baseSize := Nat.mod_lt _ h.base
  have hlength : home.length = s.baseSize := h.uniform home (List.mem_of_getElem? hhome)
  obtain ⟨hin, hout⟩ := readAtLoop_spec h.base home hlength (s.nodes.drop s.cur)
    (position % s.baseSize) size (h.uniform.drop s.cur) hmod hsize
  have hfirst : ∀ q, q < s.baseSize →
      s.data[s.cur * s.baseSize + q]? = home[q]? := by
    intro q hq
    obtain ⟨hlt, heq⟩ := List.getElem?_eq_some_iff.mp hhome
    rw [h.data_from_cursor, List.drop_eq_getElem_cons hlt, heq, List.flatten_cons,
      List.getElem?_append_left (by omega)]
  rw [List.length_drop] at hin hout
  change s.nodesPassed position size < _ → _ at hin
  change _ ≤ s.nodesPassed position size → _ at hout
  refine ⟨fun hwalk => ?_, fun hwalk => hout (by omega)⟩
  have hrest : s.nodesPassed position size < s.nodes.length - s.cur := by omega
  obtain ⟨bytes, hrun, hlen, hbytes⟩ := hin hrest
  refine ⟨bytes, hrun, hlen, fun i hi => ?_⟩
  rw [hbytes i hi, takenFrom]
  change (if _ < s.nodesPassed position size * s.baseSize then _ else _) = _
  by_cases hpast : position % s.baseSize + i < s.nodesPassed position size * s.baseSize
  · rw [if_pos hpast, if_pos hpast, h.data_from_cursor]
  · rw [if_neg hpast, if_neg hpast, hfirst _ (Nat.mod_lt _ h.base)]

/-- The size from a position on. -/
theorem sizeFrom_eq {position : Nat} (hpos : position ≤ s.size) :
    s.sizeFrom position = s.size - position :=
  if_pos hpos

/-- A read at a position is right exactly when the loop meets the bytes asked for. -/
theorem readAt_iff_meets (h : Inv s) {position : Nat} (hpos : position ≤ s.size) (n : Nat) :
    readAt n position s =
        .ok ((s.data.drop position).take (min n (s.size - position))) s ↔
      Meets s position (min n (s.size - position)) := by
  simp only [readAt, sizeFrom_eq hpos]
  generalize min n (s.size - position) = size
  cases hhome : s.nodes[s.cur]? with
  | none =>
      rw [List.getElem?_eq_none_iff] at hhome
      refine ⟨nofun, fun hmeets => ?_⟩
      have hlt := hmeets.cursor
      omega
  | some home =>
      obtain ⟨hcur, heq⟩ := List.getElem?_eq_some_iff.mp hhome
      dsimp only
      by_cases hsize : size = 0
      · subst hsize
        rw [List.drop_eq_getElem_cons hcur]
        exact ⟨fun _ => ⟨hcur, fun hne => absurd rfl hne, nofun⟩, fun _ => rfl⟩
      obtain ⟨hin, hout⟩ := readAtLoop_of_inv h position hhome hsize
      by_cases hwalk : s.cur + s.nodesPassed position size < s.nodes.length
      · obtain ⟨bytes, hrun, hlen, hbytes⟩ := hin hwalk
        have hright := eq_range_iff s.data position hlen
        rw [hrun]
        dsimp only
        constructor
        · intro hok
          injection hok with hok
          refine ⟨hcur, fun _ => hwalk, fun i hi => ?_⟩
          rw [← hbytes i hi]
          exact hright.mp hok i hi
        · intro hmeets
          rw [hright.mpr]
          intro i hi
          rw [hbytes i hi]
          exact hmeets.bytes i hi
      · rw [hout (Nat.le_of_not_lt hwalk)]
        exact ⟨nofun, fun hmeets => absurd (hmeets.walk hsize) hwalk⟩

/-- A range within the node of the cursor. -/
theorem meets_within_cursor (h : Inv s) {position size : Nat}
    (hcur : s.cur < s.nodes.length) (hnode : position / s.baseSize = s.cur)
    (hfit : position % s.baseSize + size ≤ s.baseSize) : Meets s position size := by
  have hnone : s.nodesPassed position size = 0 := by
    apply Nat.div_eq_of_lt
    have hbase := h.base
    omega
  refine ⟨hcur, fun _ => ?_, fun i hi => ?_⟩
  · rw [hnone]
    exact hcur
  · have hsplit : s.cur * s.baseSize + position % s.baseSize = position := by
      rw [← hnode, Nat.mul_comm]
      exact Nat.div_add_mod position s.baseSize
    have hoffset : s.takenFrom position size i = position + i := by
      rw [takenFrom, hnone, Nat.zero_mul, if_neg (Nat.not_lt_zero _), Nat.mod_eq_of_lt (by omega)]
      omega
    rw [hoffset]

/-- `toString` reads what is unread. -/
theorem toString_iff_meets (h : Inv s) :
    toString s = .ok s.unread s ↔ (s.getReadSize ≠ 0 → Meets s s.position s.getReadSize) := by
  unfold toString
  by_cases hnone : s.getReadSize = 0
  · rw [if_pos hnone, unread, hnone]
    exact ⟨fun _ hne => absurd rfl hne, fun _ => rfl⟩
  · have hread := readAt_iff_meets h h.position_le s.getReadSize
    have hmin : min s.getReadSize (s.size - s.position) = s.getReadSize := Nat.min_self _
    rw [hmin] at hread
    rw [if_neg hnone]
    exact hread.trans ⟨fun hmeets _ => hmeets, fun hmeets => hmeets hnone⟩

end Reads

/-- Three bytes in a node of four, the cursor behind them. -/
def threeOfFour : ByteArray :=
  { baseSize := 4, position := 3, capacity := 4, size := 3, littleEndian := true
    nodes := [[1, 2, 3, 0]], cur := 0 }

/-- Six bytes in two nodes of four, the cursor behind them or sought back. -/
def sixInTwoNodes (position cur : Nat) : ByteArray :=
  { baseSize := 4, position := position, capacity := 8, size := 6, littleEndian := true
    nodes := [[1, 2, 3, 4], [5, 6, 0, 0]], cur := cur }

/-- Both states are reached by calls. -/
theorem reachable_sixInTwoNodes : Reachable (· = new 4) Step (sixInTwoNodes 6 1) ∧
    Reachable (· = new 4) Step (sixInTwoNodes 0 0) := by
  have hwrite : Step (new 4) (.write [1, 2, 3, 4, 5, 6]) (sixInTwoNodes 6 1) := by
    unfold Step
    decide +kernel
  have hseek : Step (sixInTwoNodes 6 1) (.setPosition 0) (sixInTwoNodes 0 0) := rfl
  have hsix : Reachable (· = new 4) Step (sixInTwoNodes 6 1) :=
    .next (.start rfl) trivial hwrite
  exact ⟨hsix, .next hsix trivial hseek⟩

end ByteArray

end Agent
