import GServer.ByteArray

/-!
# What the byte array's operations do

Under the invariant the cursor stands at node `m_position / m_basesize`, which
is null exactly when the position is the capacity.  Each loop is a statement
about the contents of the nodes, and each operation is described by what it
does to the position, the capacity and the contents, or by the condition under
which it faults.
-/

namespace Agent

open Faults Chunks

namespace ByteArray

/-- The invariant of a byte array. -/
structure Inv (s : ByteArray) : Prop where
  base : 1 ≤ s.baseSize
  uniform : Uniform s.baseSize s.nodes
  nonempty : 1 ≤ s.nodes.length
  capacity : s.capacity = s.nodes.length * s.baseSize
  size_le : s.size ≤ s.capacity
  position_le : s.position ≤ s.size
  cur : s.cur = s.position / s.baseSize

/-- A new array is in order. -/
theorem inv_new {b : Nat} (hb : 1 ≤ b) : Inv (new b) where
  base := hb
  uniform := Uniform.cons List.length_replicate (fun _ hc => absurd hc List.not_mem_nil)
  nonempty := Nat.le_refl 1
  capacity := by simp [new]
  size_le := Nat.zero_le _
  position_le := Nat.le_refl 0
  cur := by simp [new]

/-- The bytes of the nodes, written or not. -/
def data (s : ByteArray) : List UInt8 :=
  s.nodes.flatten

/-- The bytes from the position to the size. -/
def unread (s : ByteArray) : List UInt8 :=
  (s.data.drop s.position).take s.getReadSize

/-- The state after `n` bytes have been read. -/
def advance (s : ByteArray) (n : Nat) : ByteArray :=
  { s with position := s.position + n, cur := (s.position + n) / s.baseSize }

/-- The chunks have the capacity. -/
theorem Inv.length_data {s : ByteArray} (h : Inv s) : s.data.length = s.capacity := by
  rw [h.capacity]
  exact h.uniform.length_flatten

/-- What has not been read is as long as `getReadSize` says. -/
theorem Inv.length_unread {s : ByteArray} (h : Inv s) : s.unread.length = s.getReadSize := by
  have hlen := h.length_data
  have hsize := h.size_le
  have hpos := h.position_le
  simp only [unread, List.length_take, List.length_drop, getReadSize]
  omega

/-- The cursor may move to the end of the data. -/
theorem Inv.advance {s : ByteArray} (h : Inv s) {n : Nat} (hn : n ≤ s.getReadSize) :
    Inv (s.advance n) where
  base := h.base
  uniform := h.uniform
  nonempty := h.nonempty
  capacity := h.capacity
  size_le := h.size_le
  position_le := by
    have hpos := h.position_le
    simp only [getReadSize] at hn
    simp only [ByteArray.advance]
    omega
  cur := rfl

/-- Behind the moved cursor less is unread. -/
theorem unread_advance (s : ByteArray) (n : Nat) : (s.advance n).unread = s.unread.drop n := by
  have hsize : (s.advance n).getReadSize = s.getReadSize - n := by
    simp only [getReadSize, advance]
    omega
  have hdata : (s.advance n).data.drop (s.advance n).position =
      (s.data.drop s.position).drop n := by
    simp [data, advance, List.drop_drop]
  rw [unread, unread, hsize, hdata, List.drop_take]

/-- Where the node of the cursor lies. -/
theorem Inv.split {s : ByteArray} (h : Inv s) :
    s.cur * s.baseSize + s.position % s.baseSize = s.position ∧
      s.position % s.baseSize < s.baseSize := by
  refine ⟨?_, Nat.mod_lt _ h.base⟩
  rw [h.cur, Nat.mul_comm]
  exact Nat.div_add_mod s.position s.baseSize

/-- The cursor is null exactly at the capacity. -/
theorem Inv.cur_lt_iff {s : ByteArray} (h : Inv s) :
    s.cur < s.nodes.length ↔ s.position < s.capacity := by
  rw [h.cur, h.capacity]
  exact Nat.div_lt_iff_lt_mul h.base

/-- The current chunk is one of the chunks or the end. -/
theorem Inv.cur_le {s : ByteArray} (h : Inv s) : s.cur ≤ s.nodes.length := by
  rw [h.cur]
  refine Nat.div_le_of_le_mul ?_
  have hsize := h.size_le
  have hpos := h.position_le
  rw [h.capacity, Nat.mul_comm] at hsize
  omega

/-- The bytes of the nodes from the cursor on. -/
theorem Inv.length_rest {s : ByteArray} (h : Inv s) :
    (s.nodes.drop s.cur).length * s.baseSize = s.capacity - s.cur * s.baseSize := by
  rw [List.length_drop, Nat.sub_mul, h.capacity]

/-! ## The loops -/

section Loops

variable {b : Nat}

/-- Moving past a node moves the quotient by one. -/
theorem div_past {npos n m : Nat} (hb : 1 ≤ b) (h : npos + n = b + m) :
    (npos + n) / b = m / b + 1 := by
  rw [h, Nat.add_comm, Nat.add_div_right m hb]

/-- Within a node the cursor moves exactly when the end is reached. -/
theorem div_within {npos n : Nat} (hb : 1 ≤ b) (h : npos + n ≤ b) :
    (if b = npos + n then 1 else 0) = (npos + n) / b := by
  split
  · rename_i heq
    rw [← heq, Nat.div_self hb]
  · rw [Nat.div_eq_of_lt (by omega)]

/-- The loop overwrites the bytes from its place on, or leaves the list when there is no room.
-/
theorem writeLoop_spec (hb : 1 ≤ b) :
    ∀ (nodes : List (List UInt8)) (npos : Nat) (buf : List UInt8),
      Uniform b nodes → npos < b → buf ≠ [] →
      (npos + buf.length ≤ nodes.length * b →
        ∃ nodes', writeLoop nodes npos buf = some (nodes', (npos + buf.length) / b) ∧
          Uniform b nodes' ∧ nodes'.length = nodes.length ∧
          nodes'.flatten = overwrite nodes.flatten npos buf) ∧
      (nodes.length * b < npos + buf.length → writeLoop nodes npos buf = none) := by
  intro nodes
  induction nodes with
  | nil =>
      intro npos buf _ _ hbuf
      have hpos := List.length_pos_iff.mpr hbuf
      refine ⟨fun h => ?_, fun _ => rfl⟩
      rw [List.length_nil, Nat.zero_mul] at h
      omega
  | cons node rest ih =>
      intro npos buf huni hnpos hbuf
      have hnode : node.length = b := huni.head
      have hlen : (node :: rest).length * b = rest.length * b + b := by
        rw [List.length_cons, Nat.succ_mul]
      unfold writeLoop
      dsimp only
      rw [hlen, hnode]
      by_cases hfit : buf.length ≤ b - npos
      · have hin : npos + buf.length ≤ node.length := by omega
        rw [if_pos hfit, div_within hb (by omega)]
        refine ⟨fun _ => ⟨_, rfl, ?_, by simp, ?_⟩, fun hover => by omega⟩
        · exact huni.tail.cons ((length_overwrite hin).trans hnode)
        · rw [List.flatten_cons, List.flatten_cons, overwrite_append_left hin]
      · have hdrop : (buf.drop (b - npos)).length = buf.length - (b - npos) :=
          List.length_drop
        have hne : buf.drop (b - npos) ≠ [] := by
          rw [← List.length_pos_iff]
          omega
        rw [if_neg hfit]
        constructor
        · intro hroom
          obtain ⟨rest', hrun, huni', hlen', hflat'⟩ :=
            (ih 0 (buf.drop (b - npos)) huni.tail (by omega) hne).1 (by omega)
          have htake : (buf.take (b - npos)).length = b - npos := by
            rw [List.length_take]
            omega
          have hcount : (0 + (buf.drop (b - npos)).length) / b + 1 =
              (npos + buf.length) / b :=
            (div_past hb (by omega)).symm
          simp only [hrun, hcount]
          refine ⟨_, rfl, huni'.cons ?_, by simp [hlen'], ?_⟩
          · rw [length_overwrite (by omega), hnode]
          · rw [List.flatten_cons, List.flatten_cons, hflat',
              overwrite_append (by omega) (by omega), hnode]
        · intro hover
          have hrun := (ih 0 (buf.drop (b - npos)) huni.tail (by omega) hne).2 (by omega)
          simp only [hrun]

/-- The loop takes the bytes from its place on. -/
theorem readLoop_spec (hb : 1 ≤ b) :
    ∀ (nodes : List (List UInt8)) (npos size : Nat),
      Uniform b nodes → npos < b → nodes ≠ [] → npos + size ≤ nodes.length * b →
      readLoop nodes npos size =
        some ((nodes.flatten.drop npos).take size, (npos + size) / b) := by
  intro nodes
  induction nodes with
  | nil => intro _ _ _ _ hne; exact absurd rfl hne
  | cons node rest ih =>
      intro npos size huni hnpos _ hroom
      have hnode : node.length = b := huni.head
      rw [List.length_cons, Nat.succ_mul] at hroom
      have hdrop : (node.drop npos).length = b - npos := by rw [List.length_drop, hnode]
      have hflat : ((node :: rest).flatten.drop npos) = node.drop npos ++ rest.flatten := by
        rw [List.flatten_cons, List.drop_append_of_le_length (by omega)]
      unfold readLoop
      dsimp only
      rw [hnode, hflat]
      by_cases h0 : size = 0
      · subst h0
        simp [Nat.div_eq_of_lt hnpos]
      rw [if_neg h0]
      by_cases hfit : size ≤ b - npos
      · rw [if_pos hfit, div_within hb (by omega), List.take_append_of_le_length (by omega)]
      · have hrest : rest ≠ [] := by
          rintro rfl
          rw [List.length_nil, Nat.zero_mul] at hroom
          omega
        have hcount : (0 + (size - (b - npos))) / b + 1 = (npos + size) / b :=
          (div_past hb (by omega)).symm
        have htake : (node.drop npos).take size = node.drop npos :=
          List.take_of_length_le (by omega)
        rw [if_neg hfit, ih 0 (size - (b - npos)) huni.tail (by omega) hrest (by omega)]
        dsimp only
        rw [hcount, List.drop_zero, List.take_append, htake, hdrop]

/-- The loop stops in the chunk of the position. -/
theorem seekLoop_spec (hb : 1 ≤ b) :
    ∀ (nodes : List (List UInt8)) (pos : Nat),
      Uniform b nodes → nodes ≠ [] → pos ≤ nodes.length * b →
      seekLoop nodes pos = some (pos / b) := by
  intro nodes
  induction nodes with
  | nil => intro _ _ hne; exact absurd rfl hne
  | cons node rest ih =>
      intro pos huni _ hpos
      have hnode : node.length = b := huni.head
      rw [List.length_cons, Nat.succ_mul] at hpos
      unfold seekLoop
      rw [hnode]
      by_cases hpast : b < pos
      · have hrest : rest ≠ [] := by
          rintro rfl
          rw [List.length_nil, Nat.zero_mul] at hpos
          omega
        have hcount := div_past hb (show 0 + pos = b + (pos - b) by omega)
        rw [if_pos hpast, ih (pos - b) huni.tail hrest (by omega)]
        dsimp only
        rw [← hcount, Nat.zero_add]
      · have hcount := div_within hb (show 0 + pos ≤ b by omega)
        rw [Nat.zero_add] at hcount
        rw [if_neg hpast, ← hcount]
        simp only [eq_comm]

/-- The loop lists as much as there is room for, or leaves the list. -/
theorem buffersLoop_spec :
    ∀ (nodes : List (List UInt8)) (i npos len : Nat),
      Uniform b nodes → npos < b → 1 ≤ len →
      (npos + len ≤ nodes.length * b → ∃ buffers, buffersLoop nodes i npos len = some buffers) ∧
      (nodes.length * b < npos + len → buffersLoop nodes i npos len = none) := by
  intro nodes
  induction nodes with
  | nil =>
      intro i npos len _ _ hlen
      refine ⟨fun h => ?_, fun _ => rfl⟩
      rw [List.length_nil, Nat.zero_mul] at h
      omega
  | cons node rest ih =>
      intro i npos len huni hnpos hlen
      have hnode : node.length = b := huni.head
      have hsum : (node :: rest).length * b = rest.length * b + b := by
        rw [List.length_cons, Nat.succ_mul]
      unfold buffersLoop
      dsimp only
      rw [hsum, hnode]
      by_cases hfit : len ≤ b - npos
      · rw [if_pos hfit]
        exact ⟨fun _ => ⟨_, rfl⟩, fun hover => by omega⟩
      · rw [if_neg hfit]
        refine ⟨fun hroom => ?_, fun hover => ?_⟩
        · obtain ⟨buffers, hrun⟩ :=
            (ih (i + 1) 0 (len - (b - npos)) huni.tail (by omega) (by omega)).1 (by omega)
          simp [hrun]
        · have hrun :=
            (ih (i + 1) 0 (len - (b - npos)) huni.tail (by omega) (by omega)).2 (by omega)
          simp only [hrun]

end Loops

/-! ## Growing and writing -/

/-- `addCapacity` makes room for `n` bytes: they fit already, or the cursor is not
null and the nodes that are added are enough. -/
def Room (baseSize position capacity n : Nat) : Prop :=
  n ≤ capacity - position ∨
    (position < capacity ∧
      n - (capacity - position) ≤ nodeCount (n - (capacity - position)) baseSize * baseSize)

instance (baseSize position capacity n : Nat) :
    Decidable (Room baseSize position capacity n) :=
  inferInstanceAs (Decidable (_ ∨ _))

/-- The capacity after `addCapacity`. -/
def grown (baseSize position capacity n : Nat) : Nat :=
  if n ≤ capacity - position then capacity
  else capacity + nodeCount (n - (capacity - position)) baseSize * baseSize

/-- What `addCapacity` changes: nodes are added at the end. -/
structure GrowsTo (s : ByteArray) (n : Nat) (s' : ByteArray) : Prop where
  inv : Inv s'
  baseSize : s'.baseSize = s.baseSize
  position : s'.position = s.position
  size : s'.size = s.size
  littleEndian : s'.littleEndian = s.littleEndian
  capacity : s'.capacity = grown s.baseSize s.position s.capacity n
  data : s'.data = s.data ++ List.replicate (s'.capacity - s.capacity) 0

/-- With enough room, or a current chunk, the array grows in order. -/
theorem addCapacity_spec {s : ByteArray} (h : Inv s) {n : Nat}
    (hn : n ≤ s.getRemainAmount ∨ s.position < s.capacity) :
    ∃ s', s.addCapacity n = some s' ∧ GrowsTo s n s' := by
  unfold addCapacity
  dsimp only
  by_cases hfit : n ≤ s.getRemainAmount
  · refine ⟨s, if_pos hfit, h, rfl, rfl, rfl, rfl, ?_, by simp⟩
    exact (if_pos hfit).symm
  have hpos : s.position < s.capacity := hn.resolve_left hfit
  have hra : s.getRemainAmount ≠ 0 := by
    simp only [getRemainAmount]
    omega
  have hcur := h.cur_lt_iff.mpr hpos
  rw [if_neg hfit, List.getElem?_eq_getElem hcur, if_neg hra]
  generalize hcount : nodeCount (n - s.getRemainAmount) s.baseSize = count
  have hgrown : s.capacity + count * s.baseSize = grown s.baseSize s.position s.capacity n := by
    have hfit' : ¬ n ≤ s.capacity - s.position := hfit
    rw [grown, if_neg hfit', ← hcount]
    rfl
  refine ⟨_, rfl, ⟨h.base, ?_, ?_, ?_, ?_, h.position_le, h.cur⟩, rfl, rfl, rfl, rfl,
    hgrown, ?_⟩
  · refine h.uniform.append fun c hc => ?_
    rw [List.eq_of_mem_replicate hc, List.length_replicate]
  · simp only [List.length_append]
    exact Nat.le_add_right_of_le h.nonempty
  · simp only [List.length_append, List.length_replicate, Nat.add_mul, h.capacity]
  · exact Nat.le_add_right_of_le h.size_le
  · simp [data, List.flatten_append]

/-- At the capacity nothing can be added: `m_cur` is null. -/
theorem addCapacity_at_capacity {s : ByteArray} (h : Inv s) {n : Nat} (hn : 1 ≤ n)
    (hpos : s.position = s.capacity) : s.addCapacity n = none := by
  have hra : s.getRemainAmount = 0 := by
    simp only [getRemainAmount]
    omega
  have hcur : ¬ s.cur < s.nodes.length := by
    rw [h.cur_lt_iff]
    omega
  unfold addCapacity
  dsimp only
  rw [if_neg (by omega), List.getElem?_eq_none (Nat.le_of_not_lt hcur)]

/-- What `write` changes. -/
structure Writes (s : ByteArray) (buf : List UInt8) (s' : ByteArray) : Prop where
  inv : Inv s'
  baseSize : s'.baseSize = s.baseSize
  position : s'.position = s.position + buf.length
  size : s'.size = max s.size (s.position + buf.length)
  littleEndian : s'.littleEndian = s.littleEndian
  capacity : s'.capacity = grown s.baseSize s.position s.capacity buf.length
  data : s'.data =
    overwrite (s.data ++ List.replicate (s'.capacity - s.capacity) 0) s.position buf

/-- The nodes from the cursor on hold the bytes from the position on. -/
theorem Inv.rest {s : ByteArray} (h : Inv s) {n : Nat} :
    (s.position % s.baseSize + n ≤ (s.nodes.drop s.cur).length * s.baseSize ↔
      s.position + n ≤ s.capacity) := by
  obtain ⟨hsplit, -⟩ := h.split
  have hle : s.cur * s.baseSize ≤ s.capacity := by
    have := h.position_le
    have := h.size_le
    omega
  rw [h.length_rest]
  omega

/-- Writing into nodes that are there. -/
theorem writeLoop_of_room {s : ByteArray} (h : Inv s) {buf : List UInt8} (hbuf : buf ≠ []) :
    (s.position + buf.length ≤ s.capacity →
      ∃ written k, writeLoop (s.nodes.drop s.cur) (s.position % s.baseSize) buf =
          some (written, k) ∧
        s.cur + k = (s.position + buf.length) / s.baseSize ∧
        Uniform s.baseSize (s.nodes.take s.cur ++ written) ∧
        (s.nodes.take s.cur ++ written).length = s.nodes.length ∧
        (s.nodes.take s.cur ++ written).flatten = overwrite s.data s.position buf) ∧
    (s.capacity < s.position + buf.length →
      writeLoop (s.nodes.drop s.cur) (s.position % s.baseSize) buf = none) := by
  obtain ⟨hsplit, hmod⟩ := h.split
  have hloop := writeLoop_spec h.base (s.nodes.drop s.cur) (s.position % s.baseSize) buf
    (h.uniform.drop s.cur) hmod hbuf
  constructor
  · intro hroom
    obtain ⟨written, hrun, huni, hlen, hflat⟩ := hloop.1 (h.rest.mpr hroom)
    have htake : (s.nodes.take s.cur).flatten.length = s.cur * s.baseSize := by
      rw [(h.uniform.take s.cur).length_flatten, List.length_take, Nat.min_eq_left h.cur_le]
    have hdata : s.data = (s.nodes.take s.cur).flatten ++ (s.nodes.drop s.cur).flatten := by
      rw [← List.flatten_append, List.take_append_drop]
      rfl
    refine ⟨written, _, hrun, ?_, (h.uniform.take s.cur).append huni, ?_, ?_⟩
    · have hsum : s.position + buf.length =
          (s.position % s.baseSize + buf.length) + s.cur * s.baseSize := by omega
      rw [hsum, Nat.add_mul_div_right _ _ h.base, Nat.add_comm]
    · rw [List.length_append, hlen, ← List.length_append, List.take_append_drop]
    · rw [List.flatten_append, hflat, hdata, ← overwrite_append_right, htake, hsplit]
  · intro hover
    refine hloop.2 ?_
    have := (h.rest (n := buf.length)).not.mpr (by omega)
    omega

/-- **`write`.**  A write of at least one byte succeeds exactly when there is room,
and faults otherwise. -/
theorem write_spec {s : ByteArray} (h : Inv s) {buf : List UInt8} (hbuf : buf ≠ []) :
    (Room s.baseSize s.position s.capacity buf.length →
      ∃ s', write buf s = .ok () s' ∧ Writes s buf s') ∧
    (¬ Room s.baseSize s.position s.capacity buf.length → write buf s = .fault) := by
  have hlen : 1 ≤ buf.length := List.length_pos_iff.mpr hbuf
  have hpos := h.position_le
  have hsize := h.size_le
  unfold write
  rw [if_neg hbuf]
  by_cases hcap : s.position = s.capacity
  · rw [addCapacity_at_capacity h hlen hcap]
    refine ⟨fun hroom => ?_, fun _ => rfl⟩
    rcases hroom with hroom | ⟨hlt, -⟩ <;> omega
  obtain ⟨s₁, hadd, hgrow⟩ := addCapacity_spec h (n := buf.length) (Or.inr (by omega))
  have hroom_iff : Room s.baseSize s.position s.capacity buf.length ↔
      s₁.position + buf.length ≤ s₁.capacity := by
    rw [hgrow.position, hgrow.capacity, grown, Room]
    split <;> omega
  rw [hadd, hroom_iff]
  dsimp only
  obtain ⟨hin, hout⟩ := writeLoop_of_room hgrow.inv hbuf
  constructor
  · intro hroom
    obtain ⟨written, k, hrun, hcur, huni, hlength, hflat⟩ := hin hroom
    simp only [hrun]
    refine ⟨_, rfl, ⟨hgrow.inv.base, huni, ?_, ?_, ?_, ?_, hcur⟩, hgrow.baseSize, ?_, ?_,
      hgrow.littleEndian, hgrow.capacity, ?_⟩
    · rw [hlength]
      exact hgrow.inv.nonempty
    · rw [hlength]
      exact hgrow.inv.capacity
    · have := hgrow.inv.size_le
      dsimp only
      omega
    · dsimp only
      omega
    · rw [← hgrow.position]
    · rw [← hgrow.position, ← hgrow.size]
    · rw [data, hflat, hgrow.data, hgrow.position]
  · intro hover
    simp only [hout (by omega)]

/-! ## Reading and seeking -/

/-- **`read`.**  A read that asks for more than there is throws; one of no bytes
faults at the capacity; every other one returns the next bytes. -/
theorem read_spec {s : ByteArray} (h : Inv s) (n : Nat) :
    (s.getReadSize < n → read n s = .throws s) ∧
    (n ≤ s.getReadSize → n ≠ 0 ∨ s.position < s.capacity →
      read n s = .ok (s.unread.take n) (s.advance n)) ∧
    (n = 0 → s.position = s.capacity → read n s = .fault) := by
  obtain ⟨hsplit, hmod⟩ := h.split
  have hpos := h.position_le
  have hsize := h.size_le
  unfold read
  refine ⟨fun hn => if_pos hn, fun hn hsafe => ?_, fun h0 hcap => ?_⟩
  · simp only [getReadSize] at hn
    have hcur : s.cur < s.nodes.length := h.cur_lt_iff.mpr (by omega)
    have hne : s.nodes.drop s.cur ≠ [] := by
      rw [← List.length_pos_iff, List.length_drop]
      omega
    have hread := readLoop_spec h.base (s.nodes.drop s.cur) (s.position % s.baseSize) n
      (h.uniform.drop s.cur) hmod hne (h.rest.mpr (by omega))
    have hbytes : ((s.nodes.drop s.cur).flatten.drop (s.position % s.baseSize)).take n =
        s.unread.take n := by
      rw [h.uniform.flatten_drop, List.drop_drop, hsplit, unread, List.take_take, getReadSize,
        Nat.min_eq_left hn]
      rfl
    have hcount : s.cur + (s.position % s.baseSize + n) / s.baseSize =
        (s.position + n) / s.baseSize := by
      have hsum : s.position + n = (s.position % s.baseSize + n) + s.cur * s.baseSize := by
        omega
      rw [hsum, Nat.add_mul_div_right _ _ h.base, Nat.add_comm]
    rw [if_neg (by simp only [getReadSize]; omega), hread]
    dsimp only
    rw [hbytes, hcount]
    rfl
  · have hnil : s.nodes.drop s.cur = [] := by
      rw [List.drop_eq_nil_iff]
      have := h.cur_lt_iff.not.mpr (by omega)
      omega
    rw [if_neg (by omega), hnil]
    rfl

/-- **`setPosition`.**  It throws beyond the size and never faults. -/
theorem setPosition_spec {s : ByteArray} (h : Inv s) (pos : Nat) :
    (s.size < pos → setPosition pos s = .throws s) ∧
    (pos ≤ s.size → setPosition pos s =
      .ok () { s with position := pos, cur := pos / s.baseSize }) := by
  have hsize := h.size_le
  unfold setPosition
  refine ⟨fun hpos => if_pos (Or.inr hpos), fun hpos => ?_⟩
  have hne : s.nodes ≠ [] := List.length_pos_iff.mp h.nonempty
  have hseek := seekLoop_spec h.base s.nodes pos h.uniform hne (by
    rw [← h.capacity]
    omega)
  rw [if_neg (by omega), hseek]

/-- A position up to the size keeps it in order. -/
theorem Inv.setPosition {s : ByteArray} (h : Inv s) {pos : Nat} (hpos : pos ≤ s.size) :
    Inv { s with position := pos, cur := pos / s.baseSize } :=
  ⟨h.base, h.uniform, h.nonempty, h.capacity, h.size_le, hpos, rfl⟩

/-- `clear` goes back to the root node. -/
theorem Inv.clear {s : ByteArray} (h : Inv s) :
    Inv { s with position := 0, size := 0, capacity := s.baseSize, cur := 0
                 nodes := s.nodes.take 1 } := by
  have hone : (s.nodes.take 1).length = 1 := by
    rw [List.length_take]
    exact Nat.min_eq_left h.nonempty
  refine ⟨h.base, h.uniform.take 1, ?_, ?_, Nat.zero_le _, Nat.le_refl 0, by simp⟩
  · exact Nat.le_of_eq hone.symm
  · rw [hone, Nat.one_mul]

/-- `getReadBuffers` never faults and changes nothing. -/
theorem getReadBuffers_spec {s : ByteArray} (h : Inv s) (len : Nat) :
    ∃ r, getReadBuffers len s = .ok r s := by
  obtain ⟨-, hmod⟩ := h.split
  have hsize := h.size_le
  unfold getReadBuffers
  dsimp only
  split
  · exact ⟨_, rfl⟩
  · rename_i h0
    have hle : min len s.getReadSize ≤ s.size - s.position := Nat.min_le_right _ _
    obtain ⟨buffers, hrun⟩ := (buffersLoop_spec (s.nodes.drop s.cur) s.cur
      (s.position % s.baseSize) (min len s.getReadSize) (h.uniform.drop s.cur) hmod
      (by omega)).1 (h.rest.mpr (by omega))
    simp [hrun]

/-- `getWriteBuffers` succeeds exactly when there is room. -/
theorem getWriteBuffers_spec {s : ByteArray} (h : Inv s) {len : Nat} (hlen : 1 ≤ len) :
    (Room s.baseSize s.position s.capacity len →
      ∃ r s', getWriteBuffers len s = .ok r s' ∧ GrowsTo s len s') ∧
    (¬ Room s.baseSize s.position s.capacity len → getWriteBuffers len s = .fault) := by
  have hpos := h.position_le
  have hsize := h.size_le
  unfold getWriteBuffers
  rw [if_neg (by omega)]
  by_cases hcap : s.position = s.capacity
  · rw [addCapacity_at_capacity h hlen hcap]
    refine ⟨fun hroom => ?_, fun _ => rfl⟩
    rcases hroom with hroom | ⟨hlt, -⟩ <;> omega
  obtain ⟨s₁, hadd, hgrow⟩ := addCapacity_spec h (n := len) (Or.inr (by omega))
  have hroom_iff : Room s.baseSize s.position s.capacity len ↔
      s₁.position + len ≤ s₁.capacity := by
    rw [hgrow.position, hgrow.capacity, grown, Room]
    split <;> omega
  obtain ⟨-, hmod⟩ := hgrow.inv.split
  have hloop := buffersLoop_spec (s₁.nodes.drop s₁.cur) s₁.cur (s₁.position % s₁.baseSize) len
    (hgrow.inv.uniform.drop s₁.cur) hmod hlen
  rw [hadd, hroom_iff]
  dsimp only
  constructor
  · intro hroom
    obtain ⟨buffers, hrun⟩ := hloop.1 (hgrow.inv.rest.mpr hroom)
    exact ⟨(len, buffers), s₁, by simp only [hrun], hgrow⟩
  · intro hover
    have hnot := (hgrow.inv.rest (n := len)).not.mpr hover
    have hrun := hloop.2 (by omega)
    simp only [hrun]

end ByteArray

end Agent
