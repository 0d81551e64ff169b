import GServer.ByteArraySafety
import GServer.Library.FlatBuffer

/-!
# The byte array is a flat buffer

The bytes of the nodes up to `m_size`, with `m_position` as the cursor, make a
flat buffer, and every call that does not fault does to it what the flat buffer's
operation does and gives the same answer.  The lists of `iovec`s name ranges of the
nodes: those of `getReadBuffers` hold the next bytes, and those of `getWriteBuffers`
are the next positions.
-/

namespace Agent

open Faults Runs Chunks

namespace ByteArray

/-! ## The state -/

/-- The byte array, in good order, holds the flat buffer. -/
structure Represents (s : ByteArray) (f : Flat.Buffer UInt8) : Prop where
  inv : Inv s
  elems : f.elems = s.data.take s.size
  cursor : f.cursor = s.position

/-- A new array stands for the empty buffer. -/
theorem represents_new {b : Nat} (hb : 1 ≤ b) : Represents (new b) .empty where
  inv := inv_new hb
  elems := rfl
  cursor := rfl

/-- Every byte array in good order holds one. -/
theorem Inv.represents {s : ByteArray} (h : Inv s) : ∃ f, Represents s f := by
  have hle : s.position ≤ (s.data.take s.size).length := by
    rw [List.length_take, h.length_data, Nat.min_eq_left h.size_le]
    exact h.position_le
  exact ⟨⟨_, _, hle⟩, h, rfl, rfl⟩

section Represents

variable {s : ByteArray} {f : Flat.Buffer UInt8}

/-- The buffer has as many bytes as `m_size` says. -/
theorem Represents.length_elems (h : Represents s f) : f.elems.length = s.size := by
  rw [h.elems, List.length_take, h.inv.length_data, Nat.min_eq_left h.inv.size_le]

/-- What comes after the cursor is what has not been read. -/
theorem Represents.rest (h : Represents s f) : f.rest = s.unread := by
  rw [Flat.Buffer.rest, h.elems, h.cursor, List.drop_take]
  rfl

/-- A write is one of the buffer. -/
theorem Represents.writes {buf : List UInt8} {s' : ByteArray} (h : Represents s f)
    (hw : Writes s buf s') : Represents s' (f.write buf) := by
  have hlen := h.inv.length_data
  have hsize := h.inv.size_le
  have hpos := h.inv.position_le
  refine ⟨hw.inv, ?_, ?_⟩
  · have htake : (s.data ++ List.replicate (s'.capacity - s.capacity) 0).take s.size =
        s.data.take s.size :=
      List.take_append_of_le_length (by omega)
    rw [hw.data, hw.size, take_overwrite hpos (by rw [List.length_append]; omega), htake,
      ← h.elems, ← h.cursor]
    rfl
  · rw [hw.position, ← h.cursor]
    rfl

/-- A write that does not fault. -/
theorem Represents.write {buf : List UInt8} {s' : ByteArray} (h : Represents s f)
    (hrun : ByteArray.write buf s = .ok () s') :
    Represents s' (f.write buf) ∧ s'.littleEndian = s.littleEndian := by
  by_cases hbuf : buf = []
  · subst hbuf
    cases hrun
    rw [Flat.Buffer.write_nil]
    exact ⟨h, rfl⟩
  · obtain ⟨hin, hout⟩ := write_spec h.inv hbuf
    by_cases hroom : Room s.baseSize s.position s.capacity buf.length
    · obtain ⟨s₁, hrun₁, hw⟩ := hin hroom
      cases hrun.symm.trans hrun₁
      exact ⟨h.writes hw, hw.littleEndian⟩
    · rw [hout hroom] at hrun
      cases hrun

/-- A position up to the size can be sought. -/
theorem Represents.setPosition {pos : Nat} (h : Represents s f) (hpos : pos ≤ s.size) :
    ∃ g, f.seek pos = some g ∧
      Represents { s with position := pos, cur := pos / s.baseSize } g := by
  have hle : pos ≤ f.elems.length := by
    rw [h.length_elems]
    exact hpos
  exact ⟨_, dif_pos hle, h.inv.setPosition hpos, h.elems, rfl⟩

/-- Growing is not seen. -/
theorem Represents.growsTo {n : Nat} {s' : ByteArray} (h : Represents s f)
    (hgrow : GrowsTo s n s') : Represents s' f := by
  have hlen := h.inv.length_data
  have hsize := h.inv.size_le
  refine ⟨hgrow.inv, ?_, h.cursor.trans hgrow.position.symm⟩
  rw [hgrow.data, hgrow.size, h.elems, List.take_append_of_le_length (by omega)]

end Represents

/-! ## The lists of ranges -/

end ByteArray

/-- The positions in the byte array of the bytes in the range. -/
def IoVec.positions (v : IoVec) (baseSize : Nat) : List Nat :=
  List.range' (v.node * baseSize + v.base) v.len

/-- The range lies in its node. -/
def IoVec.Inside (v : IoVec) (nodes : List (List UInt8)) : Prop :=
  ∃ node, nodes[v.node]? = some node ∧ v.base + v.len ≤ node.length

/-- The bytes of the range. -/
def IoVec.bytes (v : IoVec) (nodes : List (List UInt8)) : List UInt8 :=
  match nodes[v.node]? with
  | none => []
  | some node => (node.drop v.base).take v.len

namespace ByteArray

/-- The ranges are the `len` bytes from position `start` on, in order. -/
structure Lists (nodes : List (List UInt8)) (b start len : Nat) (iovecs : List IoVec) : Prop where
  inside : ∀ v ∈ iovecs, v.Inside nodes
  positions : iovecs.flatMap (fun v => v.positions b) = List.range' start len
  bytes : iovecs.flatMap (fun v => v.bytes nodes) = (nodes.flatten.drop start).take len

section Loops

variable {nodes : List (List UInt8)} {b : Nat}

/-- No buffers list no bytes. -/
theorem lists_nil {start : Nat} : Lists nodes b start 0 [] :=
  ⟨nofun, rfl, by simp⟩

/-- One range at the front. -/
theorem Lists.cons (huni : Uniform b nodes) {i npos n len : Nat} {node : List UInt8}
    {iovecs : List IoVec} (hnode : nodes[i]? = some node) (hn : npos + n ≤ b)
    (h : Lists nodes b (i * b + npos + n) len iovecs) :
    Lists nodes b (i * b + npos) (n + len) (⟨i, npos, n⟩ :: iovecs) := by
  have hlength : node.length = b := huni node (List.mem_of_getElem? hnode)
  refine ⟨fun v hv => ?_, ?_, ?_⟩
  · rcases List.mem_cons.mp hv with hv | hv
    · subst hv
      exact ⟨node, hnode, by rw [hlength]; exact hn⟩
    · exact h.inside v hv
  · rw [List.flatMap_cons, h.positions, IoVec.positions, List.range'_append_1]
  · have hdrop : nodes.drop i = node :: nodes.drop (i + 1) := by
      obtain ⟨hlt, heq⟩ := List.getElem?_eq_some_iff.mp hnode
      rw [List.drop_eq_getElem_cons hlt, heq]
    have hbytes : (node.drop npos).take n = (nodes.flatten.drop (i * b + npos)).take n := by
      rw [← List.drop_drop, ← huni.flatten_drop, hdrop, List.flatten_cons,
        List.drop_append_of_le_length (by omega),
        List.take_append_of_le_length (by rw [List.length_drop]; omega)]
    rw [List.flatMap_cons, h.bytes, IoVec.bytes, hnode]
    dsimp only
    rw [hbytes, List.take_add, List.drop_drop]

/-- The loop lists the bytes from its place on. -/
theorem buffersLoop_lists (huni : Uniform b nodes) :
    ∀ (rest : List (List UInt8)) (i npos len : Nat) (iovecs : List IoVec),
      rest = nodes.drop i → npos < b → buffersLoop rest i npos len = some iovecs →
      Lists nodes b (i * b + npos) len iovecs := by
  intro rest
  induction rest with
  | nil =>
      intro i npos len iovecs _ _ hrun
      cases hrun
  | cons node rest ih =>
      intro i npos len iovecs hrest hnpos hrun
      have hlt : i < nodes.length := by
        by_contra hnot
        rw [List.drop_eq_nil_of_le (Nat.le_of_not_lt hnot)] at hrest
        cases hrest
      rw [List.drop_eq_getElem_cons hlt] at hrest
      obtain ⟨hhead, htail⟩ := List.cons.inj hrest
      have hnode : nodes[i]? = some node := by rw [List.getElem?_eq_getElem hlt, hhead]
      have hlength : node.length = b := huni node (List.mem_of_getElem? hnode)
      unfold buffersLoop at hrun
      dsimp only at hrun
      rw [hlength] at hrun
      split at hrun
      · cases hrun
        exact Lists.cons huni hnode (by omega) lists_nil
      · split at hrun
        · cases hrun
        · rename_i more hmore
          cases hrun
          have hnext := ih (i + 1) 0 (len - (b - npos)) more htail (by omega) hmore
          have hstart : (i + 1) * b + 0 = i * b + npos + (b - npos) := by
            rw [Nat.succ_mul]
            omega
          have hlen : len = b - npos + (len - (b - npos)) := by omega
          rw [hstart] at hnext
          rw [hlen]
          apply Lists.cons huni hnode (by omega)
          simpa using hnext

end Loops

/-! ## The calls -/

/-- The calls that move plain bytes. -/
inductive PlainCall
  | write (buf : List UInt8)
  | read (size : Nat)
  | setPosition (pos : Nat)
  | clear
  | getReadBuffers (len : Nat)
  | getWriteBuffers (len : Nat)

/-- What a call gives back; `outOfRange` is the exception. -/
inductive Reply
  | done
  | outOfRange
  | bytes (buf : List UInt8)
  | buffers (size : Nat) (iovecs : List IoVec)
deriving DecidableEq

/-- The reply and the state that a call leaves, none where it faults. -/
def reply {α : Type} (f : α → Reply) : Outcome ByteArray α → Option (Reply × ByteArray)
  | .ok a s => some (f a, s)
  | .throws s => some (.outOfRange, s)
  | .fault => none

/-- One call. -/
def PlainCall.run (s : ByteArray) : PlainCall → Option (Reply × ByteArray)
  | .write buf => reply (fun _ => .done) (ByteArray.write buf s)
  | .read size => reply .bytes (ByteArray.read size s)
  | .setPosition pos => reply (fun _ => .done) (ByteArray.setPosition pos s)
  | .clear => reply (fun _ => .done) (ByteArray.clear s)
  | .getReadBuffers len => reply (fun r => .buffers r.1 r.2) (ByteArray.getReadBuffers len s)
  | .getWriteBuffers len => reply (fun r => .buffers r.1 r.2) (ByteArray.getWriteBuffers len s)

/-- The reply and the state after each call of a sequence, none where one faults. -/
def runs (s : ByteArray) : List PlainCall → Option (List (Reply × ByteArray))
  | [] => some []
  | c :: calls =>
      match c.run s with
      | none => none
      | some (r, s') => (runs s' calls).map ((r, s') :: ·)

/-- What a call on the flat buffer answers: the bytes that `getReadBuffers` lists, the
positions that `getWriteBuffers` lists. -/
inductive Answer
  | done
  | outOfRange
  | bytes (buf : List UInt8)
  | listed (buf : List UInt8)
  | writable (positions : List Nat)

/-- What the call means for the flat buffer. -/
def PlainCall.flat (f : Flat.Buffer UInt8) : PlainCall → Answer × Flat.Buffer UInt8
  | .write buf => (.done, f.write buf)
  | .read size =>
      match f.read size with
      | none => (.outOfRange, f)
      | some (buf, f') => (.bytes buf, f')
  | .setPosition pos =>
      match f.seek pos with
      | none => (.outOfRange, f)
      | some f' => (.done, f')
  | .clear => (.done, .empty)
  | .getReadBuffers len => (.listed (f.rest.take len), f)
  | .getWriteBuffers len => (.writable (List.range' f.cursor len), f)

/-- The answer and the flat buffer after each call of a sequence. -/
def flatRuns (f : Flat.Buffer UInt8) : List PlainCall → List (Answer × Flat.Buffer UInt8)
  | [] => []
  | c :: calls => c.flat f :: flatRuns (c.flat f).2 calls

/-- The reply gives the answer, in the state that the call leaves. -/
def Reply.Gives (s : ByteArray) : Reply → Answer → Prop
  | .done, .done => True
  | .outOfRange, .outOfRange => True
  | .bytes buf, .bytes buf' => buf = buf'
  | .buffers size iovecs, .listed buf =>
      size = buf.length ∧ (∀ v ∈ iovecs, v.Inside s.nodes) ∧
        iovecs.flatMap (fun v => v.bytes s.nodes) = buf
  | .buffers size iovecs, .writable positions =>
      size = positions.length ∧ (∀ v ∈ iovecs, v.Inside s.nodes) ∧
        iovecs.flatMap (fun v => v.positions s.baseSize) = positions
  | _, _ => False

/-- A call that throws changes nothing, and no list of ranges moves the cursor or
changes the size. -/
def Undisturbed (s : ByteArray) (c : PlainCall) (r : Reply) (s' : ByteArray) : Prop :=
  (r = .outOfRange → s' = s) ∧
    ∀ len, (c = .getReadBuffers len → s' = s) ∧
      (c = .getWriteBuffers len → s'.position = s.position ∧ s'.size = s.size)

/-- A call that returns the array as it was disturbs nothing. -/
theorem undisturbed_rfl (s : ByteArray) (c : PlainCall) (r : Reply) : Undisturbed s c r s :=
  ⟨fun _ => rfl, fun _ => ⟨fun _ => rfl, fun _ => ⟨rfl, rfl⟩⟩⟩

/-- What holds of a call that does not fault, on a byte array that holds `f`. -/
structure Refines (s : ByteArray) (f : Flat.Buffer UInt8) (c : PlainCall) (r : Reply)
    (s' : ByteArray) : Prop where
  gives : r.Gives s' (c.flat f).1
  represents : Represents s' (c.flat f).2
  undisturbed : Undisturbed s c r s'

section Calls

variable {s s' : ByteArray} {f : Flat.Buffer UInt8} {r : Reply}

/-- `write` refines writing. -/
theorem refines_write (h : Represents s f) {buf : List UInt8}
    (hrun : PlainCall.run s (.write buf) = some (r, s')) : Refines s f (.write buf) r s' := by
  simp only [PlainCall.run] at hrun
  cases hout : ByteArray.write buf s with
  | ok _ s₁ =>
      rw [hout] at hrun
      cases hrun
      exact ⟨trivial, (h.write hout).1, nofun, fun _ => ⟨nofun, nofun⟩⟩
  | throws s₁ =>
      -- `write` does not throw
      unfold ByteArray.write at hout
      split at hout
      · cases hout
      · split at hout
        · cases hout
        · split at hout <;> cases hout
  | fault =>
      rw [hout] at hrun
      cases hrun

/-- `read` refines reading, the failure included. -/
theorem refines_read (h : Represents s f) {size : Nat}
    (hrun : PlainCall.run s (.read size) = some (r, s')) : Refines s f (.read size) r s' := by
  obtain ⟨hshort, hread, hfault⟩ := read_spec h.inv size
  have hcursor := h.cursor
  have helems := h.length_elems
  have hpos := h.inv.position_le
  have hcap := h.inv.size_le
  have hremain : s.getReadSize = s.size - s.position := rfl
  simp only [PlainCall.run] at hrun
  by_cases hlen : s.getReadSize < size
  · rw [hshort hlen] at hrun
    cases hrun
    have hflat : f.read size = none := dif_neg (by omega)
    refine ⟨?_, ?_, undisturbed_rfl ..⟩
    · simp [PlainCall.flat, hflat, Reply.Gives]
    · simpa [PlainCall.flat, hflat] using h
  by_cases hsafe : size ≠ 0 ∨ s.position < s.capacity
  · rw [hread (by omega) hsafe] at hrun
    cases hrun
    have hle : f.cursor + size ≤ f.elems.length := by omega
    have hflat : f.read size = some (f.rest.take size, ⟨f.elems, f.cursor + size, hle⟩) :=
      dif_pos hle
    refine ⟨?_, ?_, nofun, fun _ => ⟨nofun, nofun⟩⟩
    · simp [PlainCall.flat, hflat, Reply.Gives, h.rest]
    · simp only [PlainCall.flat, hflat]
      exact ⟨h.inv.advance (by omega), h.elems, congrArg (· + size) hcursor⟩
  · rw [hfault (by omega) (by omega)] at hrun
    cases hrun

/-- `setPosition` refines seeking, the failure included. -/
theorem refines_setPosition (h : Represents s f) {pos : Nat}
    (hrun : PlainCall.run s (.setPosition pos) = some (r, s')) :
    Refines s f (.setPosition pos) r s' := by
  obtain ⟨hover, hin⟩ := setPosition_spec h.inv pos
  have helems := h.length_elems
  simp only [PlainCall.run] at hrun
  by_cases hpos : s.size < pos
  · rw [hover hpos] at hrun
    cases hrun
    have hflat : f.seek pos = none := dif_neg (by omega)
    refine ⟨?_, ?_, undisturbed_rfl ..⟩
    · simp [PlainCall.flat, hflat, Reply.Gives]
    · simpa [PlainCall.flat, hflat] using h
  · have hle := Nat.le_of_not_lt hpos
    rw [hin hle] at hrun
    cases hrun
    obtain ⟨g, hflat, hg⟩ := h.setPosition hle
    refine ⟨?_, ?_, nofun, fun _ => ⟨nofun, nofun⟩⟩
    · simp [PlainCall.flat, hflat, Reply.Gives]
    · simpa [PlainCall.flat, hflat] using hg

/-- `clear` refines emptying. -/
theorem refines_clear (h : Represents s f) (hrun : PlainCall.run s .clear = some (r, s')) :
    Refines s f .clear r s' := by
  cases hrun
  exact ⟨trivial, ⟨h.inv.clear, rfl, rfl⟩, nofun, fun _ => ⟨nofun, nofun⟩⟩

/-- The ranges of the loop from the cursor on. -/
theorem Inv.lists (h : Inv s) {len : Nat} {iovecs : List IoVec}
    (hrun : buffersLoop (s.nodes.drop s.cur) s.cur (s.position % s.baseSize) len =
      some iovecs) : Lists s.nodes s.baseSize s.position len iovecs := by
  obtain ⟨hsplit, hmod⟩ := h.split
  have hlists := buffersLoop_lists h.uniform _ _ _ _ _ rfl hmod hrun
  rw [hsplit] at hlists
  exact hlists

/-- `getReadBuffers` lists what would be read. -/
theorem refines_getReadBuffers (h : Represents s f) {len : Nat}
    (hrun : PlainCall.run s (.getReadBuffers len) = some (r, s')) :
    Refines s f (.getReadBuffers len) r s' := by
  have hlength := h.inv.length_unread
  simp only [PlainCall.run, ByteArray.getReadBuffers] at hrun
  by_cases hzero : min len s.getReadSize = 0
  · rw [if_pos hzero] at hrun
    cases hrun
    have hnil : f.rest.take len = [] := by
      rw [← List.length_eq_zero_iff, List.length_take, h.rest, hlength]
      exact hzero
    refine ⟨?_, h, undisturbed_rfl ..⟩
    simp [PlainCall.flat, Reply.Gives, hnil]
  · rw [if_neg hzero] at hrun
    split at hrun
    · cases hrun
    · rename_i iovecs hloop
      cases hrun
      have hlists := h.inv.lists hloop
      have hbytes : (s.nodes.flatten.drop s.position).take (min len s.getReadSize) =
          f.rest.take len := by
        rw [h.rest, unread, List.take_take]
        rfl
      have hsize : min len s.getReadSize = (f.rest.take len).length := by
        rw [List.length_take, h.rest, hlength]
      refine ⟨⟨hsize, hlists.inside, ?_⟩, h, undisturbed_rfl ..⟩
      rw [hlists.bytes, hbytes]

/-- `getWriteBuffers` lists room for what would be written. -/
theorem refines_getWriteBuffers (h : Represents s f) {len : Nat}
    (hrun : PlainCall.run s (.getWriteBuffers len) = some (r, s')) :
    Refines s f (.getWriteBuffers len) r s' := by
  simp only [PlainCall.run, ByteArray.getWriteBuffers] at hrun
  by_cases hzero : len = 0
  · subst hzero
    cases hrun
    exact ⟨⟨rfl, nofun, rfl⟩, h, nofun, fun _ => ⟨nofun, fun _ => ⟨rfl, rfl⟩⟩⟩
  · rw [if_neg hzero] at hrun
    split at hrun
    · cases hrun
    · rename_i s₁ hadd
      split at hrun
      · cases hrun
      · rename_i iovecs hloop
        cases hrun
        -- beyond the remaining room the nodes can only be added below the capacity
        have hroom : len ≤ s.getRemainAmount ∨ s.position < s.capacity := by
          by_contra hnot
          have hpos := h.inv.position_le
          have hcap := h.inv.size_le
          have hnone := addCapacity_at_capacity h.inv (n := len) (by omega) (by omega)
          rw [hnone] at hadd
          cases hadd
        obtain ⟨s₂, hadd₂, hgrow⟩ := addCapacity_spec h.inv hroom
        cases hadd.symm.trans hadd₂
        have hlists := hgrow.inv.lists hloop
        refine ⟨⟨?_, hlists.inside, ?_⟩, h.growsTo hgrow, nofun, fun _ => ⟨nofun, fun _ => ?_⟩⟩
        · rw [List.length_range']
        · rw [hlists.positions, hgrow.position, h.cursor]
        · exact ⟨hgrow.position, hgrow.size⟩

/-- What one call does. -/
theorem call_refines (h : Represents s f) {c : PlainCall} (hrun : c.run s = some (r, s')) :
    Refines s f c r s' := by
  cases c with
  | write buf => exact refines_write h hrun
  | read size => exact refines_read h hrun
  | setPosition pos => exact refines_setPosition h hrun
  | clear => exact refines_clear h hrun
  | getReadBuffers len => exact refines_getReadBuffers h hrun
  | getWriteBuffers len => exact refines_getWriteBuffers h hrun

end Calls

/-! ## The base size -/

/-- Growing keeps the base size. -/
theorem addCapacity_baseSize {s s' : ByteArray} {n : Nat} (h : s.addCapacity n = some s') :
    s'.baseSize = s.baseSize := by
  unfold addCapacity at h
  by_cases hroom : n ≤ s.getRemainAmount
  · rw [if_pos hroom] at h
    cases h
    rfl
  · rw [if_neg hroom] at h
    split at h
    · cases h
    · cases h
      rfl

/-- Writing keeps the base size. -/
theorem write_baseSize {s s' : ByteArray} {buf : List UInt8} {r : Reply}
    (hrun : PlainCall.run s (.write buf) = some (r, s')) : s'.baseSize = s.baseSize := by
  simp only [PlainCall.run, ByteArray.write] at hrun
  by_cases hempty : buf = []
  · rw [if_pos hempty] at hrun
    cases hrun
    rfl
  · rw [if_neg hempty] at hrun
    split at hrun
    · cases hrun
    · rename_i s₁ hadd
      split at hrun
      · cases hrun
      · cases hrun
        have hbase : s₁.baseSize = s.baseSize := addCapacity_baseSize hadd
        exact hbase

/-- Listing room to write in keeps the base size. -/
theorem getWriteBuffers_baseSize {s s' : ByteArray} {len : Nat} {r : Reply}
    (hrun : PlainCall.run s (.getWriteBuffers len) = some (r, s')) :
    s'.baseSize = s.baseSize := by
  simp only [PlainCall.run, ByteArray.getWriteBuffers] at hrun
  by_cases hzero : len = 0
  · rw [if_pos hzero] at hrun
    cases hrun
    rfl
  · rw [if_neg hzero] at hrun
    split at hrun
    · cases hrun
    · rename_i s₁ hadd
      split at hrun
      · cases hrun
      · cases hrun
        exact addCapacity_baseSize hadd

/-- No call changes the base size that the byte array was made with. -/
theorem call_baseSize {s s' : ByteArray} {c : PlainCall} {r : Reply}
    (hrun : c.run s = some (r, s')) : s'.baseSize = s.baseSize := by
  cases c with
  | write buf => exact write_baseSize hrun
  | getWriteBuffers len => exact getWriteBuffers_baseSize hrun
  | clear =>
      cases hrun
      rfl
  | read size =>
      simp only [PlainCall.run, ByteArray.read] at hrun
      split at hrun
      · cases hrun
        rfl
      · split at hrun <;> cases hrun
        rfl
  | setPosition pos =>
      simp only [PlainCall.run, ByteArray.setPosition] at hrun
      split at hrun
      · cases hrun
        rfl
      · split at hrun <;> cases hrun
        rfl
  | getReadBuffers len =>
      simp only [PlainCall.run, ByteArray.getReadBuffers] at hrun
      split at hrun
      · cases hrun
        rfl
      · split at hrun <;> cases hrun
        rfl

/-! ## Runs -/

/-- The replies of a sequence of calls, and the states between them, follow those of
the flat buffer. -/
theorem runs_refine {b : Nat} : ∀ (calls : List PlainCall) {s : ByteArray}
    {f : Flat.Buffer UInt8} {trace : List (Reply × ByteArray)}, Represents s f →
    s.baseSize = b → runs s calls = some trace →
    List.Forall₂ (fun x y => x.1.Gives x.2 y.1 ∧ Represents x.2 y.2 ∧ x.2.baseSize = b) trace
      (flatRuns f calls) := by
  intro calls
  induction calls with
  | nil =>
      intro s f trace _ _ hrun
      cases hrun
      exact .nil
  | cons c calls ih =>
      intro s f trace h hbase hrun
      unfold runs at hrun
      split at hrun
      · cases hrun
      · rename_i r s' hcall
        obtain ⟨rest, hrest, rfl⟩ := Option.map_eq_some_iff.mp hrun
        have hstep := call_refines h hcall
        have hbase' := (call_baseSize hcall).trans hbase
        exact .cons ⟨hstep.gives, hstep.represents, hbase'⟩ (ih hstep.represents hbase' hrest)

/-- One call that does not fault. -/
def PlainStep (s : ByteArray) (c : PlainCall) (s' : ByteArray) : Prop :=
  ∃ r, c.run s = some (r, s')

/-- Every array that is reached stands for some buffer. -/
theorem reachable_represents {b : Nat} (hb : 1 ≤ b) {s : ByteArray}
    (h : Reachable (· = new b) PlainStep s) : ∃ f, Represents s f := by
  refine h.invariant (I := fun s => ∃ f, Represents s f) ?_ ?_
  · intro s hs
    subst hs
    exact ⟨_, represents_new hb⟩
  · intro s c s' hs _ hstep
    obtain ⟨f, hf⟩ := hs
    obtain ⟨r, hrun⟩ := hstep
    exact ⟨_, (call_refines hf hrun).represents⟩

/-- **A flat buffer.**  For every base size and every sequence of calls that does not
fault, the byte array is in good order after each call, with nodes of the base size it was
made with, and holds the flat buffer, and the replies are the flat buffer's answers; a call
that throws and a list of ranges leave what they should alone. -/
theorem refines_flat_buffer {b : Nat} (hb : 1 ≤ b) :
    (∀ calls trace, runs (new b) calls = some trace →
      List.Forall₂ (fun x y => x.1.Gives x.2 y.1 ∧ Represents x.2 y.2 ∧ x.2.baseSize = b)
        trace (flatRuns .empty calls)) ∧
    ∀ s, Reachable (· = new b) PlainStep s →
      ∀ c r s', c.run s = some (r, s') → Undisturbed s c r s' := by
  refine ⟨fun calls trace hrun => runs_refine calls (represents_new hb) rfl hrun, ?_⟩
  intro s hreach c r s' hrun
  obtain ⟨f, hf⟩ := reachable_represents hb hreach
  exact (call_refines hf hrun).undisturbed

/-- Five bytes in nodes of two are overwritten in the middle. -/
def overwriteInTheMiddle : List PlainCall :=
  [.write [1, 2, 3, 4, 5], .setPosition 1, .write [9, 8], .getReadBuffers 9, .read 2, .read 1]

/-- Five bytes in three chunks, two of them overwritten, with two failures. -/
theorem refines_flat_buffer_of_three_nodes :
    ∃ trace, runs (new 2) overwriteInTheMiddle = some trace ∧
      trace.map Prod.fst = [.done, .done, .done, .buffers 2 [⟨1, 1, 1⟩, ⟨2, 0, 1⟩],
        .bytes [4, 5], .outOfRange] ∧
      List.Forall₂ (fun x y => x.1.Gives x.2 y.1 ∧ Represents x.2 y.2 ∧ x.2.baseSize = 2)
        trace (flatRuns .empty overwriteInTheMiddle) := by
  have hrun : (runs (new 2) overwriteInTheMiddle).map (fun trace => trace.map Prod.fst) =
      some [.done, .done, .done, .buffers 2 [⟨1, 1, 1⟩, ⟨2, 0, 1⟩], .bytes [4, 5],
        .outOfRange] := by decide +kernel
  obtain ⟨trace, htrace, hreplies⟩ := Option.map_eq_some_iff.mp hrun
  exact ⟨trace, htrace, hreplies,
    (refines_flat_buffer (b := 2) (by decide)).1 overwriteInTheMiddle trace htrace⟩

end ByteArray

end Agent
