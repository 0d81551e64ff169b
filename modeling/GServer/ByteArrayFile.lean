import GServer.ByteArrayRefinement
import GServer.ByteArrayReadAt

/-!
# A byte array written to a file and loaded from one

`writeToFile` walks the nodes from the cursor and takes from each what it thinks is
unread in it: the chunk size or the rest, whichever is smaller, less the offset in
the first node.  Where the cursor is inside a node and less than a whole chunk is
unread this difference is short by the offset, and the next nodes go wrong.

`readFromFile` reads the file in pieces of the chunk size and writes each of them,
so it needs what these writes need: it faults where a piece is still to come when
the position is at the capacity.
-/

namespace Agent

open Faults Runs Chunks

/-- A call of `ofs.write`: the node, and the offset and the number of bytes as they are
computed. -/
structure FileWrite where
  node : Nat
  base : Int
  len : Int
deriving DecidableEq

/-- The range of the node that is written. -/
def FileWrite.range (w : FileWrite) : IoVec :=
  ⟨w.node, w.base.toNat, w.len.toNat⟩

namespace ByteArray

/-- A `size_t` converted to `int`. -/
def toInt (n : Int) : Int :=
  Int.bmod n 4294967296

/-- The loop of `writeToFile` from the node with index `i` on; none where it goes through
a null pointer. -/
def writeToFileLoop (baseSize : Nat) :
    List (List UInt8) → Nat → Int → Int → Option (List FileWrite)
  | [], _, _, readSize => if readSize ≤ 0 then some [] else none
  | _ :: rest, i, pos, readSize =>
      if readSize ≤ 0 then some []
      else
        let diff := toInt (pos % baseSize)
        let len := (if baseSize < readSize then (baseSize : Int) else readSize) - diff
        (writeToFileLoop baseSize rest (i + 1) (pos + len) (readSize - len)).map
          (⟨i, diff, len⟩ :: ·)

/-- `ByteArray::writeToFile` to a file that could be opened: its calls of `ofs.write`. -/
def writeToFile (s : ByteArray) : Option (List FileWrite) :=
  writeToFileLoop s.baseSize (s.nodes.drop s.cur) s.cur s.position s.getReadSize

/-- The loop of `readFromFile` on what is left of the file.  A read that finds less than
it asks for sets the end-of-file flag.  A loop of `contents.length + 1` turns comes to
the end. -/
def readFromFileLoop : Nat → List UInt8 → Op Unit
  | 0, _ => fun _ => .fault
  | turns + 1, contents => fun s =>
      (write (contents.take s.baseSize) >>= fun _ =>
        if contents.length < s.baseSize then pure ()
        else readFromFileLoop turns (contents.drop s.baseSize)) s

/-- `ByteArray::readFromFile` of a file that could be opened. -/
def readFromFile (contents : List UInt8) : Op Unit :=
  readFromFileLoop (contents.length + 1) contents

/-! ## Writing to a file -/

/-- The calls of `ofs.write` have no negative length and write the bytes from the position
to the size, in order. -/
def WritesUnread (s : ByteArray) : Prop :=
  ∃ writes, writeToFile s = some writes ∧ (∀ w ∈ writes, 0 ≤ w.base ∧ 0 ≤ w.len) ∧
    Lists s.nodes s.baseSize s.position s.getReadSize (writes.map FileWrite.range)

/-- What the file contains. -/
def fileContents (s : ByteArray) (writes : List FileWrite) : List UInt8 :=
  (writes.map FileWrite.range).flatMap fun v => v.bytes s.nodes

/-- Nothing is unread, or the cursor is at the start of a node or a whole chunk is unread.
The offset in a node is an `int`. -/
def WholeChunk (s : ByteArray) : Prop :=
  s.getReadSize = 0 ∨ (s.position % s.baseSize < 2147483648 ∧
    (s.position % s.baseSize = 0 ∨ s.baseSize ≤ s.getReadSize))

instance (s : ByteArray) : Decidable (WholeChunk s) :=
  inferInstanceAs (Decidable (_ ∨ _))

section WriteLoop

variable {b : Nat}

/-- A length below 2^31 is itself as an `int`. -/
theorem toInt_of_lt {n : Nat} (h : n < 2147483648) : toInt n = n := by
  unfold toInt Int.bmod
  dsimp only
  split <;> omega

/-- A length that is itself as an `int` is below 2^31. -/
theorem lt_of_toInt_eq {n : Nat} (h : toInt n = n) : n < 2147483648 := by
  unfold toInt Int.bmod at h
  dsimp only at h
  split at h <;> omega

/-- A range of a node as a call of `ofs.write`. -/
def IoVec.fileWrite (v : IoVec) : FileWrite :=
  ⟨v.node, v.base, v.len⟩

/-- The buffers are written where they lie. -/
theorem range_comp_fileWrite : FileWrite.range ∘ IoVec.fileWrite = id := by
  funext v
  simp [IoVec.fileWrite, FileWrite.range]

/-- At the start of a node, or with a whole chunk unread, the loop writes what
`getReadBuffers` lists. -/
theorem writeToFileLoop_eq (hb : 1 ≤ b) :
    ∀ (nodes : List (List UInt8)) (i npos rs : Nat), Uniform b nodes → npos < b →
      npos < 2147483648 → npos = 0 ∨ b ≤ rs → 1 ≤ rs →
      writeToFileLoop b nodes i ((i * b + npos : Nat) : Int) rs =
        (buffersLoop nodes i npos rs).map (List.map IoVec.fileWrite) := by
  intro nodes
  induction nodes with
  | nil =>
      intro i npos rs _ _ _ _ hrs
      rw [writeToFileLoop, if_neg (by omega), buffersLoop]
      rfl
  | cons node rest ih =>
      intro i npos rs huni hnpos hint hfit hrs
      have hmod : (((i * b + npos : Nat) : Int) % (b : Int)) = (npos : Nat) := by
        rw [← Int.natCast_mod, Nat.mul_add_mod_self_right, Nat.mod_eq_of_lt hnpos]
      rw [writeToFileLoop, if_neg (by omega), buffersLoop, huni.head]
      dsimp only
      rw [hmod, toInt_of_lt hint]
      by_cases hlast : rs ≤ b - npos
      · -- the rest is in this node, and the loop ends
        have hlen : (if (b : Int) < rs then (b : Int) else rs) - (npos : Nat) = (rs : Nat) := by
          split <;> omega
        have hdone : writeToFileLoop b rest (i + 1) (((i * b + npos : Nat) : Int) + rs)
            ((rs : Int) - rs) = some [] := by
          rw [Int.sub_self]
          cases rest <;> rfl
        rw [hlen, hdone, if_pos hlast]
        rfl
      · have hlen : (if (b : Int) < rs then (b : Int) else rs) - (npos : Nat) =
            ((b - npos : Nat) : Int) := by
          split <;> omega
        have hnext : (((i * b + npos : Nat) : Int) + ((b - npos : Nat) : Int)) =
            (((i + 1) * b + 0 : Nat) : Int) := by
          rw [Nat.succ_mul]
          omega
        have hleft : ((rs : Int) - ((b - npos : Nat) : Int)) = ((rs - (b - npos) : Nat) : Int) := by
          omega
        rw [hlen, hnext, hleft, if_neg hlast,
          ih (i + 1) 0 (rs - (b - npos)) huni.tail hb (by decide) (Or.inl rfl) (by omega)]
        cases buffersLoop rest (i + 1) 0 (rs - (b - npos)) <;> rfl

/-- The loop only goes on to later nodes. -/
theorem node_of_writeToFileLoop (nodes : List (List UInt8)) :
    ∀ (i : Nat) (pos rs : Int) (writes : List FileWrite),
      writeToFileLoop b nodes i pos rs = some writes → ∀ w ∈ writes, i ≤ w.node := by
  induction nodes with
  | nil =>
      intro i pos rs writes hrun w hw
      rw [writeToFileLoop] at hrun
      split at hrun
      · cases hrun
        exact absurd hw List.not_mem_nil
      · cases hrun
  | cons node rest ih =>
      intro i pos rs writes hrun w hw
      rw [writeToFileLoop] at hrun
      split at hrun
      · cases hrun
        exact absurd hw List.not_mem_nil
      · obtain ⟨later, hlater, rfl⟩ := Option.map_eq_some_iff.mp hrun
        rcases List.mem_cons.mp hw with rfl | hw
        · exact Nat.le_refl i
        · exact Nat.le_of_succ_le (ih _ _ _ _ hlater w hw)

/-- Bytes before the node with index `i` are not among those written from there on. -/
theorem not_behind {writes : List FileWrite} {i start n : Nat} (hnode : ∀ w ∈ writes, i ≤ w.node)
    (hstart : start < i * b) (hn : 1 ≤ n) :
    (writes.map FileWrite.range).flatMap (fun v => v.positions b) ≠ List.range' start n := by
  intro heq
  have hmem : start ∈ (writes.map FileWrite.range).flatMap (fun v => v.positions b) := by
    rw [heq, List.mem_range'_1]
    omega
  obtain ⟨v, hv, hin⟩ := List.mem_flatMap.mp hmem
  obtain ⟨w, hw, rfl⟩ := List.mem_map.mp hv
  rw [IoVec.positions, List.mem_range'_1] at hin
  have hle := Nat.mul_le_mul_right b (hnode w hw)
  have hbase : w.node * b ≤ start := Nat.le_trans (Nat.le_add_right _ _) hin.1
  omega

end WriteLoop

section WriteToFile

variable {s : ByteArray}

/-- With the cursor at the begin of a chunk the file has the unread bytes. -/
theorem writesUnread_of_wholeChunk (h : Inv s) (hwhole : WholeChunk s) : WritesUnread s := by
  obtain ⟨hsplit, hmod⟩ := h.split
  have hsize := h.size_le
  by_cases hzero : s.getReadSize = 0
  · refine ⟨[], ?_, fun w hw => absurd hw List.not_mem_nil, ?_⟩
    · rw [writeToFile, hzero]
      cases s.nodes.drop s.cur <;> rfl
    · rw [hzero]
      exact lists_nil
  obtain hnone | ⟨hint, hfit⟩ := hwhole
  · exact absurd hnone hzero
  have hread : s.position + s.getReadSize ≤ s.capacity := by
    have hpos := h.position_le
    simp only [getReadSize]
    omega
  obtain ⟨iovecs, hloop⟩ := (buffersLoop_spec (s.nodes.drop s.cur) s.cur
    (s.position % s.baseSize) s.getReadSize (h.uniform.drop s.cur) hmod (by omega)).1
    (h.rest.mpr hread)
  have hrun := writeToFileLoop_eq h.base (s.nodes.drop s.cur) s.cur (s.position % s.baseSize)
    s.getReadSize (h.uniform.drop s.cur) hmod hint hfit (by omega)
  rw [hsplit, hloop] at hrun
  refine ⟨_, hrun, fun w hw => ?_, ?_⟩
  · obtain ⟨v, -, rfl⟩ := List.mem_map.mp hw
    exact ⟨Int.natCast_nonneg _, Int.natCast_nonneg _⟩
  · rw [List.map_map, range_comp_fileWrite, List.map_id]
    exact h.lists hloop

/-- A file has the unread bytes only with the cursor at the begin of a chunk. -/
theorem wholeChunk_of_writesUnread (h : Inv s) (hwrites : WritesUnread s) : WholeChunk s := by
  obtain ⟨hsplit, hmod⟩ := h.split
  by_cases hzero : s.getReadSize = 0
  · exact Or.inl hzero
  refine Or.inr ?_
  obtain ⟨writes, hrun, hsigns, hlists⟩ := hwrites
  have hpositions := hlists.positions
  unfold writeToFile at hrun
  cases hnodes : s.nodes.drop s.cur with
  | nil =>
      rw [hnodes, writeToFileLoop, if_neg (by omega)] at hrun
      cases hrun
  | cons node rest =>
      rw [hnodes, writeToFileLoop, if_neg (by omega)] at hrun
      dsimp only at hrun
      rw [← Int.natCast_mod] at hrun
      generalize hnpos : s.position % s.baseSize = npos at *
      generalize hrs : s.getReadSize = rs at *
      obtain ⟨later, hlater, rfl⟩ := Option.map_eq_some_iff.mp hrun
      have hnode := node_of_writeToFileLoop rest _ _ _ _ hlater
      obtain ⟨hdiff, hlen⟩ := hsigns _ List.mem_cons_self
      dsimp only at hdiff hlen
      generalize hd : toInt npos = diff at *
      generalize hl : (if (s.baseSize : Int) < rs then (s.baseSize : Int) else rs) - diff = len
        at *
      have hend : s.position < (s.cur + 1) * s.baseSize := by
        rw [Nat.succ_mul]
        omega
      simp only [List.map_cons, List.flatMap_cons, FileWrite.range, IoVec.positions]
        at hpositions
      by_cases hnothing : len.toNat = 0
      · -- nothing is taken from the node of the cursor, so its bytes are left out
        rw [hnothing] at hpositions
        exact absurd hpositions (not_behind hnode hend (by omega))
      have hle : len.toNat ≤ rs := by
        have hlength := congrArg List.length hpositions
        simp only [List.length_append, List.length_range'] at hlength
        omega
      have hsum : len.toNat + (rs - len.toNat) = rs := by omega
      rw [← hsum, ← List.range'_append_1] at hpositions
      obtain ⟨hfirst, hothers⟩ := List.append_inj hpositions (by simp)
      have hhead : s.cur * s.baseSize + diff.toNat = s.position := by
        obtain ⟨k, hk⟩ := Nat.exists_eq_succ_of_ne_zero hnothing
        rw [hk, List.range'_succ, List.range'_succ] at hfirst
        exact (List.cons.inj hfirst).1
      have hsame : diff = npos := by omega
      rw [hsame] at hd
      refine ⟨lt_of_toInt_eq hd, ?_⟩
      by_contra hnot
      -- the node of the cursor is left while bytes of it are unread
      have hshort : len = rs - npos := by
        rw [← hl, hsame, if_neg (by omega)]
      refine not_behind hnode ?_ ?_ hothers
      · rw [Nat.succ_mul]
        omega
      · omega

/-- **Writing to a file.**  The loop writes what is unread, in order and with no negative
length, exactly when nothing is unread, the cursor is at the start of a node, or a whole
chunk is unread. -/
theorem writesUnread_iff (h : Inv s) : WritesUnread s ↔ WholeChunk s :=
  ⟨wholeChunk_of_writesUnread h, writesUnread_of_wholeChunk h⟩

end WriteToFile

/-! ## Loading a file -/

/-- The file's bytes are appended to what there is, and the cursor is behind them. -/
def Appends (s : ByteArray) (contents : List UInt8) : Prop :=
  ∃ s', readFromFile contents s = .ok () s' ∧
    s'.position = s.position + contents.length ∧ s'.size = s.size + contents.length ∧
    s'.data.take s'.size = s.data.take s.size ++ contents

/-- The cursor is inside a node, or the file fits into the nodes that are there. -/
def FitsOrInside (s : ByteArray) (contents : List UInt8) : Prop :=
  s.position % s.baseSize ≠ 0 ∨ s.position + contents.length ≤ s.capacity

instance (s : ByteArray) (contents : List UInt8) : Decidable (FitsOrInside s contents) :=
  inferInstanceAs (Decidable (_ ∨ _))

/-- For at most a chunk the computed number of nodes is not zero. -/
theorem nodeCount_pos {n b : Nat} (hn : 1 ≤ n) (hle : n ≤ b) : 1 ≤ nodeCount n b := by
  obtain ⟨hlow, hhigh⟩ := Doubles.ceilQuotient_toDouble_near hn hle
  unfold nodeCount
  generalize Doubles.ceilQuotient (Doubles.toDouble n) (Doubles.toDouble b) = k at hlow hhigh ⊢
  have hmod : ((k : Int) % (2 ^ 32 : Nat)) = k := Int.emod_eq_of_lt (by omega) (by omega)
  rw [Int.bmod_eq_emod_of_lt (by rw [hmod]; omega), hmod, Int.toNat_natCast]
  exact hlow

section Load

variable {s : ByteArray}

/-- At most a chunk finds room unless the position is at the capacity. -/
theorem room_piece {n : Nat} (hn : n ≤ s.baseSize) :
    Room s.baseSize s.position s.capacity n ↔ n = 0 ∨ n ≤ s.capacity - s.position ∨
      s.position < s.capacity := by
  unfold Room
  constructor
  · rintro (hfit | ⟨hlt, -⟩)
    · exact Or.inr (Or.inl hfit)
    · exact Or.inr (Or.inr hlt)
  · rintro (rfl | hfit | hlt)
    · exact Or.inl (Nat.zero_le _)
    · exact Or.inl hfit
    · by_cases hfit : n ≤ s.capacity - s.position
      · exact Or.inl hfit
      · have hcount := nodeCount_pos (n := n - (s.capacity - s.position)) (b := s.baseSize)
          (by omega) (by omega)
        have := Nat.mul_le_mul_right s.baseSize hcount
        exact Or.inr ⟨hlt, by omega⟩

/-- Between two positions at the start of nodes there are whole nodes. -/
theorem Inv.next_node (h : Inv s) (hstart : s.position % s.baseSize = 0)
    (hlt : s.position < s.capacity) : s.position + s.baseSize ≤ s.capacity := by
  obtain ⟨hsplit, -⟩ := h.split
  rw [hstart, Nat.add_zero] at hsplit
  have hcur := h.cur_lt_iff.mpr hlt
  have hmul := Nat.mul_le_mul_right s.baseSize hcur
  rw [Nat.succ_mul, hsplit, ← h.capacity] at hmul
  exact hmul

/-- A cursor inside a chunk is inside the capacity. -/
theorem Inv.lt_capacity (h : Inv s) (hinside : s.position % s.baseSize ≠ 0) :
    s.position < s.capacity := by
  have hpos := h.position_le
  have hsize := h.size_le
  have hne : s.position ≠ s.capacity := by
    intro heq
    rw [heq, h.capacity, Nat.mul_mod_left] at hinside
    exact hinside rfl
  omega

/-- One turn of the loop. -/
theorem readFromFileLoop_succ (turns : Nat) (contents : List UInt8) (s : ByteArray) :
    readFromFileLoop (turns + 1) contents s =
      (write (contents.take s.baseSize) >>= fun _ =>
        if contents.length < s.baseSize then pure ()
        else readFromFileLoop turns (contents.drop s.baseSize)) s := rfl

/-- **The loop of `readFromFile`.**  It overwrites or extends at the cursor like one write
of the whole file, or faults. -/
theorem readFromFileLoop_spec :
    ∀ (turns : Nat) (contents : List UInt8) (s : ByteArray), Inv s → contents.length < turns →
      (FitsOrInside s contents → ∃ s', readFromFileLoop turns contents s = .ok () s' ∧
        ∀ f, Represents s f → Represents s' (f.write contents)) ∧
      (¬ FitsOrInside s contents → readFromFileLoop turns contents s = .fault) := by
  intro turns
  induction turns with
  | zero => intro contents s _ hturns; omega
  | succ turns ih =>
      intro contents s h hturns
      have hbase := h.base
      have hpos := h.position_le
      have hsize := h.size_le
      have hgot : (contents.take s.baseSize).length = min s.baseSize contents.length :=
        List.length_take
      have hpiece := room_piece (s := s) (n := min s.baseSize contents.length)
        (Nat.min_le_left _ _)
      obtain ⟨hok, hfault⟩ := write_cases h (contents.take s.baseSize)
      rw [hgot, hpiece] at hok hfault
      rw [readFromFileLoop_succ]
      by_cases hroom : min s.baseSize contents.length = 0 ∨
          min s.baseSize contents.length ≤ s.capacity - s.position ∨ s.position < s.capacity
      · obtain ⟨s₁, hrun, hinv₁, hbase₁, hpos₁, hcap₁⟩ := hok hroom
        clear hok
        rw [Program.bind_of_ok hrun]
        by_cases hlast : contents.length < s.baseSize
        · rw [if_pos hlast]
          have hall : contents.take s.baseSize = contents :=
            List.take_of_length_le (Nat.le_of_lt hlast)
          rw [hall] at hrun
          refine ⟨fun _ => ⟨s₁, rfl, fun f hf => (hf.write hrun).1⟩, fun hnot => ?_⟩
          obtain ⟨hstart, hover⟩ := not_or.mp hnot
          have hnext := h.next_node (of_not_not hstart)
          omega
        · rw [if_neg hlast]
          have hsame : FitsOrInside s₁ (contents.drop s.baseSize) ↔ FitsOrInside s contents := by
            unfold FitsOrInside
            rw [hbase₁, hpos₁, hcap₁, List.length_drop, Nat.min_eq_left (by omega),
              Nat.add_mod_right]
            by_cases hstart : s.position % s.baseSize = 0
            · have hnext := h.next_node hstart
              rw [grown, if_pos (by omega)]
              omega
            · simp [hstart]
          obtain ⟨hyes, hno⟩ := ih (contents.drop s.baseSize) s₁ hinv₁ (by
            rw [List.length_drop]
            omega)
          rw [hsame] at hyes hno
          refine ⟨fun hfits => ?_, hno⟩
          obtain ⟨s', hs', hrep⟩ := hyes hfits
          refine ⟨s', hs', fun f hf => ?_⟩
          have := hrep _ (hf.write hrun).1
          rwa [Flat.Buffer.write_write, List.take_append_drop] at this
      · rw [Program.bind_of_fault (hfault hroom)]
        refine ⟨fun hfits => absurd ?_ hroom, fun _ => rfl⟩
        rcases hfits with hinside | hfits
        · exact Or.inr (Or.inr (h.lt_capacity hinside))
        · exact Or.inr (Or.inl (by omega))

/-- **Loading a file.**  With the cursor at the end of the data the file is appended
exactly when the cursor is inside a node or the nodes that are there hold the file. -/
theorem appends_iff (h : Inv s) (hend : s.position = s.size) (contents : List UInt8) :
    Appends s contents ↔ FitsOrInside s contents := by
  obtain ⟨hyes, hno⟩ := readFromFileLoop_spec (contents.length + 1) contents s h
    (Nat.lt_succ_self _)
  constructor
  · rintro ⟨s', hrun, -⟩
    by_contra hnot
    have hfault : readFromFile contents s = .fault := hno hnot
    cases hfault.symm.trans hrun
  · intro hfits
    obtain ⟨s', hrun, hrep⟩ := hyes hfits
    obtain ⟨f, hf⟩ := h.represents
    have hf' := hrep f hf
    have hcursor : f.cursor = f.elems.length := by
      rw [hf.cursor, hf.length_elems, hend]
    have helems : (f.write contents).elems = f.elems ++ contents := by
      simp only [Flat.Buffer.write, overwrite, hcursor, List.take_length]
      rw [List.drop_eq_nil_of_le (Nat.le_add_right _ _), List.append_nil]
    refine ⟨s', hrun, ?_, ?_, ?_⟩
    · rw [← hf'.cursor, ← hf.cursor]
      rfl
    · rw [← hf'.length_elems, helems, List.length_append, hf.length_elems]
    · rw [← hf'.elems, helems, hf.elems]

end Load

/-! ## The two together -/

/-- The unread bytes are written to a file, and loading it into a new array gives them
back. -/
def DumpsAndLoads (s : ByteArray) (baseSize : Nat) : Prop :=
  ∃ writes s', writeToFile s = some writes ∧ (∀ w ∈ writes, 0 ≤ w.base ∧ 0 ≤ w.len) ∧
    Lists s.nodes s.baseSize s.position s.getReadSize (writes.map FileWrite.range) ∧
    readFromFile (fileContents s writes) (new baseSize) = .ok () s' ∧
    s'.data.take s'.size = s.unread

/-- A dump is loaded whole exactly when it begins with a chunk and fits the buffer. -/
theorem dumpsAndLoads_iff {s : ByteArray} (h : Inv s) {b : Nat} (hb : 1 ≤ b) :
    DumpsAndLoads s b ↔ WholeChunk s ∧ s.getReadSize ≤ b := by
  have hfits : ∀ contents, FitsOrInside (new b) contents ↔ contents.length ≤ b := by
    intro contents
    simp [FitsOrInside, new]
  have hempty : ((new b).data.take (new b).size) = [] := by
    simp [new]
  have hlen := h.length_unread
  constructor
  · rintro ⟨writes, s', hrun, hsigns, hlists, hload, -⟩
    have hcontents : fileContents s writes = s.unread := hlists.bytes
    refine ⟨wholeChunk_of_writesUnread h ⟨writes, hrun, hsigns, hlists⟩, ?_⟩
    by_contra hover
    have hnot : ¬ FitsOrInside (new b) s.unread := by
      rw [hfits, hlen]
      exact hover
    rw [hcontents] at hload
    have hfault : readFromFile s.unread (new b) = .fault :=
      (readFromFileLoop_spec _ _ _ (inv_new hb) (Nat.lt_succ_self _)).2 hnot
    cases hfault.symm.trans hload
  · rintro ⟨hwhole, hfit⟩
    obtain ⟨writes, hrun, hsigns, hlists⟩ := writesUnread_of_wholeChunk h hwhole
    have hcontents : fileContents s writes = s.unread := hlists.bytes
    obtain ⟨s', hload, -, -, hdata⟩ := (appends_iff (inv_new hb) rfl s.unread).mpr
      ((hfits _).mpr (by rw [hlen]; exact hfit))
    rw [hempty, List.nil_append] at hdata
    exact ⟨writes, s', hrun, hsigns, hlists, by rw [hcontents]; exact hload, hdata⟩

/-- **Dump and load.**  In every state reached the unread bytes are written to the file
exactly when the cursor is at the start of a node or a whole chunk is unread; a file is
appended at the end of the data exactly when the cursor is inside a node or the nodes
hold it; and an array comes back through a file from a new one exactly when it is
written and is at most a chunk. -/
theorem dumps_and_loads_iff {b : Nat} (hb : 1 ≤ b) {s : ByteArray}
    (hs : Reachable (· = new b) Step s) :
    (WritesUnread s ↔ WholeChunk s) ∧
    (s.position = s.size → ∀ contents, Appends s contents ↔ FitsOrInside s contents) ∧
    ∀ b', 1 ≤ b' → (DumpsAndLoads s b' ↔ WholeChunk s ∧ s.getReadSize ≤ b') := by
  have h := inv_of_reachable hb hs
  exact ⟨writesUnread_iff h, fun hend contents => appends_iff h hend contents,
    fun b' hb' => dumpsAndLoads_iff h hb'⟩

/-- Six bytes in two nodes of four go through a file into a new array of one node of
eight. -/
theorem dumps_and_loads_six :
    WritesUnread (sixInTwoNodes 0 0) ∧ Appends (sixInTwoNodes 6 1) [7, 8, 9] ∧
      DumpsAndLoads (sixInTwoNodes 0 0) 8 := by
  obtain ⟨hsix, hsought⟩ := reachable_sixInTwoNodes
  have hdump := dumps_and_loads_iff (b := 4) (by decide) hsought
  have hload := dumps_and_loads_iff (b := 4) (by decide) hsix
  exact ⟨hdump.1.mpr (by decide), (hload.2.1 rfl _).mpr (by decide),
    (hdump.2.2 8 (by decide)).mpr (by decide)⟩

/-- With three of six bytes unread from the last byte of a node on, the loop takes nothing
from any node and runs off the list.  A file of five bytes faults in an array of one node
of four. -/
theorem dump_and_load_fault :
    (∃ s, Reachable (· = new 4) Step s ∧ s.unread = [4, 5, 6] ∧ ¬ WritesUnread s) ∧
      ¬ Appends (new 4) [1, 2, 3, 4, 5] := by
  have hseek : Step (sixInTwoNodes 6 1) (.setPosition 3) (sixInTwoNodes 3 0) := rfl
  have hdump : writeToFile (sixInTwoNodes 3 0) = none := by decide
  have hload : readFromFile [1, 2, 3, 4, 5] (new 4) = .fault := rfl
  refine ⟨⟨_, .next reachable_sixInTwoNodes.1 trivial hseek, rfl, ?_⟩, ?_⟩
  · rintro ⟨writes, hrun, -⟩
    cases hdump.symm.trans hrun
  · rintro ⟨s', hrun, -⟩
    cases hload.symm.trans hrun

end ByteArray

end Agent
