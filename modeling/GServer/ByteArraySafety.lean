import GServer.ByteArraySpec

/-!
# When the byte array stays on its chunk list

A public call faults where it goes through a null `m_cur` or `next`.  For every
call the condition under which it does not is stated on the state before it: a
write needs room for its bytes, a read of no bytes needs a position below the
capacity.  A typed write is one or two writes, a typed read is a read of fixed
length, a loop of one-byte reads, or a length followed by that many bytes.
-/

namespace Agent

open Faults Runs

namespace ByteArray

/-! ## The public calls -/

/-- The typed writes. -/
inductive TypedWrite
  | fint8 (value : BitVec 8)
  | fuint8 (value : BitVec 8)
  | fint16 (value : BitVec 16)
  | fuint16 (value : BitVec 16)
  | fint32 (value : BitVec 32)
  | fuint32 (value : BitVec 32)
  | fint64 (value : BitVec 64)
  | fuint64 (value : BitVec 64)
  | float (bits : BitVec 32)
  | double (bits : BitVec 64)
  | int32 (value : BitVec 32)
  | uint32 (value : BitVec 32)
  | int64 (value : BitVec 64)
  | uint64 (value : BitVec 64)
  | stringF16 (value : List UInt8)
  | stringF32 (value : List UInt8)
  | stringF64 (value : List UInt8)
  | stringVint (value : List UInt8)
  | stringWithoutLength (value : List UInt8)

/-- The typed reads. -/
inductive TypedRead
  | fint8 | fuint8 | fint16 | fuint16 | fint32 | fuint32 | fint64 | fuint64
  | float | double
  | int32 | uint32 | int64 | uint64
  | stringF16 | stringF32 | stringF64 | stringVint

/-- The public calls. -/
inductive Call
  | write (buf : List UInt8)
  | typedWrite (w : TypedWrite)
  | read (size : Nat)
  | typedRead (r : TypedRead)
  | setPosition (pos : Nat)
  | clear
  | getReadBuffers (len : Nat)
  | getWriteBuffers (len : Nat)
  | setIsLittleEndian (val : Bool)

/-- The member function of a typed write. -/
def TypedWrite.run : TypedWrite → Op Unit
  | .fint8 value => writeFint8 value
  | .fuint8 value => writeFuint8 value
  | .fint16 value => writeFint16 value
  | .fuint16 value => writeFuint16 value
  | .fint32 value => writeFint32 value
  | .fuint32 value => writeFuint32 value
  | .fint64 value => writeFint64 value
  | .fuint64 value => writeFuint64 value
  | .float bits => writeFloat bits
  | .double bits => writeDouble bits
  | .int32 value => writeInt32 value
  | .uint32 value => writeUint32 value
  | .int64 value => writeInt64 value
  | .uint64 value => writeUint64 value
  | .stringF16 value => writeStringF16 value
  | .stringF32 value => writeStringF32 value
  | .stringF64 value => writeStringF64 value
  | .stringVint value => writeStringVint value
  | .stringWithoutLength value => writeStringWithoutLength value

/-- The state that the member function of a typed read leaves. -/
def TypedRead.after (s : ByteArray) : TypedRead → Option ByteArray
  | .fint8 => (readFint8 s).state?
  | .fuint8 => (readFuint8 s).state?
  | .fint16 => (readFint16 s).state?
  | .fuint16 => (readFuint16 s).state?
  | .fint32 => (readFint32 s).state?
  | .fuint32 => (readFuint32 s).state?
  | .fint64 => (readFint64 s).state?
  | .fuint64 => (readFuint64 s).state?
  | .float => (readFloat s).state?
  | .double => (readDouble s).state?
  | .int32 => (readInt32 s).state?
  | .uint32 => (readUint32 s).state?
  | .int64 => (readInt64 s).state?
  | .uint64 => (readUint64 s).state?
  | .stringF16 => (readStringF16 s).state?
  | .stringF32 => (readStringF32 s).state?
  | .stringF64 => (readStringF64 s).state?
  | .stringVint => (readStringVint s).state?

/-- The state that a call leaves, by returning or by throwing; none where it
faults. -/
def Call.after (s : ByteArray) : Call → Option ByteArray
  | .write buf => (ByteArray.write buf s).state?
  | .typedWrite w => (w.run s).state?
  | .read size => (ByteArray.read size s).state?
  | .typedRead r => r.after s
  | .setPosition pos => (ByteArray.setPosition pos s).state?
  | .clear => (ByteArray.clear s).state?
  | .getReadBuffers len => (ByteArray.getReadBuffers len s).state?
  | .getWriteBuffers len => (ByteArray.getWriteBuffers len s).state?
  | .setIsLittleEndian val => (ByteArray.setIsLittleEndian val s).state?

/-- One call. -/
def Step (s : ByteArray) (c : Call) (s' : ByteArray) : Prop :=
  c.after s = some s'

/-- The call goes through no null pointer. -/
def NoFault (s : ByteArray) (c : Call) : Prop :=
  c.after s ≠ none

/-! ## Room -/

/-- Below `2 ^ 53` bytes and `2 ^ 31` nodes the computed number of nodes is the
quotient rounded up. -/
theorem nodeCount_eq {n b : Nat} (hb : 1 ≤ b) (hn : n < 2 ^ 53) (hb53 : b < 2 ^ 53)
    (hcount : (n + (b - 1)) / b < 2 ^ 31) : nodeCount n b = (n + (b - 1)) / b := by
  unfold nodeCount
  rw [Doubles.toDouble_of_lt hn, Doubles.toDouble_of_lt hb53, Doubles.ceilQuotient_eq hb hn]
  generalize (n + (b - 1)) / b = k at hcount
  have hmod : ((k : Int) % (2 ^ 32 : Nat)) = k := Int.emod_eq_of_lt (by omega) (by omega)
  rw [Int.bmod_eq_emod_of_lt (by rw [hmod]; omega), hmod, Int.toNat_natCast]

/-- **Room, for lengths in the common range.**  There is room for `n ≥ 1` bytes
exactly when the position is below the capacity. -/
theorem room_iff_lt {b position capacity n : Nat} (hb : 1 ≤ b) (hn : 1 ≤ n)
    (hn53 : n < 2 ^ 53) (hb53 : b < 2 ^ 53) (hcount : (n + (b - 1)) / b < 2 ^ 31) :
    Room b position capacity n ↔ position < capacity := by
  refine ⟨fun hroom => ?_, fun hlt => ?_⟩
  · rcases hroom with hroom | ⟨hlt, -⟩ <;> omega
  by_cases hfit : n ≤ capacity - position
  · exact Or.inl hfit
  refine Or.inr ⟨hlt, ?_⟩
  generalize hm : n - (capacity - position) = m
  have hmn : m ≤ n := by omega
  have hle : (m + (b - 1)) / b ≤ (n + (b - 1)) / b := Nat.div_le_div_right (by omega)
  rw [nodeCount_eq hb (by omega) hb53 (by omega)]
  have hdm := Nat.div_add_mod (m + (b - 1)) b
  have hmod := Nat.mod_lt (m + (b - 1)) hb
  rw [Nat.mul_comm] at hdm
  omega

/-! ## Writes -/

/-- Writes of these lengths, one after the other, all find room. -/
def WritesFit (baseSize : Nat) : Nat → Nat → List Nat → Prop
  | _, _, [] => True
  | position, capacity, n :: ns =>
      Room baseSize position capacity n ∧
        WritesFit baseSize (position + n) (grown baseSize position capacity n) ns

/-- The lengths of the writes that a typed write makes. -/
def TypedWrite.lengths : TypedWrite → List Nat
  | .fint8 _ | .fuint8 _ => [1]
  | .fint16 _ | .fuint16 _ => [2]
  | .fint32 _ | .fuint32 _ | .float _ => [4]
  | .fint64 _ | .fuint64 _ | .double _ => [8]
  | .int32 value => [(varintBytes 5 (encodeZigzag value).toNat).length]
  | .uint32 value => [(varintBytes 5 value.toNat).length]
  | .int64 value => [(varintBytes 10 (encodeZigzag value).toNat).length]
  | .uint64 value => [(varintBytes 10 value.toNat).length]
  | .stringF16 value => [2, value.length]
  | .stringF32 value => [4, value.length]
  | .stringF64 value => [8, value.length]
  | .stringVint value =>
      [(varintBytes 10 (BitVec.ofNat 64 value.length).toNat).length, value.length]
  | .stringWithoutLength value => [value.length]

/-- `p` makes writes of these lengths: under the invariant, which it keeps, it
faults unless they fit. -/
structure MakesWrites (p : Op Unit) (lengths : List Nat) : Prop where
  noFault_iff : ∀ {s}, Inv s →
    ((p s).state? ≠ none ↔ WritesFit s.baseSize s.position s.capacity lengths)
  inv : ∀ {s s'}, Inv s → (p s).state? = some s' → Inv s'

/-- `p` is one write of `n` bytes, which may depend on the state. -/
def IsWrite (p : Op Unit) (n : Nat) : Prop :=
  ∀ s, ∃ buf, buf.length = n ∧ p s = write buf s

/-- `write` writes its bytes. -/
theorem isWrite_write (buf : List UInt8) : IsWrite (write buf) buf.length :=
  fun _ => ⟨buf, rfl, rfl⟩

/-- As many low bytes as asked for. -/
theorem length_lowBytes (k v : Nat) : (lowBytes k v).length = k := by
  induction k generalizing v with
  | zero => rfl
  | succ k ih => rw [lowBytes, List.length_cons, ih]

/-- A number takes the bytes of its width. -/
theorem length_encode {w : Nat} (littleEndian : Bool) (v : BitVec w) :
    (encode littleEndian v).length = w / 8 := by
  unfold encode
  split
  · exact length_lowBytes _ _
  · rw [List.length_reverse, length_lowBytes]

/-- A number of fixed width is written in one go. -/
theorem isWrite_writeFixed {w : Nat} (v : BitVec w) : IsWrite (writeFixed v) (w / 8) :=
  fun s => ⟨encode s.littleEndian v, length_encode _ _, rfl⟩

/-- A write, also of no bytes. -/
theorem write_cases {s : ByteArray} (h : Inv s) (buf : List UInt8) :
    (Room s.baseSize s.position s.capacity buf.length →
      ∃ s', write buf s = .ok () s' ∧ Inv s' ∧ s'.baseSize = s.baseSize ∧
        s'.position = s.position + buf.length ∧
        s'.capacity = grown s.baseSize s.position s.capacity buf.length) ∧
    (¬ Room s.baseSize s.position s.capacity buf.length → write buf s = .fault) := by
  by_cases hbuf : buf = []
  · subst hbuf
    refine ⟨fun _ => ⟨s, rfl, h, rfl, rfl, ?_⟩, fun hno => ?_⟩
    · exact (if_pos (Nat.zero_le _)).symm
    · exact absurd (Or.inl (Nat.zero_le _)) hno
  · obtain ⟨hin, hout⟩ := write_spec h hbuf
    refine ⟨fun hroom => ?_, hout⟩
    obtain ⟨s', hrun, hw⟩ := hin hroom
    exact ⟨s', hrun, hw.inv, hw.baseSize, hw.position, hw.capacity⟩

/-- One write, followed by others. -/
theorem IsWrite.bind {p q : Op Unit} {n : Nat} {ns : List Nat} (hp : IsWrite p n)
    (hq : MakesWrites q ns) : MakesWrites (p >>= fun _ => q) (n :: ns) := by
  have hcases : ∀ {s : ByteArray}, Inv s →
      (Room s.baseSize s.position s.capacity n → ∃ s₁, p s = .ok () s₁ ∧ Inv s₁ ∧
        s₁.baseSize = s.baseSize ∧ s₁.position = s.position + n ∧
        s₁.capacity = grown s.baseSize s.position s.capacity n) ∧
      (¬ Room s.baseSize s.position s.capacity n → p s = .fault) := by
    intro s h
    obtain ⟨buf, rfl, hrun⟩ := hp s
    rw [hrun]
    exact write_cases h buf
  constructor
  · intro s h
    rw [WritesFit]
    by_cases hroom : Room s.baseSize s.position s.capacity n
    · obtain ⟨s₁, hrun, hinv, hbase, hpos, hcap⟩ := (hcases h).1 hroom
      rw [Program.bind_of_ok hrun, hq.noFault_iff hinv, hbase, hpos, hcap]
      exact ⟨fun hrest => ⟨hroom, hrest⟩, fun hboth => hboth.2⟩
    · rw [Program.bind_of_fault ((hcases h).2 hroom)]
      exact ⟨fun hne => absurd rfl hne, fun hboth => absurd hboth.1 hroom⟩
  · intro s s' h hafter
    by_cases hroom : Room s.baseSize s.position s.capacity n
    · obtain ⟨s₁, hrun, hinv, -⟩ := (hcases h).1 hroom
      rw [Program.bind_of_ok hrun] at hafter
      exact hq.inv hinv hafter
    · rw [Program.bind_of_fault ((hcases h).2 hroom)] at hafter
      cases hafter

/-- One write. -/
theorem IsWrite.makesWrites {p : Op Unit} {n : Nat} (hp : IsWrite p n) :
    MakesWrites p [n] := by
  have hnone : MakesWrites (pure ()) [] := by
    refine ⟨fun _ => ⟨fun _ => trivial, fun _ => nofun⟩, fun h hafter => ?_⟩
    cases hafter
    exact h
  have hpure : (p >>= fun _ => pure ()) = p := by
    funext s
    obtain ⟨buf, -, hrun⟩ := hp s
    cases hout : write buf s with
    | ok _ s' => rw [Program.bind_of_ok (hrun.trans hout), hrun, hout]; rfl
    | throws s' => rw [Program.bind_of_throws (hrun.trans hout), hrun, hout]
    | fault => rw [Program.bind_of_fault (hrun.trans hout), hrun, hout]
  rw [← hpure]
  exact hp.bind hnone

/-- Every typed write is a series of writes. -/
theorem makesWrites_typedWrite (w : TypedWrite) : MakesWrites w.run w.lengths := by
  cases w with
  | fint8 value | fuint8 value | fint16 value | fuint16 value | fint32 value | fuint32 value
  | fint64 value | fuint64 value => exact (isWrite_writeFixed value).makesWrites
  | float bits | double bits => exact (isWrite_writeFixed bits).makesWrites
  | int32 value | uint32 value | int64 value | uint64 value =>
      exact (isWrite_write _).makesWrites
  | stringF16 value => exact (isWrite_writeFixed _).bind (isWrite_write value).makesWrites
  | stringF32 value => exact (isWrite_writeFixed _).bind (isWrite_write value).makesWrites
  | stringF64 value => exact (isWrite_writeFixed _).bind (isWrite_write value).makesWrites
  | stringVint value => exact (isWrite_write _).bind (isWrite_write value).makesWrites
  | stringWithoutLength value => exact (isWrite_write value).makesWrites

/-! ## Reads -/

/-- What `readF..` for an integer of `w` bits makes of the bytes from the position
on: the value and how many bytes it takes. -/
def fixedPrefix (w : Nat) (littleEndian : Bool) (bytes : List UInt8) :
    Option (BitVec w × Nat) :=
  if bytes.length < w / 8 then none
  else some (decode w littleEndian (bytes.take (w / 8)), w / 8)

/-- What the loop of `readUint32` and `readUint64` with `n` turns left makes of the
bytes from the position on. -/
def varintPrefix (w : Nat) : Nat → Nat → BitVec w → List UInt8 → Option (BitVec w × Nat)
  | 0, _, result, _ => some (result, 0)
  | _ + 1, _, _, [] => none
  | n + 1, i, result, b :: bytes =>
      if b.toBitVec < 0x80 then some (result ||| (b.toBitVec.setWidth w <<< i), 1)
      else
        (varintPrefix w n (i + 7) (result ||| ((b.toBitVec &&& 0x7F).setWidth w <<< i))
          bytes).map fun r => (r.1, r.2 + 1)

/-- `p` reads what `f` says: the value at the position, or it throws for want of
bytes. -/
def ReadsAs {α : Type} (p : Op α) (f : Bool → List UInt8 → Option (α × Nat)) : Prop :=
  ∀ s, Inv s →
    (∀ v k, f s.littleEndian s.unread = some (v, k) →
      k ≤ s.getReadSize ∧ p s = .ok v (s.advance k)) ∧
    (f s.littleEndian s.unread = none → ∃ s', p s = .throws s' ∧ Inv s')

theorem advance_zero {s : ByteArray} (h : Inv s) : s.advance 0 = s := by
  simp only [advance, Nat.add_zero, ← h.cur]

/-- The cursor moves on twice. -/
theorem advance_advance (s : ByteArray) (m n : Nat) :
    (s.advance m).advance n = s.advance (m + n) := by
  simp only [advance, Nat.add_assoc]

/-- A number of fixed width is read from in front. -/
theorem readsAs_readFixed {w : Nat} (hw : 8 ≤ w) : ReadsAs (readFixed w) (fixedPrefix w) := by
  intro s h
  have hpos : w / 8 ≠ 0 := by omega
  obtain ⟨hshort, hread, -⟩ := read_spec h (w / 8)
  unfold fixedPrefix readFixed
  rw [h.length_unread]
  by_cases hlen : s.getReadSize < w / 8
  · rw [if_pos hlen, hshort hlen]
    exact ⟨nofun, fun _ => ⟨s, rfl, h⟩⟩
  · rw [if_neg hlen, hread (by omega) (Or.inl hpos)]
    refine ⟨fun v k hvk => ?_, nofun⟩
    cases hvk
    exact ⟨by omega, rfl⟩

/-- One byte is the same in both orders. -/
theorem decode_byte (littleEndian : Bool) (b : UInt8) : decode 8 littleEndian [b] = b.toBitVec := by
  cases littleEndian <;> simp [decode, ofLowBytes]

/-- The first byte that is not read yet. -/
theorem readFuint8_spec {s : ByteArray} (h : Inv s) :
    (s.unread = [] → readFuint8 s = .throws s) ∧
    (∀ b bytes, s.unread = b :: bytes →
      readFuint8 s = .ok b.toBitVec (s.advance 1) ∧ 1 ≤ s.getReadSize) := by
  obtain ⟨hshort, hread, -⟩ := read_spec h 1
  have hlen := h.length_unread
  refine ⟨fun hnil => ?_, fun b bytes hcons => ?_⟩
  · rw [hnil, List.length_nil] at hlen
    rw [readFuint8, readFixed, hshort (by omega)]
    rfl
  · rw [hcons, List.length_cons] at hlen
    rw [readFuint8, readFixed, hread (by omega) (Or.inl Nat.one_ne_zero), hcons]
    refine ⟨?_, by omega⟩
    exact congrArg (fun v => Outcome.ok v (s.advance 1)) (decode_byte s.littleEndian b)

/-- A number of variable length is read byte by byte. -/
theorem readsAs_readVarint (w n : Nat) : ∀ (i : Nat) (result : BitVec w),
    ReadsAs (readVarint w n i result) (fun _ => varintPrefix w n i result) := by
  induction n with
  | zero =>
      intro i result s h
      refine ⟨fun v k hvk => ?_, fun hnone => absurd hnone (Option.some_ne_none _)⟩
      cases hvk
      rw [advance_zero h]
      exact ⟨Nat.zero_le _, rfl⟩
  | succ n ih =>
      intro i result s h
      obtain ⟨hnil, hcons⟩ := readFuint8_spec h
      unfold readVarint
      cases hunread : s.unread with
      | nil =>
          refine ⟨fun v k hvk => absurd hvk.symm (Option.some_ne_none _), fun _ => ⟨s, ?_, h⟩⟩
          rw [Program.bind_of_throws (hnil hunread)]
      | cons b bytes =>
          obtain ⟨hrun, hone⟩ := hcons b bytes hunread
          have hrest : (s.advance 1).unread = bytes := by
            rw [unread_advance, hunread, List.drop_one, List.tail_cons]
          have hsize : (s.advance 1).getReadSize = s.getReadSize - 1 := by
            simp only [getReadSize, advance]
            omega
          dsimp only [varintPrefix]
          rw [Program.bind_of_ok hrun]
          by_cases hlast : b.toBitVec < 0x80
          · rw [if_pos hlast, if_pos hlast]
            refine ⟨fun v k hvk => ?_, fun hnone => absurd hnone (Option.some_ne_none _)⟩
            cases hvk
            exact ⟨hone, rfl⟩
          rw [if_neg hlast, if_neg hlast]
          obtain ⟨hsome, hnone⟩ := ih (i + 7)
            (result ||| ((b.toBitVec &&& 0x7F).setWidth w <<< i)) (s.advance 1) (h.advance hone)
          rw [hrest] at hsome hnone
          refine ⟨fun v k hvk => ?_, fun hmap => ?_⟩
          · obtain ⟨⟨v', k'⟩, hpre, heq⟩ := Option.map_eq_some_iff.mp hvk
            cases heq
            obtain ⟨hle, hgo⟩ := hsome v' k' hpre
            rw [hgo, advance_advance, Nat.add_comm 1 k']
            exact ⟨by omega, rfl⟩
          · exact hnone (Option.map_eq_none_iff.mp hmap)

/-- A read of a value returns or throws, and keeps the invariant. -/
theorem ReadsAs.after {α : Type} {p : Op α} {f : Bool → List UInt8 → Option (α × Nat)}
    (hp : ReadsAs p f) {s : ByteArray} (h : Inv s) :
    ∃ s', (p s).state? = some s' ∧ Inv s' := by
  obtain ⟨hsome, hnone⟩ := hp s h
  cases hpre : f s.littleEndian s.unread with
  | none =>
      obtain ⟨s', hrun, hinv⟩ := hnone hpre
      exact ⟨s', by rw [hrun]; rfl, hinv⟩
  | some r =>
      obtain ⟨hle, hrun⟩ := hsome r.1 r.2 hpre
      exact ⟨s.advance r.2, by rw [hrun]; rfl, h.advance hle⟩

/-- The returned value may be changed. -/
theorem ReadsAs.bind_pure {α β : Type} {p : Op α} {f : Bool → List UInt8 → Option (α × Nat)}
    (hp : ReadsAs p f) (g : α → β) :
    ReadsAs (p >>= fun v => pure (g v))
      (fun e bytes => (f e bytes).map fun r => (g r.1, r.2)) := by
  intro s h
  obtain ⟨hsome, hnone⟩ := hp s h
  refine ⟨fun v k hvk => ?_, fun hmap => ?_⟩
  · obtain ⟨⟨v', k'⟩, hpre, heq⟩ := Option.map_eq_some_iff.mp hvk
    cases heq
    obtain ⟨hle, hrun⟩ := hsome v' k' hpre
    exact ⟨hle, Program.bind_of_ok hrun⟩
  · obtain ⟨s', hrun, hinv⟩ := hnone (Option.map_eq_none_iff.mp hmap)
    exact ⟨s', Program.bind_of_throws hrun, hinv⟩

/-- The length `f` reads at the position is zero, and what it takes ends at the
capacity. -/
def ZeroLengthAtEnd {w : Nat} (s : ByteArray)
    (f : Bool → List UInt8 → Option (BitVec w × Nat)) : Prop :=
  ∃ v k, f s.littleEndian s.unread = some (v, k) ∧ v.toNat = 0 ∧ s.position + k = s.capacity

/-- **A string read.**  After its length it reads that many bytes, and faults
exactly where these are none and the cursor is at the capacity. -/
theorem ReadsAs.readString {w : Nat} {p : Op (BitVec w)}
    {f : Bool → List UInt8 → Option (BitVec w × Nat)} (hp : ReadsAs p f) {s : ByteArray}
    (h : Inv s) :
    (((p >>= fun len => ByteArray.read len.toNat) s).state? = none ↔ ZeroLengthAtEnd s f) ∧
    ∀ s', ((p >>= fun len => ByteArray.read len.toNat) s).state? = some s' → Inv s' := by
  obtain ⟨hsome, hnone⟩ := hp s h
  cases hpre : f s.littleEndian s.unread with
  | none =>
      obtain ⟨s₁, hrun, hinv⟩ := hnone hpre
      rw [Program.bind_of_throws hrun]
      refine ⟨⟨nofun, fun ⟨v, k, hvk, _⟩ => ?_⟩, fun s' hs' => ?_⟩
      · rw [hpre] at hvk
        cases hvk
      · cases hs'
        exact hinv
  | some r =>
      obtain ⟨hle, hrun⟩ := hsome r.1 r.2 hpre
      have hinv := h.advance hle
      have hend : ZeroLengthAtEnd s f ↔
          r.1.toNat = 0 ∧ (s.advance r.2).position = (s.advance r.2).capacity := by
        refine ⟨fun ⟨v, k, hvk, hzero, hcap⟩ => ?_, fun ⟨hzero, hcap⟩ => ?_⟩
        · cases hpre.symm.trans hvk
          exact ⟨hzero, hcap⟩
        · exact ⟨r.1, r.2, hpre, hzero, hcap⟩
      rw [Program.bind_of_ok hrun, hend]
      obtain ⟨hshort, hread, hfault⟩ := read_spec hinv r.1.toNat
      have hpos := hinv.position_le
      have hcap := hinv.size_le
      by_cases hlen : (s.advance r.2).getReadSize < r.1.toNat
      · rw [hshort hlen]
        refine ⟨⟨nofun, fun ⟨hzero, _⟩ => by omega⟩, fun s' hs' => ?_⟩
        cases hs'
        exact hinv
      by_cases hbad : r.1.toNat = 0 ∧ (s.advance r.2).position = (s.advance r.2).capacity
      · rw [hfault hbad.1 hbad.2]
        exact ⟨⟨fun _ => hbad, fun _ => rfl⟩, nofun⟩
      · rw [hread (by omega) (by omega)]
        refine ⟨⟨nofun, fun hboth => absurd hboth hbad⟩, fun s' hs' => ?_⟩
        cases hs'
        exact hinv.advance (by omega)

/-- A string read that finds length zero and ends at the capacity. -/
def EmptyAtEnd (s : ByteArray) : TypedRead → Prop
  | .stringF16 => ZeroLengthAtEnd s (fixedPrefix 16)
  | .stringF32 => ZeroLengthAtEnd s (fixedPrefix 32)
  | .stringF64 => ZeroLengthAtEnd s (fixedPrefix 64)
  | .stringVint => ZeroLengthAtEnd s (fun _ => varintPrefix 64 10 0 0)
  | _ => False

/-- A typed read faults exactly at the end of an array without room, and keeps the array in
order otherwise. -/
theorem typedRead_after {s : ByteArray} (h : Inv s) (r : TypedRead) :
    (r.after s = none ↔ EmptyAtEnd s r) ∧ ∀ s', r.after s = some s' → Inv s' := by
  have hvalue : ∀ {α : Type} {p : Op α} {f : Bool → List UInt8 → Option (α × Nat)},
      ReadsAs p f → ((p s).state? = none ↔ False) ∧ ∀ s', (p s).state? = some s' → Inv s' := by
    intro α p f hp
    obtain ⟨s₁, hrun, hinv⟩ := hp.after h
    rw [hrun]
    refine ⟨⟨nofun, nofun⟩, fun s' hs' => ?_⟩
    cases hs'
    exact hinv
  cases r with
  | fint8 | fuint8 => exact hvalue (readsAs_readFixed (w := 8) (by omega))
  | fint16 | fuint16 => exact hvalue (readsAs_readFixed (w := 16) (by omega))
  | fint32 | fuint32 | float => exact hvalue (readsAs_readFixed (w := 32) (by omega))
  | fint64 | fuint64 | double => exact hvalue (readsAs_readFixed (w := 64) (by omega))
  | uint32 => exact hvalue (readsAs_readVarint 32 5 0 0)
  | uint64 => exact hvalue (readsAs_readVarint 64 10 0 0)
  | int32 => exact hvalue ((readsAs_readVarint 32 5 0 0).bind_pure decodeZigzag)
  | int64 => exact hvalue ((readsAs_readVarint 64 10 0 0).bind_pure decodeZigzag)
  | stringF16 => exact (readsAs_readFixed (w := 16) (by omega)).readString h
  | stringF32 => exact (readsAs_readFixed (w := 32) (by omega)).readString h
  | stringF64 => exact (readsAs_readFixed (w := 64) (by omega)).readString h
  | stringVint => exact (readsAs_readVarint 64 10 0 0).readString h

/-! ## Runs -/

/-- The call stays on the chunk list: a write and `getWriteBuffers` need room, a read
of no bytes needs a position below the capacity. -/
def Safe (s : ByteArray) : Call → Prop
  | .write buf => Room s.baseSize s.position s.capacity buf.length
  | .typedWrite w => WritesFit s.baseSize s.position s.capacity w.lengths
  | .read size => size ≠ 0 ∨ s.position < s.capacity
  | .typedRead r => ¬ EmptyAtEnd s r
  | .getWriteBuffers len => Room s.baseSize s.position s.capacity len
  | .setPosition _ | .clear | .getReadBuffers _ | .setIsLittleEndian _ => True

/-- What one call does: it faults exactly where it is not safe, and what it leaves
keeps the invariant. -/
theorem call_after {s : ByteArray} (h : Inv s) (c : Call) :
    (NoFault s c ↔ Safe s c) ∧ ∀ s', Step s c s' → Inv s' := by
  have hkeeps : ∀ {s₁ : ByteArray} {a : Option ByteArray}, Inv s₁ → a = some s₁ →
      (a ≠ none ↔ True) ∧ ∀ s', a = some s' → Inv s' := by
    rintro s₁ _ hinv rfl
    refine ⟨⟨fun _ => trivial, fun _ => nofun⟩, fun s' hs' => ?_⟩
    cases hs'
    exact hinv
  cases c with
  | write buf =>
      have hw := (isWrite_write buf).makesWrites
      refine ⟨(hw.noFault_iff h).trans ?_, fun s' => hw.inv h⟩
      exact ⟨fun hfit => hfit.1, fun hroom => ⟨hroom, trivial⟩⟩
  | typedWrite w =>
      have hw := makesWrites_typedWrite w
      exact ⟨hw.noFault_iff h, fun s' => hw.inv h⟩
  | read size =>
      have hpos := h.position_le
      have hcap := h.size_le
      obtain ⟨hshort, hread, hfault⟩ := read_spec h size
      simp only [NoFault, Step, Call.after, Safe]
      by_cases hlen : s.getReadSize < size
      · rw [hshort hlen, iff_true_intro (a := size ≠ 0 ∨ s.position < s.capacity) (by omega)]
        exact hkeeps h rfl
      by_cases hsafe : size ≠ 0 ∨ s.position < s.capacity
      · rw [hread (by omega) hsafe, iff_true_intro hsafe]
        exact hkeeps (h.advance (by omega)) rfl
      · rw [hfault (by omega) (by omega)]
        exact ⟨⟨fun hne => absurd rfl hne, fun hs => absurd hs hsafe⟩, nofun⟩
  | typedRead r =>
      obtain ⟨hnone, hinv⟩ := typedRead_after h r
      exact ⟨not_congr hnone, hinv⟩
  | setPosition pos =>
      obtain ⟨hover, hin⟩ := setPosition_spec h pos
      by_cases hpos : s.size < pos
      · exact hkeeps h (congrArg Outcome.state? (hover hpos))
      · have hle := Nat.le_of_not_lt hpos
        exact hkeeps (h.setPosition hle) (congrArg Outcome.state? (hin hle))
  | clear => exact hkeeps h.clear rfl
  | getReadBuffers len =>
      obtain ⟨r, hrun⟩ := getReadBuffers_spec h len
      exact hkeeps h (congrArg Outcome.state? hrun)
  | getWriteBuffers len =>
      simp only [NoFault, Step, Call.after, Safe]
      by_cases h0 : len = 0
      · subst h0
        rw [iff_true_intro (a := Room s.baseSize s.position s.capacity 0)
          (Or.inl (Nat.zero_le _))]
        exact hkeeps h rfl
      have hlen : 1 ≤ len := Nat.one_le_iff_ne_zero.mpr h0
      obtain ⟨hin, hout⟩ := getWriteBuffers_spec h hlen
      by_cases hroom : Room s.baseSize s.position s.capacity len
      · obtain ⟨r, s', hrun, hgrow⟩ := hin hroom
        rw [hrun, iff_true_intro hroom]
        exact hkeeps hgrow.inv rfl
      · rw [hout hroom]
        exact ⟨⟨fun hne => absurd rfl hne, fun hs => absurd hs hroom⟩, nofun⟩
  | setIsLittleEndian val =>
      have hinv : Inv { s with littleEndian := val } :=
        ⟨h.base, h.uniform, h.nonempty, h.capacity, h.size_le, h.position_le, h.cur⟩
      exact hkeeps hinv rfl

/-- Every array that is reached is in order. -/
theorem inv_of_reachable {b : Nat} (hb : 1 ≤ b) {s : ByteArray}
    (hs : Reachable (· = new b) Step s) : Inv s := by
  apply hs.invariant
  · rintro _ rfl
    exact inv_new hb
  · intro s c s' h _ hstep
    exact (call_after h c).2 s' hstep

/-- **The chunk list.**  For every base size and every sequence of calls, no call
goes through a null pointer exactly when every call is safe where it is made.  At
the capacity no write, no `getWriteBuffers` and no read of no bytes succeeds. -/
theorem noFault_iff_safe {b : Nat} (hb : 1 ≤ b) :
    (∀ calls, Along Step NoFault (new b) calls ↔ Along Step Safe (new b) calls) ∧
    ∀ s, Reachable (· = new b) Step s → s.position = s.capacity →
      (∀ buf, buf ≠ [] → write buf s = .fault) ∧
      (∀ len, 1 ≤ len → getWriteBuffers len s = .fault) ∧
      read 0 s = .fault := by
  refine ⟨fun calls => ?_, fun s hreach hcap => ?_⟩
  · refine along_iff_of_invariant (I := Inv) (V := fun _ => True) ?_ ?_ calls (new b)
      (inv_new hb) (fun _ _ => trivial)
    · intro s c h _
      exact (call_after h c).1
    · intro s c s' h _ _ hstep
      exact (call_after h c).2 s' hstep
  · have h : Inv s := inv_of_reachable hb hreach
    have hno : ∀ n, 1 ≤ n → ¬ Room s.baseSize s.position s.capacity n := by
      intro n hn hroom
      rcases hroom with hroom | ⟨hlt, -⟩ <;> omega
    refine ⟨fun buf hbuf => ?_, fun len hlen => ?_, ?_⟩
    · exact (write_spec h hbuf).2 (hno _ (List.length_pos_iff.mpr hbuf))
    · exact (getWriteBuffers_spec h hlen).2 (hno len hlen)
    · exact (read_spec h 0).2.2 rfl hcap

/-- Three bytes of four are written, sought and read. -/
theorem noFault_below_capacity :
    Along Step NoFault (new 4) [.write [1, 2, 3], .setPosition 0, .read 3] := by
  refine ((noFault_iff_safe (b := 4) (by decide)).1 _).mpr ⟨Or.inl (by decide), ?_⟩
  rintro _ ⟨⟩
  refine ⟨trivial, ?_⟩
  rintro _ ⟨⟩
  exact ⟨Or.inl (by decide), fun _ _ => trivial⟩

/-- Four bytes fill the root node; then a write, `getWriteBuffers` and a read of no
bytes fault. -/
theorem exact_fill_faults :
    ∃ s, Step (new 4) (.write [1, 2, 3, 4]) s ∧ s.position = s.capacity ∧
      ¬ NoFault s (.write [5]) ∧ ¬ NoFault s (.getWriteBuffers 1) ∧ ¬ NoFault s (.read 0) := by
  refine ⟨_, rfl, rfl, ?_, ?_, ?_⟩
  · exact fun h => h rfl
  · exact fun h => h rfl
  · exact fun h => h rfl

end ByteArray

end Agent
