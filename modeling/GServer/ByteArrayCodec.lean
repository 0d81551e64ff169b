import Mathlib.Data.BitVec
import GServer.ByteArrayRefinement

/-!
# Typed values written and read back

Every typed write puts the bytes of its value at the cursor, and the read of the
same type finds the value at the head of these bytes whatever follows them.  So a
list of values that is written in order, sought and read in order comes back, and
the byte array is left as it was after the writes.
-/

namespace Agent

open Faults

namespace ByteArray

/-! ## Fixed width -/

/-- The low bytes of a number give its remainder. -/
theorem ofLowBytes_lowBytes (k v : Nat) : ofLowBytes (lowBytes k v) = v % 256 ^ k := by
  induction k generalizing v with
  | zero => simp [lowBytes, ofLowBytes, Nat.mod_one]
  | succ k ih =>
      have hbyte : (UInt8.ofNat v).toNat = v % 256 := by simp
      rw [lowBytes, ofLowBytes, ih, hbyte, Nat.pow_succ, Nat.mul_comm (256 ^ k), Nat.mod_mul]

/-- Bytes are decoded in the order they were encoded in. -/
theorem decode_encode {w : Nat} (hw : 8 ∣ w) (littleEndian : Bool) (v : BitVec w) :
    decode w littleEndian (encode littleEndian v) = v := by
  have hpow : 256 ^ (w / 8) = 2 ^ w := by
    rw [show 256 = 2 ^ 8 from rfl, ← Nat.pow_mul, Nat.mul_div_cancel' hw]
  have hbytes : ofLowBytes (lowBytes (w / 8) v.toNat) = v.toNat := by
    rw [ofLowBytes_lowBytes, hpow, Nat.mod_eq_of_lt v.isLt]
  cases littleEndian <;> simp [decode, encode, hbytes]

/-- A number of fixed width is read back from in front. -/
theorem fixedPrefix_encode {w : Nat} (hw : 8 ∣ w) (littleEndian : Bool) (v : BitVec w)
    (rest : List UInt8) :
    fixedPrefix w littleEndian (encode littleEndian v ++ rest) = some (v, w / 8) := by
  have hlen := length_encode littleEndian v
  have htake : (encode littleEndian v ++ rest).take (w / 8) = encode littleEndian v := by
    rw [← hlen, List.take_left]
  rw [fixedPrefix, if_neg (by rw [List.length_append]; omega), htake, decode_encode hw]

/-! ## Groups of seven bits -/

/-- A number is its low seven bits and the rest. -/
theorem ofNat_split (w v : Nat) :
    BitVec.ofNat w v = BitVec.ofNat w (v % 128) ||| (BitVec.ofNat w (v / 128) <<< 7) := by
  apply BitVec.eq_of_getLsbD_eq
  intro i hi
  have h128 : v % 128 = v % 2 ^ 7 := rfl
  have hdiv : v / 128 = v / 2 ^ 7 := rfl
  simp only [BitVec.getLsbD_or, BitVec.getLsbD_shiftLeft, BitVec.getLsbD_ofNat, hi, h128, hdiv,
    Nat.testBit_mod_two_pow, Nat.testBit_div_two_pow, decide_true, Bool.true_and]
  by_cases h7 : i < 7
  · simp [h7]
  · have : i - 7 < w := by omega
    have h := Nat.sub_add_cancel (Nat.le_of_not_lt h7)
    simp [h7, this, h]

theorem setWidth_ofNat_byte (w : Nat) {v : Nat} (hv : v < 256) :
    (BitVec.ofNat 8 v).setWidth w = BitVec.ofNat w v := by
  apply BitVec.eq_of_toNat_eq
  simp [Nat.mod_eq_of_lt hv]

/-- A byte with more to come has its high bit set, and seven bits of the number. -/
theorem varint_byte (v : Nat) :
    ¬ (UInt8.ofNat ((v &&& 0x7F) ||| 0x80)).toBitVec < 0x80 ∧
      (UInt8.ofNat ((v &&& 0x7F) ||| 0x80)).toBitVec &&& 0x7F = BitVec.ofNat 8 (v % 128) := by
  have hbytes : ∀ low : Fin 128, ¬ (UInt8.ofNat (low.val ||| 0x80)).toBitVec < 0x80 ∧
      (UInt8.ofNat (low.val ||| 0x80)).toBitVec &&& 0x7F = BitVec.ofNat 8 low.val := by
    decide
  have hlow : v &&& 0x7F = v % 128 := Nat.and_two_pow_sub_one_eq_mod v 7
  rw [hlow]
  exact hbytes ⟨v % 128, Nat.mod_lt v (by decide)⟩

/-- The loop reads what the writer's loop wrote, whatever follows. -/
theorem varintPrefix_varintBytes (w : Nat) (rest : List UInt8) :
    ∀ (n i v : Nat) (result : BitVec w), v < 128 ^ n →
      varintPrefix w n i result (varintBytes n v ++ rest) =
        some (result ||| (BitVec.ofNat w v <<< i), (varintBytes n v).length) := by
  intro n
  induction n with
  | zero =>
      intro i v result hv
      obtain rfl : v = 0 := by omega
      simp [varintBytes, varintPrefix]
  | succ n ih =>
      intro i v result hv
      unfold varintBytes
      by_cases hlast : 0x80 ≤ v
      · obtain ⟨hmore, hlow⟩ := varint_byte v
        have hshift : v >>> 7 = v / 128 := Nat.shiftRight_eq_div_pow v 7
        have hdiv : v / 128 < 128 ^ n := by
          rw [Nat.div_lt_iff_lt_mul (by decide), ← Nat.pow_succ]
          exact hv
        have hsplit : BitVec.ofNat w v <<< i =
            (BitVec.ofNat w (v % 128) <<< i) ||| (BitVec.ofNat w (v / 128) <<< (i + 7)) := by
          rw [ofNat_split w v, BitVec.shiftLeft_or_distrib, ← BitVec.shiftLeft_add,
            Nat.add_comm i 7]
        rw [if_pos hlast, List.cons_append, varintPrefix, if_neg hmore, hlow, hshift,
          ih _ _ _ hdiv, setWidth_ofNat_byte w (by omega), hsplit, BitVec.or_assoc]
        rfl
      · have hone : (UInt8.ofNat v).toBitVec < 0x80 := by
          rw [BitVec.lt_def]
          simp
          omega
        have hvalue := setWidth_ofNat_byte w (show v < 256 by omega)
        rw [if_neg hlast, List.cons_append, varintPrefix, if_pos hone]
        exact congrArg (fun b : BitVec w => some (result ||| (b <<< i), 1)) hvalue

/-! ## Zigzag -/

/-- Twice a number that is not negative fits the width. -/
theorem two_mul_lt_of_msb {w : Nat} {u : BitVec w} (hu : u.msb = false) :
    2 * u.toNat < 2 ^ w := by
  exact BitVec.msb_eq_false_iff_two_mul_lt.mp hu

/-- Decoding halves, and the odd ones are complements. -/
theorem decodeZigzag_of_toNat {w : Nat} {u x : BitVec w} {odd : Bool}
    (hx : x.toNat = 2 * u.toNat + odd.toNat) :
    decodeZigzag x = if odd then ~~~u else u := by
  have hbit := odd.toNat_lt
  have hhalf : x >>> 1 = u := by
    apply BitVec.eq_of_toNat_eq
    rw [BitVec.toNat_ushiftRight, Nat.shiftRight_eq_div_pow, hx]
    omega
  have hlow : x.getLsbD 0 = odd := by
    rw [BitVec.getLsbD, hx, Nat.testBit_zero]
    cases odd <;> simp
  have hone : x &&& 1 = (BitVec.ofBool odd).setWidth w := by
    rw [← hlow]
    exact BitVec.and_one_eq_setWidth_ofBool_getLsbD
  unfold decodeZigzag
  rw [hhalf, hone]
  cases odd with
  | false => simp
  | true => 
      have htrue : (BitVec.ofBool true).setWidth w = 1#w := by
        apply BitVec.eq_of_toNat_eq
        simp
      rw [htrue, BitVec.neg_one_eq_allOnes, BitVec.xor_allOnes]
      rfl

/-- Encoding doubles, and the negative ones become odd. -/
theorem encodeZigzag_toNat {w : Nat} (v : BitVec w) :
    (encodeZigzag v).toNat = 2 * (if v.msb then ~~~v else v).toNat + v.msb.toNat := by
  unfold encodeZigzag
  cases hmsb : v.msb with
  | false =>
      have hlt := two_mul_lt_of_msb hmsb
      have htwo : v * 2 = v + v := BitVec.mul_two
      simp only [Bool.false_eq_true, if_false, htwo, BitVec.toNat_add, Bool.toNat_false]
      rw [Nat.mod_eq_of_lt (by omega)]
      omega
  | true =>
      have hw : 0 < w := by
        by_contra hzero
        obtain rfl : w = 0 := by omega
        simp [BitVec.msb, BitVec.getMsbD] at hmsb
      have hnot : (~~~v).msb = false := by
        rw [BitVec.msb_not, hmsb]
        simp
      have hlt := two_mul_lt_of_msb hnot
      have hodd : -v * 2 - 1 = ~~~v + ~~~v + 1#w := by
        have hcomplement : ~~~v = -v - 1#w := BitVec.not_eq_neg_add v
        grind
      have heven : 2 ^ w = 2 * 2 ^ (w - 1) := by
        rw [← Nat.pow_succ', Nat.succ_eq_add_one, Nat.sub_add_cancel hw]
      have hpos : 1 ≤ 2 ^ (w - 1) := Nat.one_le_two_pow
      have hone : (1#w).toNat = 1 := Nat.mod_eq_of_lt (by omega)
      simp only [if_true, hodd, Bool.toNat_true, BitVec.toNat_add, hone]
      rw [Nat.mod_eq_of_lt (show (~~~v).toNat + (~~~v).toNat < 2 ^ w by omega),
        Nat.mod_eq_of_lt (by omega)]
      omega

/-- Every number comes back from its zigzag form. -/
theorem decodeZigzag_encodeZigzag {w : Nat} (v : BitVec w) :
    decodeZigzag (encodeZigzag v) = v := by
  rw [decodeZigzag_of_toNat (encodeZigzag_toNat v)]
  cases v.msb with
  | false => rfl
  | true => simp
/-! ## What a write puts down and a read finds -/

/-- `p` puts the bytes `g` at the cursor, and does so without fault where they fit. -/
structure Puts (p : Op Unit) (g : Bool → List UInt8) : Prop where
  puts : ∀ {s f s'}, Represents s f → p s = .ok () s' →
    Represents s' (f.write (g s.littleEndian)) ∧ s'.littleEndian = s.littleEndian
  fits : ∀ {s}, Inv s → s.position + (g s.littleEndian).length ≤ s.capacity →
    ∃ s', p s = .ok () s' ∧ s'.capacity = s.capacity

/-- `write` puts the bytes that it is given. -/
theorem puts_write {p : Op Unit} {g : Bool → List UInt8}
    (hp : ∀ s, p s = write (g s.littleEndian) s) : Puts p g := by
  constructor
  · intro s f s' h hrun
    rw [hp] at hrun
    exact h.write hrun
  · intro s h hfit
    have hroom : (g s.littleEndian).length ≤ s.capacity - s.position := by omega
    obtain ⟨s', hrun, -, -, -, hcap⟩ := (write_cases h (g s.littleEndian)).1 (Or.inl hroom)
    refine ⟨s', (hp s).trans hrun, ?_⟩
    rw [hcap, grown, if_pos hroom]

/-- Doing nothing puts none. -/
theorem puts_pure : Puts (pure ()) fun _ => [] := by
  constructor
  · intro s f s' h hrun
    cases hrun
    rw [Flat.Buffer.write_nil]
    exact ⟨h, rfl⟩
  · intro s _ _
    exact ⟨s, rfl, rfl⟩

/-- One after the other. -/
theorem Puts.bind {p q : Op Unit} {g g' : Bool → List UInt8} (hp : Puts p g)
    (hq : Puts q g') : Puts (p >>= fun _ => q) fun e => g e ++ g' e := by
  constructor
  · intro s f s' h hrun
    obtain ⟨_, s₁, hfirst, hsecond⟩ := Program.bind_eq_ok hrun
    obtain ⟨h₁, he₁⟩ := hp.puts h hfirst
    obtain ⟨h', he'⟩ := hq.puts h₁ hsecond
    rw [he₁, Flat.Buffer.write_write] at h'
    exact ⟨h', he'.trans he₁⟩
  · intro s h hfit
    rw [List.length_append] at hfit
    obtain ⟨s₁, hfirst, hcap₁⟩ := hp.fits h (by omega)
    obtain ⟨f, hf⟩ := h.represents
    obtain ⟨h₁, he₁⟩ := hp.puts hf hfirst
    have hpos : s₁.position = s.position + (g s.littleEndian).length := by
      rw [← h₁.cursor, ← hf.cursor]
      rfl
    obtain ⟨s', hsecond, hcap'⟩ := hq.fits h₁.inv (by rw [he₁, hcap₁, hpos]; omega)
    exact ⟨s', (Program.bind_of_ok hfirst).trans hsecond, hcap'.trans hcap₁⟩

/-- `p` finds the value `v` in the bytes `g`, whatever follows them.  It faults at most
where they end at the capacity. -/
def Finds {α : Type} (p : Op α) (v : α) (g : Bool → List UInt8) : Prop :=
  ∀ s rest, Inv s → s.unread = g s.littleEndian ++ rest →
    (p s = .fault → s.position + (g s.littleEndian).length = s.capacity) ∧
    (p s ≠ .fault → p s = .ok v (s.advance (g s.littleEndian).length))

/-- What reads a prefix of the bytes finds the value that they were written for. -/
theorem finds_of_readsAs {α : Type} {p : Op α} {f : Bool → List UInt8 → Option (α × Nat)}
    {v : α} {g : Bool → List UInt8} (hp : ReadsAs p f)
    (hf : ∀ e rest, f e (g e ++ rest) = some (v, (g e).length)) : Finds p v g := by
  intro s rest h hunread
  obtain ⟨-, hrun⟩ := (hp s h).1 v _ (hunread ▸ hf s.littleEndian rest)
  rw [hrun]
  exact ⟨nofun, fun _ => rfl⟩

/-- A number of fixed width is found. -/
theorem finds_readFixed {w : Nat} (hw : 8 ∣ w) (hpos : 8 ≤ w) (v : BitVec w) :
    Finds (readFixed w) v fun e => encode e v := by
  refine finds_of_readsAs (readsAs_readFixed hpos) fun e rest => ?_
  rw [fixedPrefix_encode hw, length_encode]

/-- A number of variable length is found. -/
theorem finds_readVarint {w n : Nat} (v : BitVec w) (hn : v.toNat < 128 ^ n) :
    Finds (readVarint w n 0 0) v fun _ => varintBytes n v.toNat := by
  refine finds_of_readsAs (readsAs_readVarint w n 0 0) fun _ rest => ?_
  rw [varintPrefix_varintBytes w rest n 0 v.toNat 0 hn]
  simp

/-- Plain bytes are found. -/
theorem finds_read (buf : List UInt8) : Finds (read buf.length) buf fun _ => buf := by
  intro s rest h hunread
  dsimp only at hunread ⊢
  have hlen : buf.length ≤ s.getReadSize := by
    rw [← h.length_unread, hunread, List.length_append]
    omega
  obtain ⟨-, hread, hfault⟩ := read_spec h buf.length
  have hpos := h.position_le
  have hcap := h.size_le
  have htake : s.unread.take buf.length = buf := by rw [hunread, List.take_left]
  by_cases hsafe : buf.length ≠ 0 ∨ s.position < s.capacity
  · rw [hread hlen hsafe, htake]
    exact ⟨nofun, fun _ => rfl⟩
  · rw [hfault (by omega) (by omega)]
    exact ⟨fun _ => by omega, fun hne => absurd rfl hne⟩

/-- Doing nothing finds none. -/
theorem finds_pure {α : Type} (v : α) : Finds (pure v) v fun _ => [] := by
  intro s rest h _
  refine ⟨nofun, fun _ => ?_⟩
  change Outcome.ok v s = .ok v (s.advance 0)
  rw [advance_zero h]

/-- One after the other; how the second reads depends on what the first has found. -/
theorem Finds.bind {α β : Type} {p : Op α} {k : α → Op β} {v : α} {u : β}
    {g g' : Bool → List UInt8} (hp : Finds p v g) (hk : Finds (k v) u g') :
    Finds (p >>= k) u fun e => g e ++ g' e := by
  intro s rest h hunread
  rw [List.append_assoc] at hunread
  obtain ⟨hpfault, hpok⟩ := hp s _ h hunread
  have hsize : (g s.littleEndian).length + (g' s.littleEndian).length ≤ s.getReadSize := by
    rw [← h.length_unread, hunread]
    simp only [List.length_append]
    omega
  have hpos := h.position_le
  have hcap := h.size_le
  have hremain : s.getReadSize = s.size - s.position := rfl
  rw [List.length_append]
  by_cases hfault : p s = .fault
  · rw [Program.bind_of_fault hfault]
    have hend := hpfault hfault
    exact ⟨fun _ => by omega, fun hne => absurd rfl hne⟩
  · rw [Program.bind_of_ok (hpok hfault)]
    have hadv := h.advance (n := (g s.littleEndian).length) (by omega)
    have hrest : (s.advance (g s.littleEndian).length).unread = g' s.littleEndian ++ rest := by
      rw [unread_advance, hunread, List.drop_left]
    obtain ⟨hkfault, hkok⟩ := hk _ rest hadv hrest
    refine ⟨fun hf => ?_, fun hne => ?_⟩
    · have hend := hkfault hf
      simp only [advance] at hend
      omega
    · rw [hkok hne, advance_advance]
      rfl

/-! ## The values -/

/-- The values that can be written and read back. -/
inductive Value
  | fint8 (value : BitVec 8)
  | fuint8 (value : BitVec 8)
  | fint16 (value : BitVec 16)
  | fuint16 (value : BitVec 16)
  | fint32 (value : BitVec 32)
  | fuint32 (value : BitVec 32)
  | fint64 (value : BitVec 64)
  | fuint64 (value : BitVec 64)
  | float (bits : BitVec 32)
  | double (bits : BitVec 64)
  | int32 (value : BitVec 32)
  | uint32 (value : BitVec 32)
  | int64 (value : BitVec 64)
  | uint64 (value : BitVec 64)
  | stringF16 (value : List UInt8)
  | stringF32 (value : List UInt8)
  | stringF64 (value : List UInt8)
  | stringVint (value : List UInt8)
deriving DecidableEq

/-- The length of a string fits its prefix.  For `stringF64` and `stringVint` this is no
condition: the length of a `std::string` is a `size_t`. -/
def Value.Sized : Value → Prop
  | .stringF16 value => value.length < 2 ^ 16
  | .stringF32 value => value.length < 2 ^ 32
  | .stringF64 value => value.length < 2 ^ 64
  | .stringVint value => value.length < 2 ^ 64
  | _ => True

/-- The typed write of a value. -/
def Value.typedWrite : Value → TypedWrite
  | .fint8 value => .fint8 value
  | .fuint8 value => .fuint8 value
  | .fint16 value => .fint16 value
  | .fuint16 value => .fuint16 value
  | .fint32 value => .fint32 value
  | .fuint32 value => .fuint32 value
  | .fint64 value => .fint64 value
  | .fuint64 value => .fuint64 value
  | .float bits => .float bits
  | .double bits => .double bits
  | .int32 value => .int32 value
  | .uint32 value => .uint32 value
  | .int64 value => .int64 value
  | .uint64 value => .uint64 value
  | .stringF16 value => .stringF16 value
  | .stringF32 value => .stringF32 value
  | .stringF64 value => .stringF64 value
  | .stringVint value => .stringVint value

/-- The typed read of the same type. -/
def Value.typedRead : Value → TypedRead
  | .fint8 _ => .fint8
  | .fuint8 _ => .fuint8
  | .fint16 _ => .fint16
  | .fuint16 _ => .fuint16
  | .fint32 _ => .fint32
  | .fuint32 _ => .fuint32
  | .fint64 _ => .fint64
  | .fuint64 _ => .fuint64
  | .float _ => .float
  | .double _ => .double
  | .int32 _ => .int32
  | .uint32 _ => .uint32
  | .int64 _ => .int64
  | .uint64 _ => .uint64
  | .stringF16 _ => .stringF16
  | .stringF32 _ => .stringF32
  | .stringF64 _ => .stringF64
  | .stringVint _ => .stringVint

/-- The member function of a typed read, with the value it returns. -/
def TypedRead.run : TypedRead → Op Value
  | .fint8 => do return .fint8 (← readFint8)
  | .fuint8 => do return .fuint8 (← readFuint8)
  | .fint16 => do return .fint16 (← readFint16)
  | .fuint16 => do return .fuint16 (← readFuint16)
  | .fint32 => do return .fint32 (← readFint32)
  | .fuint32 => do return .fuint32 (← readFuint32)
  | .fint64 => do return .fint64 (← readFint64)
  | .fuint64 => do return .fuint64 (← readFuint64)
  | .float => do return .float (← readFloat)
  | .double => do return .double (← readDouble)
  | .int32 => do return .int32 (← readInt32)
  | .uint32 => do return .uint32 (← readUint32)
  | .int64 => do return .int64 (← readInt64)
  | .uint64 => do return .uint64 (← readUint64)
  | .stringF16 => do return .stringF16 (← readStringF16)
  | .stringF32 => do return .stringF32 (← readStringF32)
  | .stringF64 => do return .stringF64 (← readStringF64)
  | .stringVint => do return .stringVint (← readStringVint)

/-- The bytes of a value. -/
def Value.bytes (littleEndian : Bool) : Value → List UInt8
  | .fint8 value | .fuint8 value => encode littleEndian value
  | .fint16 value | .fuint16 value => encode littleEndian value
  | .fint32 value | .fuint32 value | .float value => encode littleEndian value
  | .fint64 value | .fuint64 value | .double value => encode littleEndian value
  | .int32 value => varintBytes 5 (encodeZigzag value).toNat
  | .uint32 value => varintBytes 5 value.toNat
  | .int64 value => varintBytes 10 (encodeZigzag value).toNat
  | .uint64 value => varintBytes 10 value.toNat
  | .stringF16 value => encode littleEndian (BitVec.ofNat 16 value.length) ++ value
  | .stringF32 value => encode littleEndian (BitVec.ofNat 32 value.length) ++ value
  | .stringF64 value => encode littleEndian (BitVec.ofNat 64 value.length) ++ value
  | .stringVint value => varintBytes 10 (BitVec.ofNat 64 value.length).toNat ++ value

/-- A typed write puts the bytes of its value. -/
theorem puts_typedWrite (v : Value) : Puts v.typedWrite.run fun e => v.bytes e := by
  have hfixed : ∀ {w : Nat} (value : BitVec w), Puts (writeFixed value) fun e => encode e value :=
    fun value => puts_write fun _ => rfl
  have hbytes : ∀ buf : List UInt8, Puts (write buf) fun _ => buf :=
    fun buf => puts_write fun _ => rfl
  cases v with
  | fint8 value | fuint8 value | fint16 value | fuint16 value | fint32 value | fuint32 value
  | fint64 value | fuint64 value | float value | double value => exact hfixed value
  | int32 value | uint32 value | int64 value | uint64 value => exact hbytes _
  | stringF16 value | stringF32 value | stringF64 value => exact (hfixed _).bind (hbytes value)
  | stringVint value => exact (hbytes _).bind (hbytes value)

/-- The value found may be changed. -/
theorem Finds.map {α β : Type} {p : Op α} {v : α} {g : Bool → List UInt8} (hp : Finds p v g)
    (k : α → β) : Finds (p >>= fun a => pure (k a)) (k v) g := by
  have hbind := hp.bind (k := fun a => pure (k a)) (finds_pure (k v))
  simpa using hbind

/-- A string whose length fits its prefix. -/
theorem Finds.string {w : Nat} {p : Op (BitVec w)} {g : Bool → List UInt8}
    {value : List UInt8} (hp : Finds p (BitVec.ofNat w value.length) g)
    (hlen : value.length < 2 ^ w) :
    Finds (p >>= fun len => read len.toNat) value fun e => g e ++ value := by
  refine hp.bind ?_
  rw [BitVec.toNat_ofNat, Nat.mod_eq_of_lt hlen]
  exact finds_read value

/-- The matching read finds the value. -/
theorem finds_typedRead {v : Value} (hsized : v.Sized) :
    Finds v.typedRead.run v fun e => v.bytes e := by
  have h32 : ∀ value : BitVec 32, Finds readUint32 value fun _ => varintBytes 5 value.toNat :=
    fun value => finds_readVarint value (by omega)
  have h64 : ∀ value : BitVec 64, Finds readUint64 value fun _ => varintBytes 10 value.toNat :=
    fun value => finds_readVarint value (by omega)
  cases v with
  | fint8 value => exact (finds_readFixed (by decide) (by decide) value).map Value.fint8
  | fuint8 value => exact (finds_readFixed (by decide) (by decide) value).map Value.fuint8
  | fint16 value => exact (finds_readFixed (by decide) (by decide) value).map Value.fint16
  | fuint16 value => exact (finds_readFixed (by decide) (by decide) value).map Value.fuint16
  | fint32 value => exact (finds_readFixed (by decide) (by decide) value).map Value.fint32
  | fuint32 value => exact (finds_readFixed (by decide) (by decide) value).map Value.fuint32
  | fint64 value => exact (finds_readFixed (by decide) (by decide) value).map Value.fint64
  | fuint64 value => exact (finds_readFixed (by decide) (by decide) value).map Value.fuint64
  | float value => exact (finds_readFixed (by decide) (by decide) value).map Value.float
  | double value => exact (finds_readFixed (by decide) (by decide) value).map Value.double
  | uint32 value => exact (h32 value).map Value.uint32
  | uint64 value => exact (h64 value).map Value.uint64
  | int32 value =>
      have hread := ((h32 (encodeZigzag value)).map decodeZigzag).map Value.int32
      rw [decodeZigzag_encodeZigzag] at hread
      exact hread
  | int64 value =>
      have hread := ((h64 (encodeZigzag value)).map decodeZigzag).map Value.int64
      rw [decodeZigzag_encodeZigzag] at hread
      exact hread
  | stringF16 value =>
      exact ((finds_readFixed (by decide) (by decide) _).string hsized).map Value.stringF16
  | stringF32 value =>
      exact ((finds_readFixed (by decide) (by decide) _).string hsized).map Value.stringF32
  | stringF64 value =>
      exact ((finds_readFixed (by decide) (by decide) _).string hsized).map Value.stringF64
  | stringVint value => exact ((h64 _).string hsized).map Value.stringVint

/-! ## Lists of values -/

/-- Write the values in order. -/
def writeAll : List Value → Op Unit
  | [] => pure ()
  | v :: values => do
      v.typedWrite.run
      writeAll values

/-- Read values of these types in order. -/
def readAll : List TypedRead → Op (List Value)
  | [] => pure []
  | r :: reads => do
      let v ← r.run
      let values ← readAll reads
      return v :: values

/-- The bytes of the values, in order. -/
def allBytes (littleEndian : Bool) : List Value → List UInt8
  | [] => []
  | v :: values => v.bytes littleEndian ++ allBytes littleEndian values

/-- The writes of a list put the bytes of all its values. -/
theorem puts_writeAll (values : List Value) :
    Puts (writeAll values) fun e => allBytes e values := by
  induction values with
  | nil => exact puts_pure
  | cons v values ih => exact (puts_typedWrite v).bind ih

/-- The matching reads find all of them. -/
theorem finds_readAll {values : List Value} (hsized : ∀ v ∈ values, v.Sized) :
    Finds (readAll (values.map Value.typedRead)) values fun e => allBytes e values := by
  induction values with
  | nil => exact finds_pure []
  | cons v values ih =>
      have htail := ih fun u hu => hsized u (List.mem_cons_of_mem v hu)
      have hhead := finds_typedRead (hsized v List.mem_cons_self)
      exact hhead.bind (htail.map (v :: ·))

/-- Reading on to the end of what was written leaves the byte array as the writes did. -/
theorem advance_setPosition {s s₁ : ByteArray} (h : Inv s₁) {n : Nat}
    (hn : s₁.position = s.position + n) :
    ({ s₁ with position := s.position, cur := s.position / s₁.baseSize } : ByteArray).advance n =
      s₁ := by
  simp only [advance, ← hn, ← h.cur]

/-- What the writes leave: the values' bytes, for whoever seeks back. -/
theorem seek_back {s s₁ : ByteArray} (h : Inv s) {values : List Value}
    (hsized : ∀ v ∈ values, v.Sized) (hwrite : writeAll values s = .ok () s₁) :
    s₁.position = s.position + (allBytes s.littleEndian values).length ∧
      ∃ s₂, setPosition s.position s₁ = .ok () s₂ ∧
        (readAll (values.map Value.typedRead) s₂ = .fault → s₁.position = s₁.capacity) ∧
        (readAll (values.map Value.typedRead) s₂ ≠ .fault →
          readAll (values.map Value.typedRead) s₂ = .ok values s₁) := by
  obtain ⟨f, hf⟩ := h.represents
  obtain ⟨h₁, he₁⟩ := (puts_writeAll values).puts hf hwrite
  have hpos : s₁.position = s.position + (allBytes s.littleEndian values).length := by
    rw [← h₁.cursor, ← hf.cursor]
    rfl
  have hle : s.position ≤ s₁.size := by
    have hend := h₁.inv.position_le
    omega
  have hseek := (setPosition_spec h₁.inv s.position).2 hle
  refine ⟨hpos, _, hseek, ?_⟩
  -- from the old position on the flat buffer begins with what was written
  obtain ⟨g, hg, -, -, hrest⟩ := f.rest_seek_write (allBytes s.littleEndian values)
  obtain ⟨g', hg', hrep⟩ := h₁.setPosition hle
  rw [← hf.cursor, hg] at hg'
  cases hg'
  have hunread := hrep.rest.symm.trans hrest
  rw [← he₁] at hunread hpos
  have hfinds := finds_readAll hsized _ _ hrep.inv hunread
  dsimp only at hfinds
  rw [advance_setPosition h₁.inv hpos, ← hpos] at hfinds
  exact hfinds

/-- **Round trip.**  From any byte array in good order, with either byte order: if
writing the values and reading their types back from where the writes began moves the
bytes without fault, the values come back and the byte array is as the writes left it,
its position at the end of their bytes.  Where these end below the capacity nothing
faults. -/
theorem typed_round_trip {s : ByteArray} (h : Inv s) {values : List Value}
    (hsized : ∀ v ∈ values, v.Sized) :
    (∀ s₁, writeAll values s = .ok () s₁ →
      s₁.position = s.position + (allBytes s.littleEndian values).length ∧
        ∃ s₂, setPosition s.position s₁ = .ok () s₂ ∧
          (readAll (values.map Value.typedRead) s₂ ≠ .fault →
            readAll (values.map Value.typedRead) s₂ = .ok values s₁)) ∧
    (s.position + (allBytes s.littleEndian values).length < s.capacity →
      ∃ s₁ s₂, writeAll values s = .ok () s₁ ∧ setPosition s.position s₁ = .ok () s₂ ∧
        readAll (values.map Value.typedRead) s₂ = .ok values s₁) := by
  constructor
  · intro s₁ hwrite
    obtain ⟨hpos, s₂, hseek, -, hread⟩ := seek_back h hsized hwrite
    exact ⟨hpos, s₂, hseek, hread⟩
  · intro hroom
    obtain ⟨s₁, hwrite, hcap⟩ := (puts_writeAll values).fits h (Nat.le_of_lt hroom)
    obtain ⟨hpos, s₂, hseek, hfault, hread⟩ := seek_back h hsized hwrite
    refine ⟨s₁, s₂, hwrite, hseek, hread fun hf => ?_⟩
    have hend := hfault hf
    omega

/-- The largest and the smallest values, in the other byte order. -/
theorem typed_round_trip_of_extremes :
    ∃ s₁ s₂, writeAll [.int32 (BitVec.intMin 32), .uint64 (BitVec.allOnes 64), .stringVint [7],
        .fint16 (BitVec.intMin 16)] { new 64 with littleEndian := false } = .ok () s₁ ∧
      setPosition 0 s₁ = .ok () s₂ ∧
      readAll [.int32, .uint64, .stringVint, .fint16] s₂ =
        .ok [.int32 (BitVec.intMin 32), .uint64 (BitVec.allOnes 64), .stringVint [7],
          .fint16 (BitVec.intMin 16)] s₁ := by
  have h : Inv { new 64 with littleEndian := false } :=
    ⟨by decide, (inv_new (b := 64) (by decide)).uniform, by decide, by decide, by decide, by decide,
      by decide⟩
  refine (typed_round_trip h fun v hv => ?_).2 (by decide)
  simp only [List.mem_cons, List.not_mem_nil, or_false] at hv
  obtain rfl | rfl | rfl | rfl := hv <;> simp [Value.Sized]

end ByteArray

end Agent
