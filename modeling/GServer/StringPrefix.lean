import GServer.ByteArrayCodec

/-!
# Strings with a prefix of 16 or 32 bits

`writeStringF16` and `writeStringF32` write the length of the string into a prefix
of two or four bytes and then the whole string.  A length that the prefix cannot
hold loses its high bits, so the read takes too few bytes and what follows is
read from the middle of the string.

`RoundTrips` is one write of a string with other bytes behind it, and the read
from where the write began; `Fits` is the condition for it.
-/

namespace Agent

open Faults Runs

/-- The strings whose prefix is narrower than a `size_t`. -/
inductive NarrowString
  | f16
  | f32
deriving DecidableEq

namespace NarrowString

open Agent.ByteArray

/-- The bits of the prefix. -/
def width : NarrowString → Nat
  | .f16 => 16
  | .f32 => 32

/-- `writeStringF16` and `writeStringF32`. -/
def write : NarrowString → List UInt8 → Op Unit
  | .f16 => writeStringF16
  | .f32 => writeStringF32

/-- `readStringF16` and `readStringF32`. -/
def read : NarrowString → Op (List UInt8)
  | .f16 => readStringF16
  | .f32 => readStringF32

/-- The string is refused, or the read of what was written returns it and leaves the
cursor at the bytes that follow. -/
def RoundTrips (n : NarrowString) (s : ByteArray) (value following : List UInt8) : Prop :=
  (∃ s', n.write value s = .throws s') ∨
  ∃ s₁ s₂ s₃ s₄, n.write value s = .ok () s₁ ∧ ByteArray.write following s₁ = .ok () s₂ ∧
    setPosition s.position s₂ = .ok () s₃ ∧ n.read s₃ = .ok value s₄ ∧
    s₄.position = s₁.position ∧ s₄.unread.take following.length = following

/-- The prefix holds the length, the writes find room, and an empty string does not end
at the capacity. -/
structure Fits (n : NarrowString) (s : ByteArray) (value following : List UInt8) : Prop where
  length_lt : value.length < 2 ^ n.width
  room : WritesFit s.baseSize s.position s.capacity
    [n.width / 8, value.length, following.length]
  notAtEnd : value = [] → following = [] →
    s.position + n.width / 8 < grown s.baseSize s.position s.capacity (n.width / 8)

/-- The widths of the prefixes are bytes. -/
theorem eight_dvd_width (n : NarrowString) : 8 ∣ n.width ∧ 8 ≤ n.width := by
  cases n <;> exact ⟨by decide, by decide⟩

/-- The prefix is written, then the text. -/
theorem write_eq (n : NarrowString) (value : List UInt8) :
    n.write value = writeFixed (BitVec.ofNat n.width value.length) >>=
      fun _ => ByteArray.write value := by
  cases n <;> rfl

/-- The prefix is read, then as much text. -/
theorem read_eq (n : NarrowString) :
    n.read = readFixed n.width >>= fun len => ByteArray.read len.toNat := by
  cases n <;> rfl

/-! ## The writes -/

/-- The two writes of a string and the write of what follows. -/
theorem makesWrites (n : NarrowString) (value following : List UInt8) :
    MakesWrites (n.write value >>= fun _ => ByteArray.write following)
      [n.width / 8, value.length, following.length] := by
  rw [n.write_eq value, Program.bind_assoc]
  exact (isWrite_writeFixed _).bind
    ((isWrite_write value).bind (isWrite_write following).makesWrites)

/-- A write throws nothing. -/
theorem write_ne_throws {s s' : ByteArray} (h : Inv s) (buf : List UInt8) :
    ByteArray.write buf s ≠ .throws s' := by
  intro hrun
  obtain ⟨hok, hfault⟩ := write_cases h buf
  by_cases hroom : Room s.baseSize s.position s.capacity buf.length
  · obtain ⟨s₁, hs₁, -⟩ := hok hroom
    rw [hs₁] at hrun
    cases hrun
  · rw [hfault hroom] at hrun
    cases hrun

/-- What a successful write of a string does to the flat buffer. -/
theorem puts (n : NarrowString) (value : List UInt8) :
    Puts (n.write value)
      fun e => encode e (BitVec.ofNat n.width value.length) ++ value := by
  rw [n.write_eq value]
  exact (puts_write (p := writeFixed _) fun _ => rfl).bind (puts_write fun _ => rfl)

/-- A string is written or there is no room; nothing is refused. -/
theorem write_ne_throws_string (n : NarrowString) {s s' : ByteArray} (h : Inv s)
    (value : List UInt8) : n.write value s ≠ .throws s' := by
  rw [n.write_eq value]
  intro hrun
  cases hfirst : writeFixed (BitVec.ofNat n.width value.length) s with
  | ok _ s₁ =>
      rw [Program.bind_of_ok hfirst] at hrun
      obtain ⟨f, hf⟩ := h.represents
      have hputs := puts_write (p := writeFixed (BitVec.ofNat n.width value.length))
        (g := fun e => encode e _) fun _ => rfl
      exact write_ne_throws (hputs.puts hf hfirst).1.inv value hrun
  | throws s₁ => exact write_ne_throws h _ hfirst
  | fault =>
      rw [Program.bind_of_fault hfirst] at hrun
      cases hrun

/-- Both writes return exactly when there is room for all that is written. -/
theorem writes_ok_iff (n : NarrowString) {s : ByteArray} (h : Inv s)
    (value following : List UInt8) :
    (∃ s₁ s₂, n.write value s = .ok () s₁ ∧ ByteArray.write following s₁ = .ok () s₂) ↔
      WritesFit s.baseSize s.position s.capacity
        [n.width / 8, value.length, following.length] := by
  rw [← (n.makesWrites value following).noFault_iff h]
  constructor
  · rintro ⟨s₁, s₂, hwrite, hnext⟩
    rw [Program.bind_of_ok hwrite, hnext]
    exact Option.some_ne_none s₂
  · intro hrun
    cases hwrite : n.write value s with
    | throws s' => exact absurd hwrite (n.write_ne_throws_string h value)
    | fault =>
        rw [Program.bind_of_fault hwrite] at hrun
        exact absurd rfl hrun
    | ok _ s₁ =>
        rw [Program.bind_of_ok hwrite] at hrun
        obtain ⟨f, hf⟩ := h.represents
        have hinv₁ := ((n.puts value).puts hf hwrite).1.inv
        cases hnext : ByteArray.write following s₁ with
        | throws s' => exact absurd hnext (write_ne_throws hinv₁ following)
        | fault =>
            rw [hnext] at hrun
            exact absurd rfl hrun
        | ok _ s₂ => exact ⟨s₁, s₂, rfl, hnext⟩

/-! ## The read -/

/-- The string that is read is no longer than the prefix can say. -/
theorem length_of_read (n : NarrowString) {s s' : ByteArray} (h : Inv s)
    {value : List UInt8} (hrun : n.read s = .ok value s') : value.length < 2 ^ n.width := by
  rw [n.read_eq] at hrun
  obtain ⟨len, s₁, hlen, hbytes⟩ := Program.bind_eq_ok hrun
  obtain ⟨s₂, hstate, hinv⟩ := (readsAs_readFixed n.eight_dvd_width.2).after h
  rw [hlen] at hstate
  cases hstate
  obtain ⟨hshort, hread, hfault⟩ := read_spec hinv len.toNat
  have hpos := hinv.position_le
  have hcap := hinv.size_le
  by_cases hsize : s₁.getReadSize < len.toNat
  · rw [hshort hsize] at hbytes
    cases hbytes
  by_cases hok : len.toNat ≠ 0 ∨ s₁.position < s₁.capacity
  · rw [hread (by omega) hok] at hbytes
    cases hbytes
    rw [List.length_take, hinv.length_unread]
    have hlt := len.isLt
    omega
  · rw [hfault (by omega) (by omega)] at hbytes
    cases hbytes

/-- What lies at the old position once the string and what follows are written. -/
theorem seek_back (n : NarrowString) {s s₁ s₂ : ByteArray} (h : Inv s)
    {value following : List UInt8} (hwrite : n.write value s = .ok () s₁)
    (hnext : ByteArray.write following s₁ = .ok () s₂) :
    s₁.position = s.position + (n.width / 8 + value.length) ∧
      s₂.position = s₁.position + following.length ∧ Inv s₂ ∧
      ∃ s₃ rest, setPosition s.position s₂ = .ok () s₃ ∧ Inv s₃ ∧
        s₃.position = s.position ∧ s₃.capacity = s₂.capacity ∧
        s₃.unread = encode s₃.littleEndian (BitVec.ofNat n.width value.length) ++ value ++
          following ++ rest := by
  obtain ⟨f, hf⟩ := h.represents
  obtain ⟨h₁, he₁⟩ := (n.puts value).puts hf hwrite
  obtain ⟨h₂, he₂⟩ := h₁.write hnext
  have hlen := length_encode s.littleEndian (BitVec.ofNat n.width value.length)
  have hpos₁ : s₁.position = s.position + (n.width / 8 + value.length) := by
    rw [← h₁.cursor, ← hf.cursor]
    simp only [Flat.Buffer.write, List.length_append, hlen]
  have hpos₂ : s₂.position = s₁.position + following.length := by
    rw [← h₂.cursor, ← h₁.cursor]
    rfl
  have hle : s.position ≤ s₂.size := by
    have hend := h₂.inv.position_le
    omega
  have hseek := (setPosition_spec h₂.inv s.position).2 hle
  -- from the old position on the flat buffer begins with what was written
  let code := encode s.littleEndian (BitVec.ofNat n.width value.length) ++ value
  obtain ⟨g, hg, -, -, hrest⟩ := f.rest_seek_write (code ++ following)
  refine ⟨hpos₁, hpos₂, h₂.inv, _, f.rest.drop (code ++ following).length, hseek,
    h₂.inv.setPosition hle, rfl, rfl, ?_⟩
  obtain ⟨g', hg', hrep⟩ := h₂.setPosition hle
  rw [Flat.Buffer.write_write, ← hf.cursor, hg] at hg'
  cases hg'
  rw [← hrep.rest, hrest]
  change _ = encode s₂.littleEndian _ ++ value ++ following ++ _
  rw [he₂, he₁]

/-- The read of a string whose length fits its prefix faults exactly where it is empty
and ends at the capacity. -/
theorem read_written (n : NarrowString) {s : ByteArray} (h : Inv s)
    {value rest : List UInt8} (hlen : value.length < 2 ^ n.width)
    (hunread : s.unread =
      encode s.littleEndian (BitVec.ofNat n.width value.length) ++ value ++ rest) :
    (n.read s = .fault ↔ value = [] ∧ s.position + n.width / 8 = s.capacity) ∧
    (n.read s ≠ .fault → n.read s = .ok value (s.advance (n.width / 8 + value.length))) := by
  obtain ⟨hdvd, hpos⟩ := n.eight_dvd_width
  rw [n.read_eq]
  have hfinds := (finds_readFixed hdvd hpos (BitVec.ofNat n.width value.length)).string hlen
  obtain ⟨-, hok⟩ := hfinds s rest h hunread
  have hcodelen := length_encode s.littleEndian (BitVec.ofNat n.width value.length)
  simp only [List.length_append, hcodelen] at hok
  refine ⟨?_, hok⟩
  have hnone : ∀ o : Outcome ByteArray (List UInt8), o = .fault ↔ o.state? = none := by
    intro o
    cases o <;> simp [Outcome.state?]
  rw [hnone, ((readsAs_readFixed hpos).readString h).1]
  have hpre : fixedPrefix n.width s.littleEndian s.unread =
      some (BitVec.ofNat n.width value.length, n.width / 8) := by
    rw [hunread, List.append_assoc, fixedPrefix_encode hdvd]
  have hzero : (BitVec.ofNat n.width value.length).toNat = value.length := by
    rw [BitVec.toNat_ofNat, Nat.mod_eq_of_lt hlen]
  constructor
  · rintro ⟨v, k, hvk, hv, hcap⟩
    cases hpre.symm.trans hvk
    rw [hzero] at hv
    exact ⟨List.length_eq_zero_iff.mp hv, hcap⟩
  · rintro ⟨hnil, hcap⟩
    refine ⟨_, _, hpre, ?_, hcap⟩
    rw [hzero, hnil]
    rfl

/-- The capacity after an empty string is written with nothing behind it. -/
theorem capacity_of_empty (n : NarrowString) {s s₁ s₂ : ByteArray} (h : Inv s)
    (hwrite : n.write [] s = .ok () s₁) (hnext : ByteArray.write [] s₁ = .ok () s₂) :
    s₂.capacity = grown s.baseSize s.position s.capacity (n.width / 8) := by
  rw [n.write_eq] at hwrite
  obtain ⟨_, s₀, hfirst, hsecond⟩ := Program.bind_eq_ok hwrite
  cases hsecond
  cases hnext
  obtain ⟨hok, hfault⟩ := write_cases h
    (encode s.littleEndian (BitVec.ofNat n.width ([] : List UInt8).length))
  have hlen := length_encode s.littleEndian (BitVec.ofNat n.width ([] : List UInt8).length)
  rw [hlen] at hok hfault
  by_cases hroom : Room s.baseSize s.position s.capacity (n.width / 8)
  · obtain ⟨s', hs', -, -, -, hcap⟩ := hok hroom
    cases hs'.symm.trans hfirst
    exact hcap
  · cases (hfault hroom).symm.trans hfirst

/-- **Narrow prefixes.**  In every state of a byte array, for every string and every byte
string that follows it: the string is refused or comes back, with the cursor at what
follows, exactly when it fits. -/
theorem roundTrips_iff_fits {b : Nat} (hb : 1 ≤ b) {s : ByteArray}
    (hs : Reachable (· = new b) Step s) (n : NarrowString) (value following : List UInt8) :
    RoundTrips n s value following ↔ Fits n s value following := by
  have h := inv_of_reachable hb hs
  constructor
  · rintro (⟨s', hthrow⟩ | ⟨s₁, s₂, s₃, s₄, hwrite, hnext, hseek, hread, -, -⟩)
    · exact absurd hthrow (n.write_ne_throws_string h value)
    obtain ⟨-, hpos₂, hinv₂, s₃', rest, hseek', hinv₃, hpos₃, hcap₃, hunread⟩ :=
      n.seek_back h hwrite hnext
    cases hseek.symm.trans hseek'
    have hlen := n.length_of_read hinv₃ hread
    have hroom := (n.writes_ok_iff h value following).mp ⟨s₁, s₂, hwrite, hnext⟩
    refine ⟨hlen, hroom, fun hnil hnone => ?_⟩
    subst hnil hnone
    rw [List.append_assoc] at hunread
    have hnofault : n.read s₃ ≠ .fault := by
      rw [hread]
      exact fun hf => by cases hf
    have hnot := mt (n.read_written hinv₃ hlen hunread).1.mpr hnofault
    rw [← n.capacity_of_empty h hwrite hnext, ← hcap₃, ← hpos₃]
    have hend := hinv₃.length_unread
    rw [hunread] at hend
    have hcode := length_encode s₃.littleEndian (BitVec.ofNat n.width ([] : List UInt8).length)
    simp only [List.length_append, hcode, getReadSize] at hend
    have hsize := hinv₃.size_le
    have hne : ¬ s₃.position + n.width / 8 = s₃.capacity := fun heq => hnot ⟨rfl, heq⟩
    have hwidth := n.eight_dvd_width.2
    omega
  · rintro ⟨hlen, hroom, hend⟩
    obtain ⟨s₁, s₂, hwrite, hnext⟩ := (n.writes_ok_iff h value following).mpr hroom
    obtain ⟨hpos₁, hpos₂, hinv₂, s₃, rest, hseek, hinv₃, hpos₃, hcap₃, hunread⟩ :=
      n.seek_back h hwrite hnext
    rw [List.append_assoc] at hunread
    obtain ⟨hfault, hok⟩ := n.read_written hinv₃ hlen hunread
    have hread : n.read s₃ ≠ .fault := by
      intro hf
      obtain ⟨hnil, hcap⟩ := hfault.mp hf
      have hle := hinv₂.position_le
      have hsize := hinv₂.size_le
      subst hnil
      have hnone : following = [] := by
        rw [List.length_nil] at hpos₁
        exact List.length_eq_zero_iff.mp (by omega)
      subst hnone
      have hlt := hend rfl rfl
      rw [← n.capacity_of_empty h hwrite hnext] at hlt
      omega
    refine Or.inr ⟨s₁, s₂, s₃, _, hwrite, hnext, hseek, hok hread, ?_, ?_⟩
    · rw [hpos₁, ← hpos₃]
      rfl
    · have hcode := length_encode s₃.littleEndian (BitVec.ofNat n.width value.length)
      have hprefix : (encode s₃.littleEndian (BitVec.ofNat n.width value.length) ++
          value).length = n.width / 8 + value.length := by
        rw [List.length_append, hcode]
      rw [unread_advance, hunread, ← hprefix, List.drop_left, List.take_left]

/-- Three bytes with a byte behind them, in a new array. -/
theorem roundTrips_of_three : RoundTrips .f16 (new 16) [1, 2, 3] [9] := by
  have hstart : Reachable (· = new 16) Step (new 16) := .start rfl
  refine (roundTrips_iff_fits (b := 16) (by decide) hstart .f16 [1, 2, 3] [9]).mpr ?_
  exact ⟨by decide, ⟨Or.inl (by decide), Or.inl (by decide), Or.inl (by decide), trivial⟩,
    fun hnil => absurd hnil (List.cons_ne_nil _ _)⟩

/-- A string of `2 ^ 16` bytes comes back empty. -/
theorem long_string_is_cut :
    ¬ ∀ s, Reachable (· = new 70000) Step s →
      ∀ n value following, RoundTrips n s value following := by
  intro hall
  have hinv : Inv (new 70000) := inv_new (by decide)
  obtain ⟨s', hthrow⟩ | ⟨s₁, s₂, s₃, s₄, hwrite, hnext, hseek, hread, -, -⟩ :=
    hall (new 70000) (.start rfl) .f16 (List.replicate (2 ^ 16) 7) []
  · exact write_ne_throws_string .f16 hinv _ hthrow
  obtain ⟨-, -, -, s₃', rest, hseek', hinv₃, -⟩ := seek_back .f16 hinv hwrite hnext
  cases hseek.symm.trans hseek'
  have hlt := length_of_read .f16 hinv₃ hread
  rw [List.length_replicate] at hlt
  exact absurd hlt (by decide)

end NarrowString

end Agent
