import GServer.ByteArrayCodec

/-!
# Typed reads that throw

A read that asks for more bytes than there are throws before it moves.  The
typed reads of variable width are several reads, each of which moves the cursor:
the loop of `readUint32` and `readUint64` takes the bytes one by one, and a
string read takes its length first.  So the bytes that were taken before the one
that is missing stay taken.

`Throws` describes a read by the number of bytes it has taken when it throws;
the read is atomic where that number is zero (`Throws.atomic_iff`).
-/

namespace Agent

open Faults Runs

namespace ByteArray

/-- `p` throws after it has taken as many of the unread bytes as `t` says, and only
there. -/
def Throws {α : Type} (p : Op α) (t : Bool → List UInt8 → Option Nat) : Prop :=
  ∀ s, Inv s → (p s).thrown? = (t s.littleEndian s.unread).map s.advance

/-- Where `readF..` for `w` bits throws. -/
def fixedShort (w : Nat) (bytes : List UInt8) : Option Nat :=
  if bytes.length < w / 8 then some 0 else none

/-- Where the loop of `readUint32` and `readUint64` with `n` turns left throws. -/
def varintShort : Nat → List UInt8 → Option Nat
  | 0, _ => none
  | _ + 1, [] => some 0
  | n + 1, b :: bytes =>
      if b.toBitVec < 0x80 then none else (varintShort n bytes).map (· + 1)

/-- Where a string read throws whose length is read as `f` says and throws as `t`
says. -/
def stringShort {w : Nat} (f : Bool → List UInt8 → Option (BitVec w × Nat))
    (t : Bool → List UInt8 → Option Nat) (littleEndian : Bool) (bytes : List UInt8) :
    Option Nat :=
  match f littleEndian bytes with
  | none => t littleEndian bytes
  | some (len, k) => if bytes.length < k + len.toNat then some k else none

/-! ## The reads -/

/-- A number of fixed width throws before anything is taken. -/
theorem throws_readFixed {w : Nat} (hw : 8 ≤ w) :
    Throws (readFixed w) fun _ => fixedShort w := by
  intro s h
  have hpos : w / 8 ≠ 0 := by omega
  obtain ⟨hshort, hread, -⟩ := read_spec h (w / 8)
  change (readFixed w s).thrown? = (fixedShort w s.unread).map s.advance
  rw [fixedShort, h.length_unread, readFixed]
  by_cases hlen : s.getReadSize < w / 8
  · rw [hshort hlen, if_pos hlen, Option.map_some, advance_zero h]
    rfl
  · rw [hread (by omega) (Or.inl hpos), if_neg hlen]
    rfl

/-- One of variable length throws with the bytes taken that it has. -/
theorem throws_readVarint (w n : Nat) : ∀ (i : Nat) (result : BitVec w),
    Throws (readVarint w n i result) fun _ => varintShort n := by
  induction n with
  | zero => intro i result s h; rfl
  | succ n ih =>
      intro i result s h
      obtain ⟨hnil, hcons⟩ := readFuint8_spec h
      change (readVarint w (n + 1) i result s).thrown? =
        (varintShort (n + 1) s.unread).map s.advance
      unfold readVarint
      cases hunread : s.unread with
      | nil =>
          rw [Program.bind_of_throws (hnil hunread), varintShort, Option.map_some, advance_zero h]
          rfl
      | cons b bytes =>
          obtain ⟨hrun, hone⟩ := hcons b bytes hunread
          have hrest : (s.advance 1).unread = bytes := by
            rw [unread_advance, hunread, List.drop_one, List.tail_cons]
          rw [Program.bind_of_ok hrun, varintShort]
          by_cases hlast : b.toBitVec < 0x80
          · rw [if_pos hlast, if_pos hlast]
            rfl
          rw [if_neg hlast, if_neg hlast, ih _ _ _ (h.advance hone), hrest, Option.map_map]
          refine congrArg (fun f => (varintShort n bytes).map f) (funext fun k => ?_)
          rw [Function.comp_apply, advance_advance, Nat.add_comm 1 k]

/-- The returned value may be changed. -/
theorem Throws.bind_pure {α β : Type} {p : Op α} {t : Bool → List UInt8 → Option Nat}
    (hp : Throws p t) (g : α → β) : Throws (p >>= fun v => pure (g v)) t := by
  intro s h
  rw [← hp s h]
  change ((p s).bind fun v s => .ok (g v) s).thrown? = (p s).thrown?
  cases p s <;> rfl

/-- A string read: its length, and as many bytes as that. -/
theorem Throws.string {w : Nat} {p : Op (BitVec w)}
    {f : Bool → List UInt8 → Option (BitVec w × Nat)} {t : Bool → List UInt8 → Option Nat}
    (hp : Throws p t) (hf : ReadsAs p f) :
    Throws (p >>= fun len => ByteArray.read len.toNat) (stringShort f t) := by
  intro s h
  obtain ⟨hsome, hnone⟩ := hf s h
  unfold stringShort
  cases hpre : f s.littleEndian s.unread with
  | none =>
      obtain ⟨s₁, hrun, -⟩ := hnone hpre
      rw [Program.bind_of_throws hrun, ← hp s h, hrun]
      rfl
  | some r =>
      obtain ⟨len, k⟩ := r
      obtain ⟨hle, hrun⟩ := hsome len k hpre
      have hinv := h.advance hle
      have hsize : (s.advance k).getReadSize = s.getReadSize - k := by
        simp only [getReadSize, advance]
        omega
      obtain ⟨hshort, hread, hfault⟩ := read_spec hinv len.toNat
      have hpos := hinv.position_le
      have hcap := hinv.size_le
      dsimp only
      rw [Program.bind_of_ok hrun, h.length_unread]
      by_cases hlen : (s.advance k).getReadSize < len.toNat
      · rw [hshort hlen, if_pos (by omega)]
        rfl
      rw [if_neg (by omega)]
      by_cases hok : len.toNat ≠ 0 ∨ (s.advance k).position < (s.advance k).capacity
      · rw [hread (by omega) hok]
        rfl
      · rw [hfault (by omega) (by omega)]
        rfl

/-! ## Atomic reads -/

/-- The read leaves the byte array as it was when it throws. -/
def Atomic (s : ByteArray) (r : TypedRead) : Prop :=
  ∀ s', r.run s = .throws s' → s' = s

/-- The unread bytes are the beginning of a group of seven-bit pieces that goes on
after them. -/
def CutShort (n : Nat) (bytes : List UInt8) : Prop :=
  bytes ≠ [] ∧ bytes.length < n ∧ ∀ b ∈ bytes, ¬ b.toBitVec < 0x80

/-- The length that `f` reads at the position is there, but is greater than the number
of bytes after it. -/
def LengthExceeds {w : Nat} (s : ByteArray)
    (f : Bool → List UInt8 → Option (BitVec w × Nat)) : Prop :=
  ∃ len k, f s.littleEndian s.unread = some (len, k) ∧ s.unread.length < k + len.toNat

/-- No part of the value is there before the part that is missing. -/
def Untorn (s : ByteArray) : TypedRead → Prop
  | .int32 | .uint32 => ¬ CutShort 5 s.unread
  | .int64 | .uint64 => ¬ CutShort 10 s.unread
  | .stringF16 => ¬ LengthExceeds s (fixedPrefix 16)
  | .stringF32 => ¬ LengthExceeds s (fixedPrefix 32)
  | .stringF64 => ¬ LengthExceeds s (fixedPrefix 64)
  | .stringVint =>
      ¬ CutShort 10 s.unread ∧ ¬ LengthExceeds s fun _ => varintPrefix 64 10 0 0
  | _ => True

/-- A cursor that moves is elsewhere. -/
theorem advance_eq_self {s : ByteArray} (h : Inv s) {k : Nat} : s.advance k = s ↔ k = 0 := by
  constructor
  · intro heq
    have hpos := congrArg ByteArray.position heq
    simp only [advance] at hpos
    omega
  · rintro rfl
    exact advance_zero h

/-- A read is atomic where it has taken nothing when it throws. -/
theorem Throws.atomic_iff {α : Type} {p : Op α} {t : Bool → List UInt8 → Option Nat}
    (hp : Throws p t) {s : ByteArray} (h : Inv s) :
    (∀ s', p s = .throws s' → s' = s) ↔ ∀ k, t s.littleEndian s.unread = some k → k = 0 := by
  have hthrown := hp s h
  constructor
  · intro hatomic k hk
    rw [hk, Option.map_some, Outcome.thrown?_eq_some] at hthrown
    exact (advance_eq_self h).mp (hatomic _ hthrown)
  · intro hzero s' hrun
    rw [hrun] at hthrown
    obtain ⟨k, hk, hadvance⟩ := Option.map_eq_some_iff.mp hthrown.symm
    rw [← hadvance]
    exact (advance_eq_self h).mpr (hzero k hk)

/-- Nothing is taken by a fixed width that is short. -/
theorem fixedShort_zero {w k : Nat} {bytes : List UInt8} (h : fixedShort w bytes = some k) :
    k = 0 := by
  unfold fixedShort at h
  split at h
  · exact (Option.some.inj h).symm
  · cases h

/-- The loop throws at the end of the unread bytes, where these all go on. -/
theorem varintShort_eq_some {n k : Nat} {bytes : List UInt8} :
    varintShort n bytes = some k ↔
      k = bytes.length ∧ bytes.length < n ∧ ∀ b ∈ bytes, ¬ b.toBitVec < 0x80 := by
  induction n generalizing bytes k with
  | zero => simp [varintShort]
  | succ n ih =>
      cases bytes with
      | nil =>
          constructor
          · intro h
            exact ⟨(Option.some.inj h).symm, Nat.succ_pos n, fun b hb => absurd hb List.not_mem_nil⟩
          · rintro ⟨rfl, -⟩
            rfl
      | cons b bytes =>
          rw [varintShort]
          by_cases hb : b.toBitVec < 0x80
          · rw [if_pos hb]
            refine ⟨fun h => absurd h.symm (Option.some_ne_none k), fun ⟨_, _, hall⟩ => ?_⟩
            exact absurd hb (hall b List.mem_cons_self)
          · rw [if_neg hb, Option.map_eq_some_iff]
            simp only [ih, List.length_cons, List.forall_mem_cons]
            constructor
            · rintro ⟨j, ⟨rfl, hlen, hall⟩, rfl⟩
              exact ⟨rfl, by omega, hb, hall⟩
            · rintro ⟨rfl, hlen, -, hall⟩
              exact ⟨bytes.length, ⟨rfl, by omega, hall⟩, rfl⟩

/-- Nothing is taken by a variable length exactly when it is not cut. -/
theorem varintShort_zero_iff {n : Nat} {bytes : List UInt8} :
    (∀ k, varintShort n bytes = some k → k = 0) ↔ ¬ CutShort n bytes := by
  simp only [varintShort_eq_some, CutShort]
  constructor
  · rintro hzero ⟨hne, hlen, hall⟩
    exact hne (List.length_eq_zero_iff.mp (hzero _ ⟨rfl, hlen, hall⟩))
  · rintro hnot k ⟨rfl, hlen, hall⟩
    by_contra hne
    exact hnot ⟨fun hnil => hne (by rw [hnil]; rfl), hlen, hall⟩

/-- A string read whose length takes at least one byte. -/
theorem stringShort_zero_iff {w : Nat} {s : ByteArray}
    {f : Bool → List UInt8 → Option (BitVec w × Nat)} {t : Bool → List UInt8 → Option Nat}
    (hpos : ∀ e bytes len k, f e bytes = some (len, k) → 1 ≤ k)
    (hnone : ∀ e bytes r, f e bytes = some r → t e bytes = none) :
    (∀ k, stringShort f t s.littleEndian s.unread = some k → k = 0) ↔
      (∀ k, t s.littleEndian s.unread = some k → k = 0) ∧ ¬ LengthExceeds s f := by
  unfold stringShort LengthExceeds
  cases hpre : f s.littleEndian s.unread with
  | none => simp
  | some r =>
      obtain ⟨len, k⟩ := r
      have hk := hpos _ _ _ _ hpre
      have ht := hnone _ _ _ hpre
      simp only [ht]
      constructor
      · intro hzero
        refine ⟨fun k hk => absurd hk.symm (Option.some_ne_none k), ?_⟩
        rintro ⟨len', k', heq, hlen⟩
        cases heq
        have := hzero k (if_pos hlen)
        omega
      · rintro ⟨-, hnot⟩ k' hk'
        by_cases hlen : s.unread.length < k + len.toNat
        · exact absurd ⟨len, k, rfl, hlen⟩ hnot
        · rw [if_neg hlen] at hk'
          cases hk'

/-- What is read whole is not short. -/
theorem fixedPrefix_some {w : Nat} {e : Bool} {bytes : List UInt8} {r : BitVec w × Nat}
    (h : fixedPrefix w e bytes = some r) : r.2 = w / 8 ∧ fixedShort w bytes = none := by
  unfold fixedPrefix at h
  split at h
  · cases h
  · rename_i hlen
    cases h
    exact ⟨rfl, if_neg hlen⟩

/-- What is read whole with a variable length is not short and takes a byte. -/
theorem varintPrefix_some {w n : Nat} :
    ∀ {i : Nat} {result : BitVec w} {bytes : List UInt8} {r : BitVec w × Nat},
      varintPrefix w n i result bytes = some r →
      (1 ≤ n → 1 ≤ r.2) ∧ varintShort n bytes = none := by
  induction n with
  | zero =>
      intro i result bytes r h
      exact ⟨fun h0 => by omega, rfl⟩
  | succ n ih =>
      intro i result bytes r h
      cases bytes with
      | nil => cases h
      | cons b bytes =>
          rw [varintPrefix] at h
          rw [varintShort]
          by_cases hb : b.toBitVec < 0x80
          · rw [if_pos hb] at h
            cases h
            exact ⟨fun _ => Nat.le_refl 1, if_pos hb⟩
          · rw [if_neg hb] at h
            obtain ⟨r', hr', rfl⟩ := Option.map_eq_some_iff.mp h
            refine ⟨fun _ => by simp, ?_⟩
            rw [if_neg hb, (ih hr').2, Option.map_none]

/-- A string read with a length of fixed width. -/
theorem atomic_stringFixed {w : Nat} (hw : 8 ≤ w) {s : ByteArray} (h : Inv s) {β : Type}
    (g : List UInt8 → β) :
    (∀ s', ((readFixed w >>= fun len => ByteArray.read len.toNat) >>= fun v => pure (g v)) s =
        .throws s' → s' = s) ↔ ¬ LengthExceeds s (fixedPrefix w) := by
  have hthrows := ((throws_readFixed hw).string (readsAs_readFixed hw)).bind_pure g
  rw [hthrows.atomic_iff h, stringShort_zero_iff]
  · exact and_iff_right fun k hk => fixedShort_zero hk
  · intro e bytes len k hk
    have := (fixedPrefix_some hk).1
    dsimp only at this
    omega
  · intro e bytes r hr
    exact (fixedPrefix_some hr).2

/-- **Failed reads.**  In every state of a byte array and for every typed read: when the
read throws it leaves the byte array as it was exactly when no part of the value is there
before the part that is missing. -/
theorem atomic_iff_untorn {b : Nat} (hb : 1 ≤ b) {s : ByteArray}
    (hs : Reachable (· = new b) Step s) (r : TypedRead) : Atomic s r ↔ Untorn s r := by
  have h := inv_of_reachable hb hs
  have hfixed : ∀ {w : Nat} (g : BitVec w → Value), 8 ≤ w →
      ((∀ s', (readFixed w >>= fun v => pure (g v)) s = .throws s' → s' = s) ↔ True) := by
    intro w g hw
    rw [((throws_readFixed hw).bind_pure g).atomic_iff h]
    exact iff_true_intro fun k hk => fixedShort_zero hk
  have hvarint : ∀ {w : Nat} (n : Nat) (g : BitVec w → Value),
      ((∀ s', (readVarint w n 0 0 >>= fun v => pure (g v)) s = .throws s' → s' = s) ↔
        ¬ CutShort n s.unread) := by
    intro w n g
    rw [((throws_readVarint w n 0 0).bind_pure g).atomic_iff h]
    exact varintShort_zero_iff
  have hzigzag : ∀ {w : Nat} (n : Nat) (g : BitVec w → Value),
      ((∀ s', ((readVarint w n 0 0 >>= fun v => pure (decodeZigzag v)) >>=
          fun v => pure (g v)) s = .throws s' → s' = s) ↔ ¬ CutShort n s.unread) := by
    intro w n g
    rw [(((throws_readVarint w n 0 0).bind_pure decodeZigzag).bind_pure g).atomic_iff h]
    exact varintShort_zero_iff
  cases r with
  | fint8 => exact hfixed Value.fint8 (by decide)
  | fuint8 => exact hfixed Value.fuint8 (by decide)
  | fint16 => exact hfixed Value.fint16 (by decide)
  | fuint16 => exact hfixed Value.fuint16 (by decide)
  | fint32 => exact hfixed Value.fint32 (by decide)
  | fuint32 => exact hfixed Value.fuint32 (by decide)
  | fint64 => exact hfixed Value.fint64 (by decide)
  | fuint64 => exact hfixed Value.fuint64 (by decide)
  | float => exact hfixed Value.float (by decide)
  | double => exact hfixed Value.double (by decide)
  | int32 => exact hzigzag 5 Value.int32
  | uint32 => exact hvarint 5 Value.uint32
  | int64 => exact hzigzag 10 Value.int64
  | uint64 => exact hvarint 10 Value.uint64
  | stringF16 => exact atomic_stringFixed (by decide) h Value.stringF16
  | stringF32 => exact atomic_stringFixed (by decide) h Value.stringF32
  | stringF64 => exact atomic_stringFixed (by decide) h Value.stringF64
  | stringVint =>
      have hthrows := ((throws_readVarint 64 10 0 0).string
        (readsAs_readVarint 64 10 0 0)).bind_pure Value.stringVint
      refine (hthrows.atomic_iff h).trans ((stringShort_zero_iff ?_ ?_).trans ?_)
      · intro e bytes len k hk
        exact (varintPrefix_some hk).1 (by decide)
      · intro e bytes r hr
        exact (varintPrefix_some hr).2
      · exact and_congr varintShort_zero_iff Iff.rfl

/-- A byte in a node of four that says that more follow, at the position `position`. -/
def oneByte (position : Nat) : ByteArray :=
  { baseSize := 4, position := position, capacity := 4, size := 1, littleEndian := true
    nodes := [[0x80, 0, 0, 0]], cur := 0 }

theorem reachable_oneByte : Reachable (· = new 4) Step (oneByte 1) ∧
    Reachable (· = new 4) Step (oneByte 0) := by
  have hwrite : Step (new 4) (.write [0x80]) (oneByte 1) := rfl
  have hseek : Step (oneByte 1) (.setPosition 0) (oneByte 0) := rfl
  have hreach : Reachable (· = new 4) Step (oneByte 1) := .next (.start rfl) trivial hwrite
  exact ⟨hreach, .next hreach trivial hseek⟩

/-- A length of two bytes of which one is there. -/
theorem atomic_of_short_prefix :
    readStringF16 (oneByte 0) = .throws (oneByte 0) ∧ Atomic (oneByte 0) .stringF16 := by
  refine ⟨rfl, (atomic_iff_untorn (b := 4) (by decide) reachable_oneByte.2 .stringF16).mpr ?_⟩
  rintro ⟨len, k, hpre, -⟩
  cases hpre

/-- The read of a number of which the first byte is there takes it and throws. -/
theorem torn_read_moves :
    ¬ ∀ s, Reachable (· = new 4) Step s → ∀ r, Atomic s r := by
  intro hall
  have hrun : TypedRead.run .uint32 (oneByte 0) = .throws (oneByte 1) := rfl
  have heq := hall (oneByte 0) reachable_oneByte.2 .uint32 _ hrun
  exact absurd (congrArg ByteArray.position heq) (by decide)

end ByteArray

end Agent
