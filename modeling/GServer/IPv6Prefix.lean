import GServer.AddressPrefix

/-!
# IPv6 prefixes

The three functions of `IPv6Address` index the 16 bytes with the prefix length, without
a look at it.  An access behind the last byte has no meaning and ends the function.

`Net.ipv6PrefixArithmetic_iff` says that they keep to the prefix exactly for lengths
below 128.
-/

namespace Agent

namespace Net

/-! ## Bytes and loops -/

abbrev Bytes16 : Type := Vector (BitVec 8) 16

/-- `bytes[i] = f(bytes[i])` for an index of any sign. -/
def updateByte (bytes : Bytes16) (i : Int) (f : BitVec 8 → BitVec 8) : Option Bytes16 :=
  if h : 0 ≤ i ∧ i < 16 then
    have hlt : i.toNat < 16 := by omega
    some (bytes.set i.toNat (f bytes[i.toNat]))
  else none

/-- The indices of `for(int i = start; i < stop; ++i)`. -/
def upTo (start stop : Int) : List Int :=
  (List.range (stop - start).toNat).map fun n : Nat => start + (n : Int)

/-- The indices of `for(int i = start; i > stop; --i)`. -/
def downTo (start stop : Int) : List Int :=
  (List.range (start - stop).toNat).map fun n : Nat => start - (n : Int)

/-- A loop that writes `value` at every index. -/
def fill (value : BitVec 8) (is : List Int) (bytes : Bytes16) : Option Bytes16 :=
  is.foldlM (fun bytes i => updateByte bytes i fun _ => value) bytes

/-! ## The three functions -/

namespace IPv6Address

/-- An address with other bytes. -/
def withBytes (a : IPv6Address) (bytes : Bytes16) : IPv6Address :=
  ⟨{ a.m_addr with u6_addr8 := bytes }⟩

/-- `IPv6Address::broadcastAddress`; `none` where it has no meaning. -/
def broadcastAddress (wrapv : Bool) (a : IPv6Address) (prefix_len : BitVec 32) :
    Option IPv6Address := do
  let mask ← CreateMask wrapv 8 (prefix_len % 8)
  let bytes ← updateByte a.m_addr.u6_addr8 (prefix_len / 8).toNat (· ||| mask)
  let bytes ← fill 0xff (upTo (prefix_len.toInt.tdiv 8 + 1) 16) bytes
  return a.withBytes bytes

/-- `IPv6Address::networkAddress`. -/
def networkAddress (wrapv : Bool) (a : IPv6Address) (prefix_len : BitVec 32) :
    Option IPv6Address := do
  let mask ← CreateMask wrapv 8 (prefix_len % 8)
  let bytes ← updateByte a.m_addr.u6_addr8 (prefix_len / 8).toNat (· &&& ~~~mask)
  let bytes ← fill 0x00 (upTo (prefix_len.toInt.tdiv 8 + 1) 16) bytes
  return a.withBytes bytes

/-- `IPv6Address::subnetMask`. -/
def subnetMask (wrapv : Bool) (a : IPv6Address) (prefix_len : BitVec 32) :
    Option IPv6Address := do
  let mask ← CreateMask wrapv 8 (prefix_len % 8)
  let bytes ← updateByte a.m_addr.u6_addr8 (prefix_len / 8).toNat fun _ => ~~~mask
  let bytes ← fill 0x00 (downTo 15 (prefix_len.toInt.tdiv 8)) bytes
  let bytes ← fill 0xff (upTo 0 (prefix_len.toInt.tdiv 8)) bytes
  return a.withBytes bytes

/-- The bit at `k`, from the first byte on and from the high end of each. -/
def bit (a : IPv6Address) (k : Nat) (hk : k < 128) : Bool :=
  (a.m_addr.u6_addr8[k / 8]).getLsbD (7 - k % 8)

end IPv6Address

/-- The network address, the broadcast address and the mask of a prefix. -/
structure IPv6PrefixLaw (a : IPv6Address) (p : Nat) (network broadcast mask : IPv6Address) :
    Prop where
  networkBits : ∀ k (hk : k < 128), network.bit k hk = (a.bit k hk && decide (k < p))
  broadcastBits : ∀ k (hk : k < 128), broadcast.bit k hk = (a.bit k hk || !decide (k < p))
  maskBits : ∀ k (hk : k < 128), mask.bit k hk = decide (k < p)
  networkAnd : ∀ i (_ : i < 16), network.m_addr.u6_addr8[i] =
    a.m_addr.u6_addr8[i] &&& mask.m_addr.u6_addr8[i]
  broadcastOr : ∀ i (_ : i < 16), broadcast.m_addr.u6_addr8[i] =
    a.m_addr.u6_addr8[i] ||| ~~~mask.m_addr.u6_addr8[i]

/-- The three functions stay within the bytes and change nothing else, and up to 128
they keep to the prefix. -/
def IPv6PrefixArithmetic (wrapv : Bool) (a : IPv6Address) (p : BitVec 32) : Prop :=
  ∃ network broadcast mask : Bytes16,
    a.networkAddress wrapv p = some (a.withBytes network) ∧
    a.broadcastAddress wrapv p = some (a.withBytes broadcast) ∧
    a.subnetMask wrapv p = some (a.withBytes mask) ∧
    (p.toNat ≤ 128 → IPv6PrefixLaw a p.toNat (a.withBytes network) (a.withBytes broadcast)
      (a.withBytes mask))

/-! ## The loops -/

/-- A byte of the sixteen is written. -/
theorem updateByte_of_lt {bytes : Bytes16} {i : Nat} (hi : i < 16) (f : BitVec 8 → BitVec 8) :
    updateByte bytes i f = some (bytes.set i (f bytes[i])) := by
  have hbound : 0 ≤ (i : Int) ∧ (i : Int) < 16 := by omega
  simp only [updateByte, dif_pos hbound, Int.toNat_natCast]

/-- Behind the sixteen bytes nothing is written. -/
theorem updateByte_of_ge {i : Nat} (hi : 16 ≤ i) (bytes : Bytes16) (f : BitVec 8 → BitVec 8) :
    updateByte bytes i f = none := by
  have hbound : ¬ (0 ≤ (i : Int) ∧ (i : Int) < 16) := by omega
  rw [updateByte, dif_neg hbound]

/-- What a loop that counts up passes. -/
theorem mem_upTo {start stop i : Int} : i ∈ upTo start stop ↔ start ≤ i ∧ i < stop := by
  simp only [upTo, List.mem_map, List.mem_range]
  constructor
  · rintro ⟨n, hn, rfl⟩
    omega
  · intro h
    exact ⟨(i - start).toNat, by omega, by omega⟩

/-- What a loop that counts down passes. -/
theorem mem_downTo {start stop i : Int} : i ∈ downTo start stop ↔ stop < i ∧ i ≤ start := by
  simp only [downTo, List.mem_map, List.mem_range]
  constructor
  · rintro ⟨n, hn, rfl⟩
    omega
  · intro h
    exact ⟨(start - i).toNat, by omega, by omega⟩

/-- A loop whose indices are within the bytes writes at these and nowhere else. -/
theorem fill_eq (value : BitVec 8) (is : List Int) (his : ∀ i ∈ is, 0 ≤ i ∧ i < 16)
    (bytes : Bytes16) :
    ∃ filled, fill value is bytes = some filled ∧
      ∀ (j : Nat) (_ : j < 16), filled[j] = if (j : Int) ∈ is then value else bytes[j] := by
  induction is generalizing bytes with
  | nil => exact ⟨bytes, rfl, fun j hj => by simp⟩
  | cons i is ih =>
      obtain ⟨h0, h16⟩ := his i List.mem_cons_self
      obtain ⟨n, rfl⟩ := Int.eq_ofNat_of_zero_le h0
      have hn : n < 16 := by omega
      obtain ⟨filled, hfilled, hvalues⟩ :=
        ih (fun j hj => his j (List.mem_cons_of_mem _ hj)) (bytes.set n value)
      refine ⟨filled, ?_, fun j hj => ?_⟩
      · have hupdate : updateByte bytes n (fun _ => value) = some (bytes.set n value) :=
          updateByte_of_lt hn _
        rw [fill, List.foldlM_cons, hupdate]
        exact hfilled
      · rw [hvalues j hj, Vector.getElem_set]
        by_cases hmem : (j : Int) ∈ is
        · simp [hmem]
        · simp only [hmem, List.mem_cons, or_false, if_false]
          by_cases heq : n = j
          · simp [heq]
          · have hne : ¬ (j : Int) = (n : Int) := by omega
            simp [heq, hne]

/-! ## Byte by byte -/

/-- The byte at `i` of the mask of `p` bits, where `mask` has the bits behind the prefix
in the byte that it ends in. -/
def maskByte (p : Nat) (mask : BitVec 8) (i : Nat) : BitVec 8 :=
  if i < p / 8 then 0xff else if i = p / 8 then ~~~mask else 0

/-- The bits of the mask bytes are those of the prefix. -/
theorem maskByte_bits {p : Nat} {mask : BitVec 8}
    (hmask : ∀ i < 8, mask.getLsbD i = decide (i < 8 - p % 8)) (i : Nat) {j : Nat} (hj : j < 8) :
    (maskByte p mask i).getLsbD (7 - j) = decide (8 * i + j < p) := by
  have hbit : 7 - j < 8 := by omega
  unfold maskByte
  by_cases hlt : i < p / 8
  · have hin : 8 * i + j < p := by omega
    have hones : ∀ k < 8, (0xff : BitVec 8).getLsbD k = true := by decide
    rw [if_pos hlt, hones _ hbit, decide_eq_true hin]
  · rw [if_neg hlt]
    by_cases heq : i = p / 8
    · rw [if_pos heq, BitVec.getLsbD_not, hmask _ hbit, decide_eq_true hbit, Bool.true_and,
        ← decide_not]
      exact decide_eq_decide.mpr (by omega)
    · have hout : ¬ 8 * i + j < p := by omega
      rw [if_neg heq, decide_eq_false hout]
      exact BitVec.getLsbD_zero

/-- What the length is as an index, as a count of bits and as an `int`. -/
theorem prefix_parts {p : BitVec 32} (hp : p.toNat < 128) :
    ((p / 8).toNat = p.toNat / 8 ∧ (p % 8).toNat = p.toNat % 8) ∧
      p.toInt.tdiv 8 = (p.toNat / 8 : Nat) := by
  have hint : p.toInt = (p.toNat : Int) := by
    rw [BitVec.toInt_eq_toNat_cond, if_pos (by omega)]
  refine ⟨⟨BitVec.toNat_udiv, BitVec.toNat_umod⟩, ?_⟩
  rw [hint]
  exact (Int.ofNat_tdiv p.toNat 8).symm

/-- The mask of the byte that the prefix ends in. -/
theorem createMask_byte (wrapv : Bool) {p : BitVec 32} (hp : p.toNat < 128) :
    ∃ mask, CreateMask wrapv 8 (p % 8) = some mask ∧
      ∀ i < 8, mask.getLsbD i = decide (i < 8 - p.toNat % 8) := by
  have hbits := (prefix_parts hp).1.2
  have hcreate := @createMask_eq wrapv 8 (p % 8) (by decide) (by omega) (Or.inl (by omega))
  rwa [hbits] at hcreate

/-- In front of the cut all bits are of the prefix. -/
theorem maskByte_of_lt {p i : Nat} (mask : BitVec 8) (h : i < p / 8) :
    maskByte p mask i = 0xff := if_pos h

/-- At the cut the bits are the complement of the mask. -/
theorem maskByte_self (p : Nat) (mask : BitVec 8) : maskByte p mask (p / 8) = ~~~mask := by
  rw [maskByte, if_neg (Nat.lt_irrefl _), if_pos rfl]

/-- Behind the cut no bits are of the prefix. -/
theorem maskByte_of_gt {p i : Nat} (mask : BitVec 8) (h : p / 8 < i) : maskByte p mask i = 0 := by
  rw [maskByte, if_neg (by omega), if_neg (by omega)]

variable {wrapv : Bool} {a : IPv6Address} {p : BitVec 32} {mask : BitVec 8}

/-- The byte that the prefix ends in and the loop behind it, for both copies. -/
theorem update_behind (bytes : Bytes16) {q : Nat} (hq : q < 16) (f : BitVec 8 → BitVec 8)
    (value : BitVec 8) :
    ∃ filled, (updateByte bytes q f).bind (fill value (upTo ((q : Int) + 1) 16)) = some filled ∧
      ∀ (j : Nat) (_ : j < 16),
        filled[j] = if q < j then value else if q = j then f bytes[q] else bytes[j] := by
  obtain ⟨filled, hfill, hvalues⟩ := fill_eq value (upTo ((q : Int) + 1) 16)
    (fun i hi => by have hrange := mem_upTo.mp hi; omega) (bytes.set q (f bytes[q]))
  refine ⟨filled, ?_, fun j hj => ?_⟩
  · rw [updateByte_of_lt hq, Option.bind_some, hfill]
  · have hmem : (j : Int) ∈ upTo ((q : Int) + 1) 16 ↔ q < j := by
      rw [mem_upTo]
      omega
    rw [hvalues j hj, Vector.getElem_set]
    exact if_congr hmem rfl rfl

/-- The network address keeps the bits of the prefix. -/
theorem IPv6Address.networkAddress_eq (hp : p.toNat < 128)
    (hmask : CreateMask wrapv 8 (p % 8) = some mask) :
    ∃ bytes, a.networkAddress wrapv p = some (a.withBytes bytes) ∧
      ∀ i (_ : i < 16), bytes[i] = a.m_addr.u6_addr8[i] &&& maskByte p.toNat mask i := by
  obtain ⟨⟨hindex, -⟩, hint⟩ := prefix_parts hp
  have hlt : p.toNat / 8 < 16 := by omega
  obtain ⟨bytes, hfill, hbytes⟩ := update_behind a.m_addr.u6_addr8 hlt (· &&& ~~~mask) 0
  refine ⟨bytes, ?_, fun i hi => ?_⟩
  · simp only [networkAddress, hmask, hindex, hint, Option.bind_eq_bind, Option.bind_some]
    rw [← Option.bind_assoc]
    exact congrArg (Option.bind · _) hfill
  · rw [hbytes i hi]
    rcases Nat.lt_trichotomy i (p.toNat / 8) with hbefore | rfl | hbehind
    · rw [if_neg (by omega), if_neg (by omega), maskByte_of_lt mask hbefore]
      exact (BitVec.and_allOnes ..).symm
    · rw [if_neg (Nat.lt_irrefl _), if_pos rfl, maskByte_self]
    · rw [if_pos hbehind, maskByte_of_gt mask hbehind]
      exact BitVec.and_zero.symm

/-- The broadcast address sets the bits behind the prefix. -/
theorem IPv6Address.broadcastAddress_eq (hp : p.toNat < 128)
    (hmask : CreateMask wrapv 8 (p % 8) = some mask) :
    ∃ bytes, a.broadcastAddress wrapv p = some (a.withBytes bytes) ∧
      ∀ i (_ : i < 16), bytes[i] = a.m_addr.u6_addr8[i] ||| ~~~maskByte p.toNat mask i := by
  obtain ⟨⟨hindex, -⟩, hint⟩ := prefix_parts hp
  have hlt : p.toNat / 8 < 16 := by omega
  obtain ⟨bytes, hfill, hbytes⟩ := update_behind a.m_addr.u6_addr8 hlt (· ||| mask) 0xff
  refine ⟨bytes, ?_, fun i hi => ?_⟩
  · simp only [broadcastAddress, hmask, hindex, hint, Option.bind_eq_bind, Option.bind_some]
    rw [← Option.bind_assoc]
    exact congrArg (Option.bind · _) hfill
  · rw [hbytes i hi]
    rcases Nat.lt_trichotomy i (p.toNat / 8) with hbefore | rfl | hbehind
    · rw [if_neg (by omega), if_neg (by omega), maskByte_of_lt mask hbefore]
      exact BitVec.or_zero.symm
    · rw [if_neg (Nat.lt_irrefl _), if_pos rfl, maskByte_self, BitVec.not_not]
    · rw [if_pos hbehind, maskByte_of_gt mask hbehind]
      exact BitVec.or_allOnes.symm

/-- The subnet mask has the bits of the prefix. -/
theorem IPv6Address.subnetMask_eq (hp : p.toNat < 128)
    (hmask : CreateMask wrapv 8 (p % 8) = some mask) :
    ∃ bytes, a.subnetMask wrapv p = some (a.withBytes bytes) ∧
      ∀ i (_ : i < 16), bytes[i] = maskByte p.toNat mask i := by
  obtain ⟨⟨hindex, -⟩, hint⟩ := prefix_parts hp
  have hlt : p.toNat / 8 < 16 := by omega
  obtain ⟨cleared, hclear, hcleared⟩ := fill_eq 0 (downTo 15 (p.toNat / 8 : Nat))
    (fun i hi => by have hrange := mem_downTo.mp hi; omega)
    (a.m_addr.u6_addr8.set (p.toNat / 8) (~~~mask))
  obtain ⟨bytes, hfill, hbytes⟩ := fill_eq 0xff (upTo 0 (p.toNat / 8 : Nat))
    (fun i hi => by have hrange := mem_upTo.mp hi; omega) cleared
  refine ⟨bytes, ?_, fun i hi => ?_⟩
  · simp only [subnetMask, hmask, hindex, hint, updateByte_of_lt hlt, Option.bind_eq_bind,
      Option.bind_some, hclear, hfill]
    rfl
  · rw [hbytes i hi, hcleared i hi, Vector.getElem_set]
    simp only [mem_upTo, mem_downTo]
    rcases Nat.lt_trichotomy i (p.toNat / 8) with hbefore | rfl | hbehind
    · rw [if_pos (by omega), maskByte_of_lt mask hbefore]
    · rw [if_neg (by omega), if_neg (by omega), if_pos rfl, maskByte_self]
    · rw [if_neg (by omega), if_pos (by omega), maskByte_of_gt mask hbehind]

/-- Bytes that are put together with those of the mask keep to the prefix. -/
theorem ipv6PrefixLaw_of_bytes {p : Nat} {network broadcast bytes : Bytes16}
    (hmask : ∀ i < 8, mask.getLsbD i = decide (i < 8 - p % 8))
    (hnetwork : ∀ i (_ : i < 16), network[i] = a.m_addr.u6_addr8[i] &&& maskByte p mask i)
    (hbroadcast : ∀ i (_ : i < 16), broadcast[i] = a.m_addr.u6_addr8[i] ||| ~~~maskByte p mask i)
    (hbytes : ∀ i (_ : i < 16), bytes[i] = maskByte p mask i) :
    IPv6PrefixLaw a p (a.withBytes network) (a.withBytes broadcast) (a.withBytes bytes) := by
  have hbit : ∀ k < 128, (maskByte p mask (k / 8)).getLsbD (7 - k % 8) = decide (k < p) := by
    intro k _
    rw [maskByte_bits hmask (k / 8) (Nat.mod_lt k (by decide)), Nat.div_add_mod]
  exact
    { networkBits := by
        intro k hk
        show (network[k / 8]).getLsbD (7 - k % 8) = _
        rw [hnetwork _ (by omega), BitVec.getLsbD_and, hbit k hk]
        rfl
      broadcastBits := by
        intro k hk
        show (broadcast[k / 8]).getLsbD (7 - k % 8) = _
        have hwidth : 7 - k % 8 < 8 := by omega
        rw [hbroadcast _ (by omega), BitVec.getLsbD_or, BitVec.getLsbD_not, hbit k hk,
          decide_eq_true hwidth, Bool.true_and]
        rfl
      maskBits := by
        intro k hk
        show (bytes[k / 8]).getLsbD (7 - k % 8) = _
        rw [hbytes _ (by omega), hbit k hk]
      networkAnd := by
        intro i hi
        show network[i] = _ &&& bytes[i]
        rw [hnetwork i hi, hbytes i hi]
      broadcastOr := by
        intro i hi
        show broadcast[i] = _ ||| ~~~bytes[i]
        rw [hbroadcast i hi, hbytes i hi] }

/-- From 128 on the first access is behind the last byte. -/
theorem IPv6Address.subnetMask_eq_none (wrapv : Bool) (a : IPv6Address) (hp : 128 ≤ p.toNat) :
    a.subnetMask wrapv p = none := by
  have hindex : 16 ≤ (p / 8).toNat := by
    rw [BitVec.toNat_udiv]
    exact (Nat.le_div_iff_mul_le (by decide)).mpr hp
  unfold subnetMask
  cases CreateMask wrapv 8 (p % 8) with
  | none => rfl
  | some mask =>
      simp only [Option.bind_eq_bind, Option.bind_some, updateByte_of_ge hindex, Option.bind_none]

/-- **Which IPv6 prefixes are computed.**  For every address and every prefix length, the
three functions stay within the 16 bytes, change nothing else and keep to the prefix
exactly when the length is below 128. -/
theorem ipv6PrefixArithmetic_iff (wrapv : Bool) (a : IPv6Address) (p : BitVec 32) :
    IPv6PrefixArithmetic wrapv a p ↔ p.toNat < 128 := by
  constructor
  · rintro ⟨-, -, mask, -, -, hmask, -⟩
    by_contra hp
    rw [IPv6Address.subnetMask_eq_none wrapv a (Nat.not_lt.mp hp)] at hmask
    cases hmask
  · intro hp
    obtain ⟨mask, hcreate, hbits⟩ := createMask_byte wrapv hp
    obtain ⟨network, hnetwork, hnetworkBytes⟩ := IPv6Address.networkAddress_eq (a := a) hp hcreate
    obtain ⟨broadcast, hbroadcast, hbroadcastBytes⟩ :=
      IPv6Address.broadcastAddress_eq (a := a) hp hcreate
    obtain ⟨bytes, hmask, hbytes⟩ := IPv6Address.subnetMask_eq (a := a) hp hcreate
    exact ⟨network, broadcast, bytes, hnetwork, hbroadcast, hmask, fun _ =>
      ipv6PrefixLaw_of_bytes hbits hnetworkBytes hbroadcastBytes hbytes⟩

/-- The full length 128 reaches behind the last byte. -/
theorem full_prefix_out_of_bounds :
    ¬ ∀ (wrapv : Bool) (a : IPv6Address) (p : BitVec 32), IPv6PrefixArithmetic wrapv a p := by
  intro hall
  let m_addr : SockaddrIn6 :=
    { sin6_family := AF_INET6
      sin6_port := 0
      sin6_flowinfo := 0
      u6_addr8 := Vector.replicate 16 0
      sin6_scope_id := 0 }
  obtain ⟨-, -, mask, -, -, hmask, -⟩ := hall true ⟨m_addr⟩ 128
  rw [IPv6Address.subnetMask_eq_none true ⟨m_addr⟩ (by decide)] at hmask
  cases hmask

end Net

end Agent
