import GServer.Address

/-!
# IPv4 prefixes

`CreateMask` shifts an `int` by a count that it computes in `size_t`, and subtracts one.
A shift by 32 or more has no meaning.  A shift by 31 gives the least `int`; what comes
one below it is defined only where overflow wraps, which is the parameter `wrapv`.

`Net.prefixArithmetic_iff` says for which prefix lengths the three functions of
`IPv4Address` are defined and keep to the prefix.
-/

namespace Agent

open ByteSwap BitCount

namespace Net

/-! ## Masks -/

/-- `1 << count`, as an `int`. -/
def shiftOne (count : BitVec 64) : Option (BitVec 32) :=
  if 32 ≤ count.toNat then none else some ((1 : BitVec 32) <<< count.toNat)

/-- `value - 1`, as an `int`. -/
def minusOne (wrapv : Bool) (value : BitVec 32) : Option (BitVec 32) :=
  if value = BitVec.intMin 32 ∧ wrapv = false then none else some (value - 1)

/-- `CreateMask` for an unsigned type of `w` bits. -/
def CreateMask (wrapv : Bool) (w : Nat) (bits : BitVec 32) : Option (BitVec w) := do
  let shifted ← shiftOne (BitVec.ofNat 64 w - bits.setWidth 64)
  let mask ← minusOne wrapv shifted
  return mask.signExtend w

/-- `CountBytes`. -/
def CountBytes {w : Nat} (value : BitVec w) : Nat :=
  if value = 0 then 0 else CountBytes (value &&& (value - 1)) + 1
termination_by (setBits value).card
decreasing_by
  rename_i hvalue
  have hcard := card_setBits_clearLowest hvalue
  omega

/-- `CountBytes` counts the set bits. -/
theorem countBytes_eq {w : Nat} (value : BitVec w) : CountBytes value = (setBits value).card := by
  induction value using CountBytes.induct with
  | case1 =>
      rw [CountBytes, if_pos rfl, setBits_zero, Finset.card_empty]
  | case2 value hvalue ih =>
      rw [CountBytes, if_neg hvalue, ih, card_setBits_clearLowest hvalue]

/-- A shift by less than the width is defined. -/
theorem shiftOne_of_lt {count : BitVec 64} {c : Nat} (hcount : count.toNat = c) (hc : c < 32) :
    shiftOne count = some ((1 : BitVec 32) <<< c) := by
  rw [shiftOne, hcount, if_neg (by omega)]

/-- A one that is shifted is a power of two. -/
theorem toNat_one_shiftLeft {c : Nat} (hc : c < 32) : ((1 : BitVec 32) <<< c).toNat = 2 ^ c := by
  have hlt : 2 ^ c < 2 ^ 32 := Nat.pow_lt_pow_right (by decide) hc
  rw [BitVec.toNat_shiftLeft, Nat.shiftLeft_eq]
  simpa using Nat.mod_eq_of_lt hlt

/-- The bits below the shifted one. -/
theorem getLsbD_one_shiftLeft_sub_one {c i : Nat} (hc : c < 32) :
    ((1 : BitVec 32) <<< c - 1).getLsbD i = decide (i < c) := by
  have hpos : 0 < 2 ^ c := Nat.two_pow_pos c
  have hvalue : ((1 : BitVec 32) <<< c - 1).toNat = 2 ^ c - 1 := by
    have hle : (1 : BitVec 32) ≤ (1 : BitVec 32) <<< c := by
      rw [BitVec.le_def, toNat_one_shiftLeft hc]
      exact hpos
    rw [BitVec.toNat_sub_of_le hle, toNat_one_shiftLeft hc]
    rfl
  rw [BitVec.getLsbD, hvalue, Nat.testBit_two_pow_sub_one]

/-- A one that is shifted is the least `int` exactly at the last place. -/
theorem one_shiftLeft_eq_intMin {c : Nat} (hc : c < 32) :
    (1 : BitVec 32) <<< c = BitVec.intMin 32 ↔ c = 31 := by
  interval_cases c <;> decide

/-- The count of `CreateMask`, which wraps where the prefix is longer than the type. -/
theorem toNat_count {w : Nat} (hw : w ≤ 32) (bits : BitVec 32) :
    (BitVec.ofNat 64 w - bits.setWidth 64).toNat =
      (18446744073709551616 - bits.toNat + w) % 18446744073709551616 := by
  have hbits : bits.toNat < 4294967296 := bits.isLt
  rw [BitVec.toNat_sub, BitVec.toNat_setWidth, BitVec.toNat_ofNat]
  have hw' : w % 2 ^ 64 = w := Nat.mod_eq_of_lt (by omega)
  have hbits' : bits.toNat % 2 ^ 64 = bits.toNat := Nat.mod_eq_of_lt (by omega)
  rw [hw', hbits']

/-- `CreateMask` is the shifted one less one. -/
theorem createMask_of_shift {w : Nat} {bits shifted : BitVec 32}
    (h : shiftOne (BitVec.ofNat 64 w - bits.setWidth 64) = some shifted) (wrapv : Bool) :
    CreateMask wrapv w bits = (minusOne wrapv shifted).map (BitVec.signExtend w) := by
  rw [CreateMask, h]
  cases hminus : minusOne wrapv shifted with
  | none => simp [hminus]
  | some mask => simp [hminus]

/-- The mask of the bits behind the prefix. -/
theorem createMask_eq {wrapv : Bool} {w : Nat} {bits : BitVec 32} (hw : w ≤ 32)
    (hbits : bits.toNat ≤ w)
    (hcount : w - bits.toNat < 31 ∨ w - bits.toNat = 31 ∧ wrapv = true) :
    ∃ mask, CreateMask wrapv w bits = some mask ∧
      ∀ i < w, mask.getLsbD i = decide (i < w - bits.toNat) := by
  have hc : w - bits.toNat < 32 := by omega
  have hnat : (BitVec.ofNat 64 w - bits.setWidth 64).toNat = w - bits.toNat := by
    rw [toNat_count hw]
    omega
  have hminus : minusOne wrapv ((1 : BitVec 32) <<< (w - bits.toNat)) =
      some ((1 : BitVec 32) <<< (w - bits.toNat) - 1) := by
    rw [minusOne, if_neg]
    rw [one_shiftLeft_eq_intMin hc]
    rintro ⟨heq, hwrapv⟩
    rcases hcount with hlt | ⟨-, htrue⟩
    · omega
    · rw [htrue] at hwrapv
      cases hwrapv
  refine ⟨((1 : BitVec 32) <<< (w - bits.toNat) - 1).signExtend w, ?_, fun i hi => ?_⟩
  · rw [createMask_of_shift (shiftOne_of_lt hnat hc), hminus, Option.map_some]
  · rw [BitVec.signExtend_eq_setWidth_of_le _ hw, BitVec.getLsbD_setWidth,
      getLsbD_one_shiftLeft_sub_one hc]
    simp [hi]

/-- No mask of 32 bits for the prefix 0, for a prefix above 32, nor without wrapping for
the prefix 1. -/
theorem createMask_eq_none {wrapv : Bool} {bits : BitVec 32}
    (h : ¬ ((2 ≤ bits.toNat ∨ bits.toNat = 1 ∧ wrapv = true) ∧ bits.toNat ≤ 32)) :
    CreateMask wrapv 32 bits = none := by
  have hlt : bits.toNat < 4294967296 := bits.isLt
  have hnat := toNat_count (w := 32) (Nat.le_refl 32) bits
  by_cases hone : bits.toNat = 1
  · have hwrapv : wrapv = false := by
      by_contra htrue
      exact h ⟨Or.inr ⟨hone, by simpa using htrue⟩, by omega⟩
    have hcount : (BitVec.ofNat 64 32 - bits.setWidth 64).toNat = 31 := by omega
    have hminus : minusOne wrapv ((1 : BitVec 32) <<< 31) = none := by
      rw [minusOne, if_pos ⟨(one_shiftLeft_eq_intMin (by decide)).mpr rfl, hwrapv⟩]
    rw [createMask_of_shift (shiftOne_of_lt hcount (by decide)), hminus, Option.map_none]
  · have hcount : 32 ≤ (BitVec.ofNat 64 32 - bits.setWidth 64).toNat := by omega
    have hshift : shiftOne (BitVec.ofNat 64 32 - bits.setWidth 64) = none := by
      rw [shiftOne, if_pos hcount]
    simp [CreateMask, hshift]

/-! ## The three functions -/

namespace IPv4Address

/-- `IPv4Address::broadcastAddress`: undefined, null or an address. -/
def broadcastAddress (wrapv : Bool) (a : IPv4Address) (prefix_len : BitVec 32) :
    Option (Option IPv4Address) :=
  if 32 < prefix_len.toNat then some none
  else (CreateMask wrapv 32 prefix_len).map fun mask =>
    some ⟨{ a.m_addr with s_addr := a.m_addr.s_addr ||| byteswapOnLittleEndian mask }⟩

/-- `IPv4Address::networkAddress`. -/
def networkAddress (wrapv : Bool) (a : IPv4Address) (prefix_len : BitVec 32) :
    Option (Option IPv4Address) :=
  if 32 < prefix_len.toNat then some none
  else (CreateMask wrapv 32 prefix_len).map fun mask =>
    some ⟨{ a.m_addr with s_addr := a.m_addr.s_addr &&& byteswapOnLittleEndian (~~~mask) }⟩

/-- `IPv4Address::subnetMask`, without a look at the length. -/
def subnetMask (wrapv : Bool) (_ : IPv4Address) (prefix_len : BitVec 32) :
    Option (Option IPv4Address) :=
  (CreateMask wrapv 32 prefix_len).map fun mask =>
    some ⟨{ sin_family := AF_INET, sin_port := 0, s_addr := ~~~byteswapOnLittleEndian mask }⟩

/-- The address as a number. -/
def host (a : IPv4Address) : BitVec 32 :=
  byteswapOnLittleEndian a.m_addr.s_addr

end IPv4Address

/-- Whether the bit at `i` of a word belongs to its first `p` bits. -/
def InPrefix (p i : Nat) : Prop :=
  32 - p ≤ i

instance (p i : Nat) : Decidable (InPrefix p i) :=
  inferInstanceAs (Decidable (_ ≤ _))

/-- The network address, the broadcast address and the mask of a prefix. -/
structure PrefixLaw (a : IPv4Address) (p : Nat) (network broadcast mask : IPv4Address) :
    Prop where
  networkBits : ∀ i < 32, network.host.getLsbD i = (a.host.getLsbD i && decide (InPrefix p i))
  broadcastBits : ∀ i < 32, broadcast.host.getLsbD i = (a.host.getLsbD i || !decide (InPrefix p i))
  maskBits : ∀ i < 32, mask.host.getLsbD i = decide (InPrefix p i)
  count : CountBytes mask.m_addr.s_addr = p
  networkAnd : network.m_addr.s_addr = a.m_addr.s_addr &&& mask.m_addr.s_addr
  broadcastOr : broadcast.m_addr.s_addr = a.m_addr.s_addr ||| ~~~mask.m_addr.s_addr
  networkRest : network.m_addr = { a.m_addr with s_addr := network.m_addr.s_addr }
  broadcastRest : broadcast.m_addr = { a.m_addr with s_addr := broadcast.m_addr.s_addr }

/-- The three functions are defined, return null above 32, and keep to the prefix up to
there. -/
structure PrefixArithmetic (wrapv : Bool) (a : IPv4Address) (p : BitVec 32) : Prop where
  null : 32 < p.toNat → a.networkAddress wrapv p = some none ∧
    a.broadcastAddress wrapv p = some none ∧ a.subnetMask wrapv p = some none
  given : p.toNat ≤ 32 → ∃ network broadcast mask,
    a.networkAddress wrapv p = some (some network) ∧
    a.broadcastAddress wrapv p = some (some broadcast) ∧
    a.subnetMask wrapv p = some (some mask) ∧ PrefixLaw a p.toNat network broadcast mask

theorem host_eq (a : IPv4Address) : a.host = byteswap a.m_addr.s_addr := rfl

/-- The bits behind the prefix are the low ones. -/
theorem decide_not_inPrefix (p i : Nat) : (!decide (InPrefix p i)) = decide (i < 32 - p) := by
  rw [← decide_not]
  exact decide_eq_decide.mpr Nat.not_le

/-- The bits of a prefix are as many as its length says. -/
theorem card_setBits_of_inPrefix {x : BitVec 32} {p : Nat} (hp : p ≤ 32)
    (hx : ∀ i < 32, x.getLsbD i = decide (InPrefix p i)) : (setBits x).card = p := by
  have hmem : ∀ i : Fin 32, i ∈ setBits x ↔ InPrefix p i.val := by
    intro i
    rw [mem_setBits, hx i.val i.isLt, decide_eq_true_iff]
  cases hp.eq_or_lt with
  | inl heq =>
      have hall : setBits x = Finset.univ := by
        ext i
        rw [hmem]
        simp [InPrefix, heq]
      rw [hall, Finset.card_univ, Fintype.card_fin, heq]
  | inr hlt =>
      cases p with
      | zero =>
          have hnone : setBits x = ∅ := by
            ext i
            rw [hmem]
            simp [InPrefix, i.isLt]
          rw [hnone, Finset.card_empty]
      | succ p =>
          have hfrom : setBits x = Finset.Ici (⟨32 - (p + 1), by omega⟩ : Fin 32) := by
            ext i
            rw [hmem, Finset.mem_Ici, Fin.le_def]
            rfl
          rw [hfrom, Fin.card_Ici]
          exact Nat.sub_sub_self hp

/-- What `CreateMask` returns makes the prefix law hold. -/
theorem prefixLaw_of_mask (a : IPv4Address) {p : Nat} (hp : p ≤ 32) {mask : BitVec 32}
    (hmask : ∀ i < 32, mask.getLsbD i = decide (i < 32 - p)) :
    PrefixLaw a p
      ⟨{ a.m_addr with s_addr := a.m_addr.s_addr &&& byteswapOnLittleEndian (~~~mask) }⟩
      ⟨{ a.m_addr with s_addr := a.m_addr.s_addr ||| byteswapOnLittleEndian mask }⟩
      ⟨{ sin_family := AF_INET, sin_port := 0, s_addr := ~~~byteswapOnLittleEndian mask }⟩ := by
  have hcomplement : ∀ i < 32, (~~~mask).getLsbD i = decide (InPrefix p i) := by
    intro i hi
    rw [BitVec.getLsbD_not, hmask i hi, ← decide_not_inPrefix, Bool.not_not]
    simp [hi]
  have hswapNot : byteswapOnLittleEndian (~~~mask) = ~~~byteswapOnLittleEndian mask :=
    byteswap_not (by decide) mask
  have hmaskHost : byteswap (~~~byteswapOnLittleEndian mask) = ~~~mask := by
    rw [← hswapNot]
    exact byteswap_byteswap (by decide) (~~~mask)
  exact
    { networkBits := by
        intro i hi
        rw [host_eq, byteswap_and, hswapNot, hmaskHost, BitVec.getLsbD_and, hcomplement i hi]
        rfl
      broadcastBits := by
        intro i hi
        have hback : byteswap (byteswapOnLittleEndian mask) = mask :=
          byteswap_byteswap (by decide) mask
        rw [host_eq, byteswap_or, hback, BitVec.getLsbD_or, hmask i hi, ← decide_not_inPrefix]
        rfl
      maskBits := by
        intro i hi
        rw [host_eq, hmaskHost, hcomplement i hi]
      count := by
        rw [countBytes_eq, ← card_setBits_byteswap (by decide), hmaskHost]
        exact card_setBits_of_inPrefix hp hcomplement
      networkAnd := by
        rw [hswapNot]
      broadcastOr := by
        rw [BitVec.not_not]
      networkRest := rfl
      broadcastRest := rfl }

/-- **Which prefixes are computed.**  For every address and every prefix length, the
three functions shift only as far as an `int` allows, return null above 32 and give the
network address, the broadcast address and the mask up to there exactly when the length
is between 2 and 32, or is 1 and overflow wraps. -/
theorem prefixArithmetic_iff (wrapv : Bool) (a : IPv4Address) (p : BitVec 32) :
    PrefixArithmetic wrapv a p ↔
      (2 ≤ p.toNat ∨ p.toNat = 1 ∧ wrapv = true) ∧ p.toNat ≤ 32 := by
  constructor
  · intro h
    by_contra hout
    have hnone : a.subnetMask wrapv p = none := by
      rw [IPv4Address.subnetMask, createMask_eq_none hout, Option.map_none]
    by_cases hp : p.toNat ≤ 32
    · obtain ⟨-, -, mask, -, -, hmask, -⟩ := h.given hp
      rw [hnone] at hmask
      cases hmask
    · have hnull := (h.null (by omega)).2.2
      rw [hnone] at hnull
      cases hnull
  · rintro ⟨hlow, hp⟩
    have hcount : 32 - p.toNat < 31 ∨ 32 - p.toNat = 31 ∧ wrapv = true := by
      rcases hlow with htwo | ⟨hone, hwrapv⟩
      · exact Or.inl (by omega)
      · exact Or.inr ⟨by omega, hwrapv⟩
    obtain ⟨mask, hcreate, hmask⟩ := createMask_eq (Nat.le_refl 32) hp hcount
    have hguard : ¬ 32 < p.toNat := by omega
    refine ⟨fun h => absurd h hguard, fun _ => ⟨_, _, _, ?_, ?_, ?_, prefixLaw_of_mask a hp hmask⟩⟩
    · rw [IPv4Address.networkAddress, if_neg hguard, hcreate, Option.map_some]
    · rw [IPv4Address.broadcastAddress, if_neg hguard, hcreate, Option.map_some]
    · rw [IPv4Address.subnetMask, hcreate, Option.map_some]

/-- The mask of the empty prefix needs a shift by 32. -/
theorem empty_prefix_shifts_by_width :
    ¬ ∀ (wrapv : Bool) (a : IPv4Address) (p : BitVec 32), PrefixArithmetic wrapv a p := by
  intro hall
  let a : IPv4Address := ⟨{ sin_family := AF_INET, sin_port := 0, s_addr := 0 }⟩
  obtain ⟨-, -, mask, -, -, hmask, -⟩ := (hall true a 0).given (by decide)
  have hnone : a.subnetMask true 0 = none := by
    rw [IPv4Address.subnetMask, createMask_eq_none (by decide), Option.map_none]
  rw [hnone] at hmask
  cases hmask

end Net

end Agent
