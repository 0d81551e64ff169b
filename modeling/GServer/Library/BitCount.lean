import Mathlib

/-!
# Counting set bits

Subtracting one flips the lowest set bit of a word and the bits below it, so
`x &&& (x - 1)` is the word without its lowest set bit.  A loop that clears one bit in
this way in every turn takes as many turns as the word has set bits.
-/

namespace BitCount

variable {n : Nat}

/-- The positions of the set bits. -/
def setBits (x : BitVec n) : Finset (Fin n) :=
  Finset.univ.filter fun i => x.getLsbD i.val = true

/-- The members are the places of the ones. -/
theorem mem_setBits {x : BitVec n} {i : Fin n} : i ∈ setBits x ↔ x.getLsbD i.val = true := by
  simp [setBits]

/-- Zero has no ones. -/
theorem setBits_zero : setBits (0 : BitVec n) = ∅ := by
  apply Finset.eq_empty_of_forall_notMem
  intro i hi
  simpa using mem_setBits.mp hi

/-- A number without its lowest set bit. -/
theorem testBit_and_pred {m : Nat} (hm : m ≠ 0) :
    ∃ k, m.testBit k = true ∧ ∀ i, (m &&& (m - 1)).testBit i = (m.testBit i && decide (i ≠ k)) := by
  obtain ⟨k, odd, ⟨half, hodd⟩, hsplit⟩ := Nat.exists_eq_two_pow_mul_odd hm
  have hpos : 0 < 2 ^ k := Nat.two_pow_pos k
  have hbits : ∀ i, m.testBit i = if i < k then false else odd.testBit (i - k) := by
    intro i
    rw [hsplit, ← Nat.add_zero (2 ^ k * odd), Nat.testBit_two_pow_mul_add odd hpos]
    simp
  have hpred : m - 1 = 2 ^ k * (2 * half) + (2 ^ k - 1) := by
    rw [hsplit, hodd, Nat.mul_add]
    omega
  have hpredBits : ∀ i, (m - 1).testBit i = if i < k then true else (2 * half).testBit (i - k) := by
    intro i
    rw [hpred, Nat.testBit_two_pow_mul_add _ (Nat.sub_lt hpos Nat.one_pos)]
    by_cases hi : i < k
    · simp [hi]
    · simp [hi]
  refine ⟨k, ?_, fun i => ?_⟩
  · rw [hbits k, if_neg (Nat.lt_irrefl k), Nat.sub_self, hodd]
    simp
  · rw [Nat.testBit_and, hbits i, hpredBits i]
    rcases Nat.lt_trichotomy i k with hlt | heq | hgt
    · simp [hlt]
    · subst heq
      simp
    · -- above the lowest set bit both numbers have the bits of `half`
      have hnot : ¬ i < k := by omega
      have hne : i ≠ k := by omega
      obtain ⟨j, hj⟩ : ∃ j, i - k = j + 1 := ⟨i - k - 1, by omega⟩
      have hhalf : (2 * half + 1) / 2 = half := by omega
      have hhalf' : 2 * half / 2 = half := by omega
      rw [if_neg hnot, if_neg hnot, hj, hodd, Nat.testBit_succ, Nat.testBit_succ, hhalf, hhalf']
      simp [hne]

/-- Clearing the lowest set bit leaves one set bit less. -/
theorem card_setBits_clearLowest {x : BitVec n} (hx : x ≠ 0) :
    (setBits (x &&& (x - 1))).card + 1 = (setBits x).card := by
  have hne : x.toNat ≠ 0 := fun h => hx (BitVec.eq_of_toNat_eq (by simpa using h))
  have hone : (1 : BitVec n).toNat = 1 := by
    rw [BitVec.ofNat_eq_ofNat, BitVec.toNat_ofNat]
    exact Nat.mod_eq_of_lt (Nat.lt_of_le_of_lt (Nat.one_le_iff_ne_zero.mpr hne) x.isLt)
  have hpred : (x - 1).toNat = x.toNat - 1 := by
    have hle : 1 ≤ x := by
      rw [BitVec.le_def, hone]
      omega
    rw [BitVec.toNat_sub_of_le hle, hone]
  obtain ⟨k, hk, hclear⟩ := testBit_and_pred hne
  have hlt : k < n := BitVec.lt_of_getLsbD (x := x) hk
  have herase : setBits (x &&& (x - 1)) = (setBits x).erase ⟨k, hlt⟩ := by
    ext i
    rw [Finset.mem_erase, mem_setBits, mem_setBits, BitVec.getLsbD, BitVec.toNat_and, hpred,
      hclear i.val]
    simp [BitVec.getLsbD, Fin.ext_iff, and_comm]
  have hmem : ⟨k, hlt⟩ ∈ setBits x := mem_setBits.mpr hk
  rw [herase, Finset.card_erase_add_one hmem]

end BitCount
