import GServer.Library.BitCount

/-!
# The bytes of a word in reverse

`byteswap` reverses the bytes of a word whose width is a multiple of eight and keeps
the order of the bits within each byte.  It is its own inverse, and it commutes with
the operations that work bit by bit and keeps the number of set bits.
-/

namespace ByteSwap

open BitCount

/-- Where the bit at `i` of a reversed word of `n` bits comes from. -/
def source (n i : Nat) : Nat :=
  (n / 8 - 1 - i / 8) * 8 + i % 8

/-- The word with its bytes reversed. -/
def byteswap {n : Nat} (x : BitVec n) : BitVec n :=
  BitVec.ofFnLE fun i => x.getLsbD (source n i)

/-- The bits come from within. -/
theorem source_lt {n i : Nat} (hn : n % 8 = 0) (hi : i < n) : source n i < n := by
  unfold source
  omega

/-- Swapping twice puts every bit back. -/
theorem source_source {n i : Nat} (hn : n % 8 = 0) (hi : i < n) :
    source n (source n i) = i := by
  unfold source
  omega

/-- Where a bit of the result comes from. -/
theorem getLsbD_byteswap {n i : Nat} (x : BitVec n) (hi : i < n) :
    (byteswap x).getLsbD i = x.getLsbD (source n i) := by
  rw [byteswap, BitVec.getLsbD_ofFnLE, dif_pos hi]

/-- Reversing twice changes nothing. -/
theorem byteswap_byteswap {n : Nat} (hn : n % 8 = 0) (x : BitVec n) :
    byteswap (byteswap x) = x := by
  apply BitVec.eq_of_getLsbD_eq
  intro i hi
  rw [getLsbD_byteswap _ hi, getLsbD_byteswap _ (source_lt hn hi), source_source hn hi]

/-- No two words are swapped into one. -/
theorem byteswap_injective {n : Nat} (hn : n % 8 = 0) {x y : BitVec n}
    (h : byteswap x = byteswap y) : x = y := by
  rw [← byteswap_byteswap hn x, h, byteswap_byteswap hn]

/-- Swapping the bytes goes through conjunction. -/
theorem byteswap_and {n : Nat} (x y : BitVec n) :
    byteswap (x &&& y) = byteswap x &&& byteswap y := by
  apply BitVec.eq_of_getLsbD_eq
  intro i hi
  rw [BitVec.getLsbD_and, getLsbD_byteswap _ hi, getLsbD_byteswap _ hi, getLsbD_byteswap _ hi,
    BitVec.getLsbD_and]

/-- Swapping the bytes goes through disjunction. -/
theorem byteswap_or {n : Nat} (x y : BitVec n) :
    byteswap (x ||| y) = byteswap x ||| byteswap y := by
  apply BitVec.eq_of_getLsbD_eq
  intro i hi
  rw [BitVec.getLsbD_or, getLsbD_byteswap _ hi, getLsbD_byteswap _ hi, getLsbD_byteswap _ hi,
    BitVec.getLsbD_or]

/-- Swapping the bytes goes through complement. -/
theorem byteswap_not {n : Nat} (hn : n % 8 = 0) (x : BitVec n) :
    byteswap (~~~x) = ~~~byteswap x := by
  apply BitVec.eq_of_getLsbD_eq
  intro i hi
  rw [BitVec.getLsbD_not, getLsbD_byteswap _ hi, getLsbD_byteswap _ hi, BitVec.getLsbD_not]
  simp [hi, source_lt hn hi]

/-- The low half of a reversed word is the reversed high half. -/
theorem setWidth_byteswap {n : Nat} (hn : n % 8 = 0) (x : BitVec (n + n)) :
    (byteswap x).setWidth n = byteswap (x.extractLsb' n n) := by
  apply BitVec.eq_of_getLsbD_eq
  intro i hi
  have hlt : source n i < n := source_lt hn hi
  have hsource : source (n + n) i = n + source n i := by
    unfold source
    omega
  rw [BitVec.getLsbD_setWidth, getLsbD_byteswap _ (by omega), getLsbD_byteswap _ hi,
    BitVec.getLsbD_extractLsb', hsource]
  simp [hi, hlt]

/-- Two bytes change places. -/
theorem byteswap_append (hi lo : BitVec 8) :
    byteswap (n := 16) (hi ++ lo) = lo ++ hi := by
  apply BitVec.eq_of_getLsbD_eq
  intro i hi
  rw [getLsbD_byteswap _ hi, BitVec.getLsbD_append, BitVec.getLsbD_append]
  interval_cases i <;> rfl

/-- Reversing moves the set bits and keeps their number. -/
theorem card_setBits_byteswap {n : Nat} (hn : n % 8 = 0) (x : BitVec n) :
    (setBits (byteswap x)).card = (setBits x).card := by
  let moved : Fin n → Fin n := fun i => ⟨source n i.val, source_lt hn i.isLt⟩
  have hmoved : ∀ i, moved (moved i) = i := fun i => Fin.ext (source_source hn i.isLt)
  have hbit : ∀ i : Fin n, (byteswap x).getLsbD i.val = x.getLsbD (moved i).val :=
    fun i => getLsbD_byteswap x i.isLt
  refine Finset.card_nbij' moved moved (fun i hi => ?_) (fun i hi => ?_) (fun i _ => hmoved i)
    fun i _ => hmoved i
  · exact mem_setBits.mpr ((hbit i).symm.trans (mem_setBits.mp hi))
  · refine mem_setBits.mpr ((hbit (moved i)).trans ?_)
    rw [hmoved]
    exact mem_setBits.mp hi

end ByteSwap
