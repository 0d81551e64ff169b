import Mathlib.Data.Nat.Log
import Mathlib.Tactic.Ring

/-!
# Quotients in double precision

`ceilQuotient n d` is the result of `ceil(n * 1.0 / d)` for two numbers that are
themselves doubles: the quotient is rounded to 53 significant bits, ties to
even, and then rounded up.  `toDouble` is the conversion of an integer.  Below
`2 ^ 53` nothing is lost (`ceilQuotient_eq`).
-/

namespace Doubles

/-- `n / d` rounded to the nearest integer, ties to even. -/
def roundHalfEven (n d : Nat) : Nat :=
  if 2 * (n % d) < d then n / d
  else if d < 2 * (n % d) then n / d + 1
  else n / d + n / d % 2

/-- The double nearest to an integer. -/
def toDouble (n : Nat) : Nat :=
  if n < 2 ^ 53 then n
  else roundHalfEven n (2 ^ (Nat.log 2 n - 52)) * 2 ^ (Nat.log 2 n - 52)

/-- `ceil` of the double nearest to `n / d`.  A quotient below one rounds to a
positive number that is at most one. -/
def ceilQuotient (n d : Nat) : Nat :=
  if n < d then min n 1
  else
    let e := Nat.log 2 (n / d)
    if e ≤ 52 then
      (roundHalfEven (n * 2 ^ (52 - e)) d + (2 ^ (52 - e) - 1)) / 2 ^ (52 - e)
    else roundHalfEven n (d * 2 ^ (e - 52)) * 2 ^ (e - 52)

/-- Small numbers are exact. -/
theorem toDouble_of_lt {n : Nat} (h : n < 2 ^ 53) : toDouble n = n :=
  if_pos h

/-- Rounding `k * d + r` gives a number strictly above `k` when `r` is more than
half of `d`, and at most `k + 1`. -/
theorem roundHalfEven_bounds {n d k m : Nat} (hd : 0 < d) (hlow : 2 * (k * d) + d < 2 * n)
    (hhigh : n ≤ (k + m) * d) : k < roundHalfEven n d ∧ roundHalfEven n d ≤ k + m := by
  have hdm : d * (n / d) + n % d = n := Nat.div_add_mod n d
  have hmod : n % d < d := Nat.mod_lt n hd
  have hge : k ≤ n / d := (Nat.le_div_iff_mul_le hd).mpr (by omega)
  have hle : n / d ≤ k + m := Nat.div_le_of_le_mul (by rwa [Nat.mul_comm])
  have hlast : n / d = k + m → n % d = 0 := by
    intro heq
    have : d * (k + m) + n % d = n := heq ▸ hdm
    have : d * (k + m) = (k + m) * d := Nat.mul_comm _ _
    omega
  have hfirst : n / d = k → d < 2 * (n % d) := by
    intro heq
    have : d * k + n % d = n := heq ▸ hdm
    have : d * k = k * d := Nat.mul_comm _ _
    omega
  unfold roundHalfEven
  constructor
  · split
    · rename_i hr
      by_contra h
      have := hfirst (by omega)
      omega
    · split
      · omega
      · rename_i hr
        by_contra h
        have := hfirst (by omega)
        omega
  · by_cases hlt : n / d = k + m
    · have := hlast hlt
      rw [if_pos (by omega)]
      omega
    · split
      · omega
      · split
        · omega
        · have := Nat.mod_lt (n / d) (show 0 < 2 by decide)
          omega

/-- **No loss below `2 ^ 53`.**  The computed number is the quotient rounded up. -/
theorem ceilQuotient_eq {n d : Nat} (hd : 0 < d) (hn : n < 2 ^ 53) :
    ceilQuotient n d = (n + (d - 1)) / d := by
  unfold ceilQuotient
  by_cases hsmall : n < d
  · rw [if_pos hsmall]
    by_cases h0 : n = 0
    · subst h0
      rw [Nat.div_eq_of_lt (by omega)]
      rfl
    · have hone : (n + (d - 1)) / d = 1 :=
        Nat.div_eq_of_lt_le (by omega) (by omega)
      omega
  rw [if_neg hsmall]
  dsimp only
  have hq0 : n / d ≠ 0 := Nat.div_ne_zero_iff.mpr ⟨by omega, by omega⟩
  have hpow : 2 ^ Nat.log 2 (n / d) ≤ n / d := Nat.pow_log_le_self 2 hq0
  generalize Nat.log 2 (n / d) = e at hpow ⊢
  have hde : 2 ^ e * d ≤ n := (Nat.le_div_iff_mul_le hd).mp hpow
  have he : e < 53 := by
    by_contra h
    have : 2 ^ 53 ≤ 2 ^ e := Nat.pow_le_pow_right (by decide) (by omega)
    have := Nat.le_mul_of_pos_right (2 ^ e) hd
    omega
  rw [if_pos (by omega)]
  obtain ⟨s, hs⟩ : ∃ s, 52 - e = s := ⟨_, rfl⟩
  rw [hs]
  have hP : 0 < 2 ^ s := Nat.two_pow_pos s
  have hsplit : 2 ^ e * 2 ^ (s + 1) = 2 ^ 53 := by
    rw [← Nat.pow_add]
    congr 1
    omega
  -- the divisor is below twice the scale, which keeps a remainder visible
  have hdP : d < 2 * 2 ^ s := by
    by_contra h
    have h1 : 2 ^ e * 2 ^ (s + 1) ≤ 2 ^ e * d :=
      Nat.mul_le_mul_left _ (by rw [Nat.pow_succ]; omega)
    omega
  generalize 2 ^ s = P at hP hdP ⊢
  have hdm : d * (n / d) + n % d = n := Nat.div_add_mod n d
  have hmod : n % d < d := Nat.mod_lt n hd
  generalize n / d = q at hdm ⊢
  generalize n % d = r at hdm hmod ⊢
  have hnP : n * P = q * P * d + r * P := by
    rw [← hdm]
    ring
  by_cases hr : r = 0
  · subst hr
    have hround : roundHalfEven (n * P) d = q * P := by
      have hdiv : n * P / d = q * P := by
        rw [hnP, Nat.zero_mul, Nat.add_zero, Nat.mul_div_cancel _ hd]
      have hmod0 : n * P % d = 0 := by
        rw [hnP, Nat.zero_mul, Nat.add_zero, Nat.mul_mod_left]
      unfold roundHalfEven
      rw [hmod0, hdiv, if_pos (by omega)]
    have hleft : (q * P + (P - 1)) / P = q :=
      Nat.div_eq_of_lt_le (by omega) (by rw [Nat.succ_mul]; omega)
    have hright : (n + (d - 1)) / d = q := by
      refine Nat.div_eq_of_lt_le ?_ ?_
      · rw [Nat.mul_comm]
        omega
      · rw [Nat.succ_mul, Nat.mul_comm]
        omega
    rw [hround, hleft, hright]
  · have hrP : P ≤ r * P := Nat.le_mul_of_pos_left P (by omega)
    have hrd : r * P + P ≤ d * P := by
      have := Nat.mul_le_mul_right P (show r + 1 ≤ d by omega)
      rwa [Nat.succ_mul] at this
    have hbounds := roundHalfEven_bounds (n := n * P) (d := d) (k := q * P) (m := P) hd
      (by omega) (by rw [hnP, Nat.add_mul, Nat.mul_comm P d]; omega)
    have hleft : (roundHalfEven (n * P) d + (P - 1)) / P = q + 1 := by
      refine Nat.div_eq_of_lt_le ?_ ?_
      · rw [Nat.succ_mul]
        omega
      · rw [Nat.succ_mul, Nat.succ_mul]
        omega
    have hright : (n + (d - 1)) / d = q + 1 := by
      have hqd : d * q = q * d := Nat.mul_comm d q
      refine Nat.div_eq_of_lt_le ?_ ?_
      · rw [Nat.succ_mul]
        omega
      · rw [Nat.succ_mul, Nat.succ_mul]
        omega
    rw [hleft, hright]

/-! ## Quotients about one -/

/-- Rounding moves a quotient by at most one. -/
theorem roundHalfEven_near (n d : Nat) :
    n / d ≤ roundHalfEven n d ∧ roundHalfEven n d ≤ n / d + 1 := by
  have hmod := Nat.mod_lt (n / d) (show 0 < 2 by decide)
  unfold roundHalfEven
  constructor <;> split <;> try split
  all_goals omega

/-- An integer is changed by less than one part in `2 ^ 51`. -/
theorem toDouble_near (n : Nat) :
    2 ^ 52 * toDouble n ≤ (2 ^ 52 + 1) * n ∧ (2 ^ 52 - 1) * n ≤ 2 ^ 52 * toDouble n := by
  unfold toDouble
  by_cases hn : n < 2 ^ 53
  · rw [if_pos hn]
    omega
  rw [if_neg hn]
  have hlog : 2 ^ Nat.log 2 n ≤ n := Nat.pow_log_le_self 2 (by omega)
  have h52 : 52 ≤ Nat.log 2 n := Nat.le_log_of_pow_le (by decide) (by omega)
  have hsplit : 2 ^ (Nat.log 2 n - 52) * 2 ^ 52 = 2 ^ Nat.log 2 n := by
    rw [← Nat.pow_add, Nat.sub_add_cancel h52]
  have hP : 0 < 2 ^ (Nat.log 2 n - 52) := Nat.two_pow_pos _
  generalize 2 ^ (Nat.log 2 n - 52) = P at hsplit hP ⊢
  obtain ⟨hlow, hhigh⟩ := roundHalfEven_near n P
  have hdm := Nat.div_add_mod n P
  have hmod := Nat.mod_lt n hP
  have hlowP := Nat.mul_le_mul_right P hlow
  have hhighP := Nat.mul_le_mul_right P hhigh
  rw [Nat.add_mul] at hhighP
  rw [Nat.mul_comm P] at hdm
  omega

/-- The quotient of an integer by one that is not smaller is at most one, and the two
roundings do not take it to zero or beyond three. -/
theorem ceilQuotient_toDouble_near {n d : Nat} (hn : 1 ≤ n) (hd : n ≤ d) :
    1 ≤ ceilQuotient (toDouble n) (toDouble d) ∧
      ceilQuotient (toDouble n) (toDouble d) ≤ 3 := by
  have hx := toDouble_near n
  have hy := toDouble_near d
  generalize toDouble n = x at hx ⊢
  generalize toDouble d = y at hy ⊢
  unfold ceilQuotient
  by_cases hlt : x < y
  · rw [if_pos hlt]
    omega
  rw [if_neg hlt]
  have hone : x / y = 1 := Nat.div_eq_of_lt_le (by omega) (by omega)
  have hlog : Nat.log 2 1 = 0 := by decide
  dsimp only
  rw [hone, hlog, if_pos (by omega), Nat.sub_zero]
  obtain ⟨hlow, hhigh⟩ := roundHalfEven_near (x * 2 ^ 52) y
  have hge : 2 ^ 52 ≤ x * 2 ^ 52 / y :=
    (Nat.le_div_iff_mul_le (by omega)).mpr (by omega)
  have hle : x * 2 ^ 52 / y ≤ 2 ^ 53 :=
    Nat.div_le_of_le_mul (by omega)
  constructor
  · exact (Nat.le_div_iff_mul_le (by decide)).mpr (by omega)
  · exact Nat.le_of_lt_succ ((Nat.div_lt_iff_lt_mul (by decide)).mpr (by omega))

end Doubles
