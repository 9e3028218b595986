import ExportLint.Decimal.Shortest
import Mathlib.Algebra.Order.Field.Power
import Mathlib.Data.Rat.Cast.Order
import Mathlib.Tactic.FieldSimp
import Mathlib.Tactic.Linarith
import Mathlib.Tactic.Positivity
import Mathlib.Tactic.Ring

/-!
# The double nearest to a quotient

A quotient is rounded at the least exponent at which it has 53 binary digits before the point. That
exponent is fixed by the value of the quotient, and so is the double that comes of it. A quotient
that lies closer to a double than halfway to the next one on its side is rounded to it.
-/
namespace ExportLint.Decimal

section Scaling

variable {num den : Nat}

theorem scaleDown_snd_pos (hd : 0 < den) (k : Int) : 0 < (scaleDown num den k).2 := by
  cases k with
  | ofNat k => exact Nat.mul_pos hd (Nat.pow_pos (by omega))
  | negSucc k => exact hd

/-- A quotient that is scaled down is divided by a power of two. -/
theorem scaleDown_eq (num den : Nat) (k : Int) :
    ((scaleDown num den k).1 : ℚ) / (scaleDown num den k).2 = num / den / 2 ^ k := by
  cases k with
  | ofNat k =>
    simp only [scaleDown, Nat.pow_eq, Nat.cast_mul, Nat.cast_pow, Nat.cast_ofNat,
      Int.ofNat_eq_natCast, zpow_natCast]
    rw [div_div]
  | negSucc k =>
    simp only [scaleDown, Nat.pow_eq, Nat.cast_mul, Nat.cast_pow, Nat.cast_ofNat, zpow_negSucc,
      div_inv_eq_mul]
    ring

theorem scaleUp_snd_pos (hd : 0 < den) (k : Int) : 0 < (scaleUp num den k).2 := by
  cases k with
  | ofNat k => exact hd
  | negSucc k => exact Nat.mul_pos hd (Nat.pow_pos (by omega))

/-- A quotient that is scaled up is multiplied by a power of ten. -/
theorem scaleUp_eq (num den : Nat) (k : Int) :
    ((scaleUp num den k).1 : ℚ) / (scaleUp num den k).2 = num / den * 10 ^ k := by
  cases k with
  | ofNat k =>
    simp only [scaleUp, Nat.pow_eq, Nat.cast_mul, Nat.cast_pow, Nat.cast_ofNat,
      Int.ofNat_eq_natCast, zpow_natCast]
    ring
  | negSucc k =>
    simp only [scaleUp, Nat.pow_eq, Nat.cast_mul, Nat.cast_pow, Nat.cast_ofNat, zpow_negSucc]
    rw [← div_div, div_eq_mul_inv]

end Scaling

section Rounding

variable {n d : Nat}

/-- Rounding looks at the value of a quotient only. -/
theorem roundDiv_mul_left {k : Nat} (hk : 0 < k) : roundDiv (k * n) (k * d) = roundDiv n d := by
  have hlt {a b : Nat} : k * a < k * b ↔ a < b := Nat.mul_lt_mul_left hk
  simp only [roundDiv, Nat.mul_div_mul_left n d hk, Nat.mul_mod_mul_left, Nat.mul_left_comm 2 k,
    hlt]

theorem roundDiv_congr {n' d' : Nat} (hd : 0 < d) (hd' : 0 < d')
    (h : (n : ℚ) / d = n' / d') : roundDiv n d = roundDiv n' d' := by
  have hcross : n * d' = n' * d := by
    rw [div_eq_div_iff (by positivity) (by positivity)] at h
    exact_mod_cast h
  calc roundDiv n d = roundDiv (d' * n) (d' * d) := (roundDiv_mul_left hd').symm
    _ = roundDiv (d * n') (d * d') := by
      rw [Nat.mul_comm d' n, hcross, Nat.mul_comm n' d, Nat.mul_comm d' d]
    _ = roundDiv n' d' := roundDiv_mul_left hd

/-- A quotient less than half away from a whole number is rounded to it. -/
theorem roundDiv_eq {r : Nat} (hd : 0 < d) (hlow : (r : ℚ) - 1 / 2 < n / d)
    (hhigh : (n : ℚ) / d < r + 1 / 2) : roundDiv n d = r := by
  have hd' : (0 : ℚ) < d := by exact_mod_cast hd
  have hlow' : 2 * (r * d) < 2 * n + d := by
    rw [lt_div_iff₀ hd'] at hlow
    have : (2 * (r * d) : ℚ) < 2 * n + d := by linarith
    exact_mod_cast this
  have hhigh' : 2 * n < 2 * (r * d) + d := by
    rw [div_lt_iff₀ hd'] at hhigh
    have : (2 * n : ℚ) < 2 * (r * d) + d := by linarith
    exact_mod_cast this
  have hsplit := Nat.div_add_mod n d
  have hmod := Nat.mod_lt n hd
  rw [Nat.mul_comm] at hsplit
  simp only [roundDiv]
  by_cases hup : 2 * (n % d) < d
  · have hq : n / d = r := by
      apply Nat.le_antisymm
      · by_contra hlt
        have : (r + 1) * d ≤ n / d * d := Nat.mul_le_mul_right d (by omega)
        rw [Nat.add_one_mul] at this
        omega
      · by_contra hlt
        have : (n / d + 1) * d ≤ r * d := Nat.mul_le_mul_right d (by omega)
        rw [Nat.add_one_mul] at this
        omega
    rw [if_pos hup, hq]
  · have hq : n / d + 1 = r := by
      apply Nat.le_antisymm
      · by_contra hlt
        have : r * d ≤ n / d * d := Nat.mul_le_mul_right d (by omega)
        omega
      · by_contra hlt
        have : (n / d + 2) * d ≤ r * d := Nat.mul_le_mul_right d (by omega)
        rw [Nat.add_mul] at this
        omega
    have hne : d < 2 * (n % d) := by
      have : r * d = n / d * d + d := by rw [← hq, Nat.add_one_mul]
      omega
    rw [if_neg hup, if_pos hne, hq]

/-- Rounding does not pass a whole number. -/
theorem roundDiv_le {r : Nat} (hd : 0 < d) (h : (n : ℚ) / d ≤ r) : roundDiv n d ≤ r := by
  have hle : n ≤ r * d := by
    rw [div_le_iff₀ (by exact_mod_cast hd)] at h
    exact_mod_cast h
  have hq : n / d ≤ r := Nat.div_le_of_le_mul (by rwa [Nat.mul_comm] at hle)
  rcases Nat.lt_or_ge (n / d) r with hlt | hge
  · simp only [roundDiv]
    split
    · omega
    · split <;> omega
  · have hmod : n % d = 0 := by
      have hsplit := Nat.div_add_mod n d
      have heq : n / d = r := by omega
      rw [heq, Nat.mul_comm] at hsplit
      omega
    simp only [roundDiv, hmod]
    rw [if_pos (by omega)]
    exact hq

end Rounding

namespace Binary64

variable {q : ℚ} {num den : Nat} {e : Int}

/-- The exponent at which a quotient is rounded. -/
structure Fits (q : ℚ) (e : Int) : Prop where
  least : -1074 ≤ e
  below : q < 2 ^ 53 * 2 ^ e
  above : e = -1074 ∨ 2 ^ 52 * 2 ^ e ≤ q

theorem two_zpow_succ (e : Int) : (2 : ℚ) ^ (e + 1) = 2 * 2 ^ e := by
  rw [zpow_add_one₀ (by norm_num), mul_comm]

theorem Fits.le {f : Int} (h : Fits q e) (h' : Fits q f) : e ≤ f := by
  by_contra hlt
  rcases h.above with he | habove
  · have := h'.least
    omega
  · have hstep : (2 : ℚ) * 2 ^ f ≤ 2 ^ e := by
      rw [← two_zpow_succ]
      exact zpow_le_zpow_right₀ (by norm_num) (by omega)
    have hbelow := h'.below
    linarith

/-- A quotient has one exponent. -/
theorem Fits.unique {f : Int} (h : Fits q e) (h' : Fits q f) : e = f :=
  Int.le_antisymm (h.le h') (h'.le h)

theorem log2_bounds {n : Nat} (hn : n ≠ 0) : (2 : ℚ) ^ (n.log2 : Int) ≤ n ∧
    (n : ℚ) < 2 * 2 ^ (n.log2 : Int) := by
  have hlow := Nat.log2_self_le hn
  have hhigh := Nat.lt_log2_self (n := n)
  rw [Nat.pow_succ] at hhigh
  rw [zpow_natCast]
  constructor
  · exact_mod_cast hlow
  · rw [mul_comm]
    exact_mod_cast hhigh

/-- A quotient lies within a factor of two of the power given by the sizes of its parts. -/
theorem quotient_bounds (hn : num ≠ 0) (hd : den ≠ 0) :
    (2 : ℚ) ^ ((num.log2 : Int) - den.log2) < 2 * (num / den) ∧
      (num : ℚ) / den < 2 * 2 ^ ((num.log2 : Int) - den.log2) := by
  obtain ⟨hn1, hn2⟩ := log2_bounds hn
  obtain ⟨hd1, hd2⟩ := log2_bounds hd
  have hpos : (0 : ℚ) < 2 ^ (den.log2 : Int) := by positivity
  have hpos' : (0 : ℚ) < 2 ^ (num.log2 : Int) := by positivity
  have hden : (0 : ℚ) < den := by linarith
  rw [zpow_sub₀ (by norm_num)]
  constructor
  · rw [← mul_div_assoc, div_lt_div_iff₀ hpos hden]
    nlinarith
  · rw [← mul_div_assoc, div_lt_div_iff₀ hden hpos]
    nlinarith

theorem fits_iff (hd : den ≠ 0) (e : Int) :
    (scaleDown num den e).1 < (scaleDown num den e).2 * Nat.pow 2 53 ↔
      (num : ℚ) / den < 2 ^ 53 * 2 ^ e := by
  have hpos : (0 : ℚ) < (scaleDown num den e).2 := by
    exact_mod_cast scaleDown_snd_pos (Nat.pos_of_ne_zero hd) e
  have hscale := scaleDown_eq num den e
  rw [div_eq_iff hpos.ne'] at hscale
  have hcast : ((scaleDown num den e).1 < (scaleDown num den e).2 * Nat.pow 2 53) ↔
      ((scaleDown num den e).1 : ℚ) < (scaleDown num den e).2 * 2 ^ 53 := by
    rw [Nat.pow_eq]
    exact_mod_cast Iff.rfl
  rw [hcast, hscale, mul_comm, mul_lt_mul_iff_right₀ hpos, div_lt_iff₀ (by positivity)]

theorem fits_exponentOf (hn : num ≠ 0) (hd : den ≠ 0) :
    Fits ((num : ℚ) / den) (exponentOf num den) := by
  obtain ⟨hlow, hhigh⟩ := quotient_bounds hn hd
  -- The guess, or the exponent after it, is the least one that leaves 53 digits.
  obtain ⟨e, he, hbelow, habove⟩ : ∃ e, exponentOf num den = max e (-1074) ∧
      (num : ℚ) / den < 2 ^ 53 * 2 ^ e ∧ 2 ^ 52 * 2 ^ e ≤ (num : ℚ) / den := by
    have hstep := two_zpow_succ ((num.log2 : Int) - den.log2 - 53)
    have hpow : (2 : ℚ) ^ ((num.log2 : Int) - den.log2) =
        2 ^ 53 * 2 ^ ((num.log2 : Int) - den.log2 - 53) := by
      rw [show (2 : ℚ) ^ 53 = 2 ^ (53 : Int) by norm_num, ← zpow_add₀ (by norm_num)]
      congr 1
      omega
    rw [hpow] at hlow hhigh
    by_cases hfits : (num : ℚ) / den < 2 ^ 53 * 2 ^ ((num.log2 : Int) - den.log2 - 53)
    · refine ⟨_, ?_, hfits, by linarith⟩
      simp only [exponentOf, fits_iff hd, hfits, decide_true, if_true]
    · refine ⟨(num.log2 : Int) - den.log2 - 53 + 1, ?_, ?_, ?_⟩
      · have hnext : (num : ℚ) / den < 2 ^ 53 * 2 ^ ((num.log2 : Int) - den.log2 - 53 + 1) := by
          rw [hstep]
          linarith
        simp only [exponentOf, fits_iff hd, hfits, hnext, decide_true, decide_false, if_true,
          Bool.false_eq_true, if_false]
      · rw [hstep]
        linarith
      · rw [hstep]
        linarith
  rw [he]
  rcases le_total e (-1074) with hle | hle
  · rw [max_eq_right hle]
    refine ⟨le_refl _, lt_of_lt_of_le hbelow ?_, .inl rfl⟩
    exact mul_le_mul_of_nonneg_left (zpow_le_zpow_right₀ (by norm_num) hle) (by norm_num)
  · rw [max_eq_left hle]
    exact ⟨hle, hbelow, .inr habove⟩

/-- A quotient is rounded at its exponent. -/
theorem ofRatio_eq (s : Bool) (hn : num ≠ 0) (hd : den ≠ 0) (h : Fits ((num : ℚ) / den) e) :
    ofRatio s num den =
      ofMantissa s (roundDiv (scaleDown num den e).1 (scaleDown num den e).2) e := by
  obtain rfl := (fits_exponentOf hn hd).unique h
  exact if_neg (by simp [hn, hd])

/-- The double of a quotient is fixed by its value. -/
theorem ofRatio_congr (s : Bool) {num' den' : Nat} (hd : den ≠ 0) (hd' : den' ≠ 0)
    (h : (num : ℚ) / den = num' / den') : ofRatio s num den = ofRatio s num' den' := by
  by_cases hn : num = 0
  · have hn' : num' = 0 := by
      rw [hn, Nat.cast_zero, zero_div, eq_comm, div_eq_zero_iff] at h
      rcases h with h | h
      · exact_mod_cast h
      · exact absurd (by exact_mod_cast h) hd'
    simp [ofRatio, hn, hn']
  · have hn' : num' ≠ 0 := by
      rintro rfl
      rw [Nat.cast_zero, zero_div, div_eq_zero_iff] at h
      rcases h with h | h
      · exact hn (by exact_mod_cast h)
      · exact hd (by exact_mod_cast h)
    have hfits := fits_exponentOf hn hd
    rw [ofRatio_eq s hn hd hfits, ofRatio_eq s hn' hd' (h ▸ hfits)]
    congr 1
    refine roundDiv_congr (scaleDown_snd_pos (Nat.pos_of_ne_zero hd) _)
      (scaleDown_snd_pos (Nat.pos_of_ne_zero hd') _) ?_
    rw [scaleDown_eq, scaleDown_eq, h]

/-- A positive number of the format: its mantissa has 53 digits, or its exponent is the least. -/
structure IsDouble (m : Nat) (e : Int) : Prop where
  pos : 0 < m
  below : m < 2 ^ 53
  least : -1074 ≤ e
  largest : e ≤ 971
  above : e = -1074 ∨ 2 ^ 52 ≤ m

theorem ofMantissa_of_lt {s : Bool} {m : Nat} (h : m < 2 ^ 53) (he : e ≤ 971) :
    ofMantissa s m e = .finite s m e := by
  have hne : m ≠ Nat.pow 2 53 := Nat.ne_of_lt h
  rw [ofMantissa, if_neg hne, bounded, if_neg (Int.not_lt.2 he)]

/-- The next double after those of an exponent is the first of the next one. -/
theorem ofMantissa_top {s : Bool} (he : e ≤ 970) :
    ofMantissa s (2 ^ 53) e = .finite s (2 ^ 52) (e + 1) := by
  have hle : ¬971 < e + 1 := by omega
  rw [ofMantissa, if_pos Nat.pow_eq.symm, bounded, if_neg hle, Nat.pow_eq]

/-- A quotient that is closer to a double than halfway to its neighbours is rounded to it. Below a
power of two the neighbour is only half as far away. -/
theorem ofRatio_of_near (s : Bool) {m : Nat} (h : IsDouble m e) (hd : den ≠ 0)
    (hlow : ((m : ℚ) - 1 / 2) * 2 ^ e < num / den) (hhigh : (num : ℚ) / den < (m + 1 / 2) * 2 ^ e)
    (hmid : m = 2 ^ 52 → ((m : ℚ) - 1 / 4) * 2 ^ e < num / den) :
    ofRatio s num den = .finite s m e := by
  have hpos : (0 : ℚ) < 2 ^ e := by positivity
  have hm1 : (1 : ℚ) ≤ m := by exact_mod_cast h.pos
  have hm53 : (m : ℚ) + 1 ≤ 2 ^ 53 := by exact_mod_cast Nat.succ_le_of_lt h.below
  have hn : num ≠ 0 := by
    rintro rfl
    rw [Nat.cast_zero, zero_div] at hlow
    nlinarith
  by_cases habove : e = -1074 ∨ (2 : ℚ) ^ 52 * 2 ^ e ≤ num / den
  · have hfits : Fits ((num : ℚ) / den) e := ⟨h.least, by nlinarith, habove⟩
    have hround : roundDiv (scaleDown num den e).1 (scaleDown num den e).2 = m := by
      apply roundDiv_eq (scaleDown_snd_pos (Nat.pos_of_ne_zero hd) e)
      · rwa [scaleDown_eq, lt_div_iff₀ hpos]
      · rwa [scaleDown_eq, div_lt_iff₀ hpos]
    rw [ofRatio_eq s hn hd hfits, hround, ofMantissa_of_lt h.below h.largest]
  · -- Just below a power of two the exponent is one less, and rounding comes back to the power.
    obtain ⟨hne, hbelow⟩ := not_or.1 habove
    rw [not_le] at hbelow
    have hm : m = 2 ^ 52 := by
      have hm52 := h.above.resolve_left hne
      by_contra hne'
      have : (2 : ℚ) ^ 52 + 1 ≤ m := by exact_mod_cast Nat.lt_of_le_of_ne hm52 (Ne.symm hne')
      nlinarith
    have hmid := hmid hm
    have hcast : (m : ℚ) = 2 ^ 52 := by exact_mod_cast hm
    rw [hcast] at hmid
    have hstep := two_zpow_succ (e - 1)
    rw [Int.sub_add_cancel] at hstep
    rw [hstep] at hmid hbelow
    have hpos' : (0 : ℚ) < 2 ^ (e - 1) := by positivity
    have hfits : Fits ((num : ℚ) / den) (e - 1) := by
      refine ⟨?_, by linarith, .inr (by linarith)⟩
      have := h.least
      omega
    have hround : roundDiv (scaleDown num den (e - 1)).1 (scaleDown num den (e - 1)).2 = 2 ^ 53 := by
      apply roundDiv_eq (scaleDown_snd_pos (Nat.pos_of_ne_zero hd) _)
      · rw [scaleDown_eq, lt_div_iff₀ hpos']
        push_cast
        linarith
      · rw [scaleDown_eq, div_lt_iff₀ hpos']
        push_cast
        linarith
    rw [ofRatio_eq s hn hd hfits, hround, ofMantissa_top (by have := h.largest; omega), hm,
      Int.sub_add_cancel]

/-- The value of a finite number. -/
def value? : Binary64 → Option ℚ
  | .finite s m e => some ((if s then -1 else 1) * m * 2 ^ e)
  | .nan | .infinite _ => none

theorem value?_ofMantissa (s : Bool) (m : Nat) (he : e ≤ 970) :
    (ofMantissa s m e).value? = some ((if s then -1 else 1) * (m : ℚ) * 2 ^ e) := by
  by_cases hm : m = Nat.pow 2 53
  · have hle : ¬971 < e + 1 := by omega
    rw [ofMantissa, if_pos hm, bounded, if_neg hle, hm, value?, two_zpow_succ, Nat.pow_eq,
      Nat.pow_eq, Nat.cast_pow, Nat.cast_pow]
    ring_nf
  · rw [ofMantissa, if_neg hm, bounded, if_neg (by omega), value?]

/-- Rounding does not leave the interval from zero to one. -/
theorem exists_value?_ofRatio (hd : den ≠ 0) (h : num ≤ den) :
    ∃ q, (ofRatio false num den).value? = some q ∧ 0 ≤ q ∧ q ≤ 1 := by
  by_cases hn : num = 0
  · exact ⟨0, by simp [ofRatio, hn, value?], le_refl 0, zero_le_one⟩
  have hfits := fits_exponentOf hn hd
  generalize exponentOf num den = e at hfits
  have hone : (num : ℚ) / den ≤ 1 := by
    rw [div_le_one (by positivity)]
    exact_mod_cast h
  have he : e ≤ -52 := by
    rcases hfits.above with he | habove
    · omega
    · by_contra hlt
      have hpow : (2 : ℚ) ^ (-51 : Int) ≤ 2 ^ e := zpow_le_zpow_right₀ (by norm_num) (by omega)
      have hval : (2 : ℚ) ^ 52 * 2 ^ (-51 : Int) = 2 := by norm_num [zpow_neg]
      linarith
  obtain ⟨k, rfl⟩ : ∃ k : Nat, e = -k := ⟨(-e).toNat, by omega⟩
  have hround : roundDiv (scaleDown num den (-k)).1 (scaleDown num den (-k)).2 ≤ 2 ^ k := by
    apply roundDiv_le (scaleDown_snd_pos (Nat.pos_of_ne_zero hd) _)
    rw [scaleDown_eq, zpow_neg, zpow_natCast, div_inv_eq_mul, Nat.cast_pow, Nat.cast_ofNat]
    exact mul_le_of_le_one_left (by positivity) hone
  rw [ofRatio_eq false hn hd hfits, value?_ofMantissa _ _ (by omega)]
  generalize roundDiv (scaleDown num den (-k)).1 (scaleDown num den (-k)).2 = r at hround
  rw [if_neg Bool.false_ne_true, one_mul, zpow_neg, zpow_natCast, ← div_eq_mul_inv]
  refine ⟨_, rfl, by positivity, ?_⟩
  rw [div_le_one (by positivity)]
  exact_mod_cast hround

end Binary64

end ExportLint.Decimal
