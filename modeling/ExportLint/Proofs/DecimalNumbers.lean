import ExportLint.Proofs.NearestDoubles

/-!
# The double nearest to a decimal

Powers of ten far outside the format are decided without being written out, and come to the same
double as the quotient would. So the double of a decimal is fixed by the value of the decimal, and
it is a number of the format.
-/
namespace ExportLint.Decimal

variable {n d r : Nat}

/-- Rounding moves a quotient by half at most. -/
theorem roundDiv_bounds (hd : 0 < d) :
    (roundDiv n d : ℚ) - 1 / 2 ≤ n / d ∧ (n : ℚ) / d ≤ roundDiv n d + 1 / 2 := by
  have hd' : (0 : ℚ) < d := by exact_mod_cast hd
  have hsplit := Nat.div_add_mod n d
  have hmod := Nat.mod_lt n hd
  have hround : 2 * (d * roundDiv n d) ≤ 2 * n + d ∧ 2 * n ≤ 2 * (d * roundDiv n d) + d := by
    have hnext : d * (n / d + 1) = d * (n / d) + d := Nat.mul_succ d (n / d)
    rw [roundDiv]
    by_cases hlow : 2 * (n % d) < d
    · rw [if_pos hlow]
      omega
    · rw [if_neg hlow]
      by_cases hhigh : d < 2 * (n % d)
      · rw [if_pos hhigh]
        omega
      · rw [if_neg hhigh]
        -- A tie goes to either neighbour.
        rcases Nat.mod_two_eq_zero_or_one (n / d) with heven | hodd
        · rw [heven, Nat.add_zero]
          omega
        · rw [hodd]
          omega
  have hlow : (2 * (d * roundDiv n d) : ℚ) ≤ 2 * n + d := by exact_mod_cast hround.1
  have hhigh : (2 * n : ℚ) ≤ 2 * (d * roundDiv n d) + d := by exact_mod_cast hround.2
  rw [le_div_iff₀ hd', div_le_iff₀ hd']
  constructor <;> linarith

/-- Rounding does not pass a whole number on the way down either. -/
theorem le_roundDiv (hd : 0 < d) (h : (r : ℚ) ≤ n / d) : r ≤ roundDiv n d := by
  have hle : r * d ≤ n := by
    rw [le_div_iff₀ (by exact_mod_cast hd)] at h
    exact_mod_cast h
  have hq : r ≤ n / d := (Nat.le_div_iff_mul_le hd).2 hle
  simp only [roundDiv]
  split
  · exact hq
  · split <;> omega

namespace Binary64

variable {q : ℚ} {num den digits : Nat} {e power : Int} {s : Bool}

/-- The numbers of the format in the one form that rounding gives them: zero has the least exponent,
and what is none is not among them. -/
def IsNumber : Binary64 → Prop
  | .nan => False
  | .infinite _ => True
  | .finite _ m e => (m = 0 ∧ e = -1074) ∨ IsDouble m e

theorem isNumber_bounded {m : Nat} (hm : m < 2 ^ 53) (hleast : -1074 ≤ e)
    (habove : e = -1074 ∨ 2 ^ 52 ≤ m) : (bounded s m e).IsNumber := by
  rw [bounded]
  split
  · trivial
  · rename_i hlarge
    rcases Nat.eq_zero_or_pos m with rfl | hpos
    · exact .inl ⟨rfl, habove.resolve_right (by norm_num)⟩
    · exact .inr ⟨hpos, hm, hleast, Int.not_lt.1 hlarge, habove⟩

/-- Rounding a quotient gives a number. -/
theorem isNumber_ofRatio (s : Bool) (num den : Nat) : (ofRatio s num den).IsNumber := by
  by_cases hzero : num = 0 ∨ den = 0
  · rw [ofRatio, if_pos hzero]
    exact .inl ⟨rfl, rfl⟩
  obtain ⟨hn, hd⟩ := not_or.1 hzero
  have hfits := fits_exponentOf hn hd
  rw [ofRatio_eq s hn hd hfits]
  generalize exponentOf num den = e at hfits
  have hpos : (0 : ℚ) < 2 ^ e := by positivity
  have hden : 0 < (scaleDown num den e).2 := scaleDown_snd_pos (Nat.pos_of_ne_zero hd) e
  have hle : roundDiv (scaleDown num den e).1 (scaleDown num den e).2 ≤ 2 ^ 53 := by
    apply roundDiv_le hden
    rw [scaleDown_eq, div_le_iff₀ hpos]
    exact_mod_cast hfits.below.le
  have hge : e = -1074 ∨ 2 ^ 52 ≤ roundDiv (scaleDown num den e).1 (scaleDown num den e).2 := by
    refine hfits.above.imp_right fun habove => le_roundDiv hden ?_
    rw [scaleDown_eq, le_div_iff₀ hpos]
    exact_mod_cast habove
  generalize roundDiv (scaleDown num den e).1 (scaleDown num den e).2 = m at hle hge
  rw [ofMantissa]
  split
  · rw [Nat.pow_eq]
    exact isNumber_bounded (by norm_num) (by have := hfits.least; omega) (.inr le_rfl)
  · rename_i hne
    exact isNumber_bounded (Nat.lt_of_le_of_ne hle hne) hfits.least hge

/-- A quotient beyond the largest number is infinite. -/
theorem ofRatio_of_large (s : Bool) (hd : den ≠ 0) (h : (2 : ℚ) ^ 1024 ≤ num / den) :
    ofRatio s num den = .infinite s := by
  have hn : num ≠ 0 := by
    rintro rfl
    rw [Nat.cast_zero, zero_div] at h
    exact absurd h (by norm_num)
  have hfits := fits_exponentOf hn hd
  have he : 971 < exponentOf num den := by
    by_contra hle
    have hpow : (2 : ℚ) ^ exponentOf num den ≤ 2 ^ (971 : Int) :=
      zpow_le_zpow_right₀ (by norm_num) (by omega)
    have hval : (2 : ℚ) ^ 1024 = 2 ^ 53 * 2 ^ (971 : Int) := by
      rw [← zpow_natCast, ← zpow_natCast, ← zpow_add₀ (by norm_num)]
      norm_num
    refine absurd hfits.below (not_lt.2 (le_trans ?_ h))
    rw [hval]
    exact mul_le_mul_of_nonneg_left hpow (by norm_num)
  rw [ofRatio_eq s hn hd hfits, ofMantissa]
  split
  · rw [bounded, if_pos (by omega)]
  · rw [bounded, if_pos he]

/-- A quotient below half the least number is zero. -/
theorem ofRatio_of_small (s : Bool) (hd : den ≠ 0)
    (h : (num : ℚ) / den < 1 / 2 * 2 ^ (-1074 : Int)) :
    ofRatio s num den = .finite s 0 (-1074) := by
  by_cases hn : num = 0
  · simp [ofRatio, hn]
  have hpos : (0 : ℚ) < 2 ^ (-1074 : Int) := by positivity
  have hfits : Fits ((num : ℚ) / den) (-1074) := ⟨le_rfl, by linarith, .inl rfl⟩
  have hround : roundDiv (scaleDown num den (-1074)).1 (scaleDown num den (-1074)).2 = 0 := by
    have hquot : (0 : ℚ) ≤ num / den := by positivity
    apply roundDiv_eq (scaleDown_snd_pos (Nat.pos_of_ne_zero hd) _)
    · rw [scaleDown_eq, lt_div_iff₀ hpos, Nat.cast_zero]
      linarith
    · rw [scaleDown_eq, div_lt_iff₀ hpos, Nat.cast_zero]
      linarith
  rw [ofRatio_eq s hn hd hfits, hround, ofMantissa_of_lt (by norm_num) (by norm_num)]

/-- Three binary digits are less than one decimal digit. -/
theorem two_pow_le_ten_pow {k n : Nat} (h : k ≤ 3 * n) : 2 ^ k ≤ 10 ^ n :=
  calc 2 ^ k ≤ 2 ^ (3 * n) := Nat.pow_le_pow_right (by omega) h
    _ = 8 ^ n := Nat.pow_mul 2 3 n
    _ ≤ 10 ^ n := Nat.pow_le_pow_left (by omega) n

theorem lt_ten_pow (n : Nat) : n < 10 ^ (n.log2 / 3 + 1) :=
  Nat.lt_log2_self.trans_le (two_pow_le_ten_pow (by omega))

theorem ofDecimal_zero (s : Bool) (power : Int) : ofDecimal s 0 power = .finite s 0 (-1074) := by
  unfold ofDecimal
  exact if_pos rfl

/-- The double of a decimal is that of any quotient with its value. -/
theorem ofDecimal_eq_ofRatio (s : Bool) (hd : den ≠ 0)
    (h : (digits : ℚ) * 10 ^ power = num / den) : ofDecimal s digits power = ofRatio s num den := by
  by_cases hzero : digits = 0
  · have hn : num = 0 := by
      rw [hzero, Nat.cast_zero, zero_mul, eq_comm, div_eq_zero_iff] at h
      rcases h with h | h
      · exact_mod_cast h
      · exact absurd (by exact_mod_cast h) hd
    rw [hzero, ofDecimal_zero]
    simp [ofRatio, hn]
  have hdigits : (1 : ℚ) ≤ digits := by exact_mod_cast Nat.one_le_iff_ne_zero.2 hzero
  have hpos : (0 : ℚ) < 10 ^ power := by positivity
  unfold ofDecimal
  dsimp only
  rw [if_neg hzero]
  split
  · rename_i hlarge
    refine (ofRatio_of_large s hd ?_).symm
    have hpow : (10 : ℚ) ^ (400 : Int) ≤ 10 ^ power := zpow_le_zpow_right₀ (by norm_num) hlarge.le
    have hval : (2 : ℚ) ^ 1024 ≤ 10 ^ (400 : Int) := by
      have hnat : 2 ^ 1024 ≤ 10 ^ 400 := two_pow_le_ten_pow (by omega)
      exact_mod_cast hnat
    calc (2 : ℚ) ^ 1024 ≤ 10 ^ power := hval.trans hpow
      _ ≤ digits * 10 ^ power := le_mul_of_one_le_left hpos.le hdigits
      _ = num / den := h
  · split
    · rename_i hsmall
      refine (ofRatio_of_small s hd ?_).symm
      have hlt : (digits : ℚ) < 10 ^ ((digits.log2 / 3 + 1 : Nat) : Int) := by
        rw [zpow_natCast]
        exact_mod_cast lt_ten_pow digits
      have hval : (10 : ℚ) ^ (-400 : Int) ≤ 1 / 2 * 2 ^ (-1074 : Int) := by
        have hnat : 2 ^ 1075 ≤ 10 ^ 400 := two_pow_le_ten_pow (by omega)
        have hcast : (2 : ℚ) ^ 1075 ≤ 10 ^ 400 := by exact_mod_cast hnat
        have hhalf : (1 : ℚ) / 2 * 2 ^ (-1074 : Int) = (2 ^ 1075)⁻¹ := by
          rw [← zpow_natCast, ← zpow_neg, one_div, ← zpow_neg_one, ← zpow_add₀ (by norm_num)]
          rfl
        rw [hhalf]
        exact inv_anti₀ (by positivity) hcast
      calc (num : ℚ) / den = digits * 10 ^ power := h.symm
        _ < 10 ^ ((digits.log2 / 3 + 1 : Nat) : Int) * 10 ^ power := by
          exact mul_lt_mul_of_pos_right hlt hpos
        _ = 10 ^ (((digits.log2 / 3 + 1 : Nat) : Int) + power) := (zpow_add₀ (by norm_num) _ _).symm
        _ ≤ 10 ^ (-400 : Int) := zpow_le_zpow_right₀ (by norm_num) (by push_cast; omega)
        _ ≤ 1 / 2 * 2 ^ (-1074 : Int) := hval
    · cases power with
      | ofNat k =>
        refine ofRatio_congr s one_ne_zero hd ?_
        rw [← h]
        simp
      | negSucc k =>
        refine ofRatio_congr s (Nat.pow_pos (by omega)).ne' hd ?_
        rw [← h, Nat.pow_eq, zpow_negSucc, div_eq_mul_inv, Nat.cast_pow, Nat.cast_ofNat]

/-- A decimal as a quotient. -/
theorem exists_ratio (digits : Nat) (power : Int) :
    ∃ num den : Nat, den ≠ 0 ∧ (digits : ℚ) * 10 ^ power = num / den := by
  have hd : 0 < (scaleUp digits 1 power).2 := scaleUp_snd_pos Nat.one_pos power
  refine ⟨(scaleUp digits 1 power).1, (scaleUp digits 1 power).2, hd.ne', ?_⟩
  rw [scaleUp_eq, Nat.cast_one, div_one]

/-- The double of a decimal is fixed by its value. -/
theorem ofDecimal_congr (s : Bool) {digits' : Nat} {power' : Int}
    (h : (digits : ℚ) * 10 ^ power = digits' * 10 ^ power') :
    ofDecimal s digits power = ofDecimal s digits' power' := by
  obtain ⟨num, den, hd, hratio⟩ := exists_ratio digits power
  rw [ofDecimal_eq_ofRatio s hd hratio, ofDecimal_eq_ofRatio s hd (h ▸ hratio)]

/-- What a decimal is read as is a number. -/
theorem isNumber_ofDecimal (s : Bool) (digits : Nat) (power : Int) :
    (ofDecimal s digits power).IsNumber := by
  obtain ⟨num, den, hd, hratio⟩ := exists_ratio digits power
  rw [ofDecimal_eq_ofRatio s hd hratio]
  exact isNumber_ofRatio s num den

end Binary64

end ExportLint.Decimal
