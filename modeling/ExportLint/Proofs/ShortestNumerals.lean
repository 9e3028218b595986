import ExportLint.Proofs.DecimalNumbers

/-!
# The shortest numeral reads back

Seventeen digits are enough for any number: the nearest decimal with as many lies closer to the
number than halfway to the next one. So one of the lengths that are tried is found, and what is found
reads back as the number.
-/
namespace ExportLint.Decimal

variable {num den m : Nat} {e : Int}

section Place

/-- Powers of ten are compared with powers of two through one pair of them. -/
theorem ten_zpow_le_of_pair {c d : Nat} {a b : Int} (hc : c ≠ 0)
    (h : ((10 : ℚ) ^ c) ^ a ≤ (2 ^ d) ^ a) (hab : d * a ≤ c * b) : (10 : ℚ) ^ a ≤ 2 ^ b := by
  rw [← pow_le_pow_iff_left₀ (by positivity) (by positivity) hc]
  calc ((10 : ℚ) ^ a) ^ c = ((10 : ℚ) ^ c) ^ a := by
        rw [← zpow_natCast, ← zpow_natCast, ← zpow_mul, ← zpow_mul, mul_comm]
    _ ≤ (2 ^ d) ^ a := h
    _ = 2 ^ (d * a) := by rw [← zpow_natCast, ← zpow_mul]
    _ ≤ 2 ^ (c * b) := zpow_le_zpow_right₀ (by norm_num) hab
    _ = (2 ^ b) ^ c := by rw [← zpow_natCast, ← zpow_mul, mul_comm]

/-- Ten digits to the base two are more than three to the base ten, and 93 are less than 28. -/
theorem ten_zpow_le_two_zpow {a b : Int} (hpos : 10 * a ≤ 3 * b) (hneg : 93 * a ≤ 28 * b) :
    (10 : ℚ) ^ a ≤ 2 ^ b := by
  rcases le_total 0 a with ha | ha
  · exact ten_zpow_le_of_pair (by norm_num)
      (zpow_le_zpow_left₀ ha (by norm_num) (by norm_num : (10 : ℚ) ^ 3 ≤ 2 ^ 10)) hpos
  · refine ten_zpow_le_of_pair (by norm_num) ?_ hneg
    obtain ⟨k, rfl⟩ : ∃ k : Nat, a = -k := ⟨(-a).toNat, by omega⟩
    rw [zpow_neg, zpow_neg, zpow_natCast, zpow_natCast]
    apply inv_anti₀ (by positivity)
    exact pow_le_pow_left₀ (by norm_num) (by norm_num) k

theorem reaches_iff (hd : den ≠ 0) (p : Int) :
    (scaleUp num den (-p)).2 ≤ (scaleUp num den (-p)).1 ↔ (10 : ℚ) ^ p ≤ num / den := by
  have hpos : (0 : ℚ) < (scaleUp num den (-p)).2 := by
    exact_mod_cast scaleUp_snd_pos (Nat.pos_of_ne_zero hd) (-p)
  have hscale := scaleUp_eq num den (-p)
  rw [zpow_neg, ← div_eq_mul_inv] at hscale
  rw [← one_le_div (b := (10 : ℚ) ^ p) (by positivity), ← hscale, one_le_div hpos]
  exact_mod_cast Iff.rfl

/-- The leading digit of a quotient is not placed too high. -/
theorem ten_zpow_leadingPlace_le (hn : num ≠ 0) (hd : den ≠ 0)
    (hlow : (2 : ℚ) ^ (-1100 : Int) ≤ num / den) (hhigh : (num : ℚ) / den ≤ 2 ^ (1100 : Int)) :
    (10 : ℚ) ^ (leadingPlace num den - 1) ≤ num / den := by
  obtain ⟨hbelow, habove⟩ := Binary64.quotient_bounds hn hd
  generalize hk : (num.log2 : Int) - den.log2 = k at hbelow habove
  rw [leadingPlace, hk]
  dsimp only
  simp only [decide_eq_true_eq, reaches_iff hd]
  split
  · rename_i h
    rwa [show k * 30103 / 100000 + 2 - 1 = k * 30103 / 100000 + 1 by omega]
  · split
    · rename_i h
      rwa [Int.add_sub_cancel]
    · split
      · assumption
      · -- The guess is at most two places too high.
        have hk1 : k < 1100 + 1 := by
          rw [← zpow_lt_zpow_iff_right₀ (by norm_num : (1 : ℚ) < 2), Binary64.two_zpow_succ]
          linarith
        have hk2 : -1100 < k + 1 := by
          rw [← zpow_lt_zpow_iff_right₀ (by norm_num : (1 : ℚ) < 2), Binary64.two_zpow_succ]
          linarith
        have hpow : (10 : ℚ) ^ (k * 30103 / 100000 - 1 - 1) ≤ 2 ^ (k - 1) :=
          ten_zpow_le_two_zpow (by omega) (by omega)
        have hstep := Binary64.two_zpow_succ (k - 1)
        rw [Int.sub_add_cancel] at hstep
        linarith

end Place

namespace Numeral

open Binary64 (IsDouble ratio ofDecimal)

/-- The value of a number, from its ratio. -/
theorem ratio_eq (m : Nat) (e : Int) : ((ratio m e).1 : ℚ) / (ratio m e).2 = m * 2 ^ e := by
  rw [ratio, scaleDown_eq, Nat.cast_one, div_one, zpow_neg, div_inv_eq_mul]

theorem ratio_snd_pos (m : Nat) (e : Int) : 0 < (ratio m e).2 := scaleDown_snd_pos Nat.one_pos _

theorem readsAs_iff {d : Numeral} :
    d.readsAs m e = true ↔ ofDecimal false d.digits d.power = .finite false m e := by
  rw [readsAs, beq_iff_eq]

/-- A decimal within half of the seventeenth place of a number reads back as the number. -/
theorem readsAs_of_close (h : IsDouble m e) {place : Int}
    (hplace : (10 : ℚ) ^ (place - 1) ≤ m * 2 ^ e) {near : Nat}
    (hlow : (near : ℚ) - 1 / 2 ≤ m * 2 ^ e * 10 ^ (-(place - 17)))
    (hhigh : (m : ℚ) * 2 ^ e * 10 ^ (-(place - 17)) ≤ near + 1 / 2) :
    readsAs ⟨near, place - 17⟩ m e = true := by
  have hw : (0 : ℚ) < 2 ^ e := by positivity
  have hunit : (0 : ℚ) < 10 ^ (place - 17) := by positivity
  rw [zpow_neg, ← div_eq_mul_inv] at hlow hhigh
  rw [le_div_iff₀ hunit] at hlow
  rw [div_le_iff₀ hunit] at hhigh
  -- The unit of the seventeenth place is less than the distance to the next number.
  have hsmall : (10 : ℚ) ^ (place - 17) * 10 ^ 16 ≤ m * 2 ^ e := by
    rw [← zpow_natCast, ← zpow_add₀ (by norm_num)]
    exact le_of_eq_of_le (by congr 1; omega) hplace
  have hm : (m : ℚ) * 2 ^ e ≤ 2 ^ 53 * 2 ^ e := by
    refine mul_le_mul_of_nonneg_right ?_ hw.le
    exact_mod_cast h.below.le
  obtain ⟨num, den, hd, hratio⟩ := Binary64.exists_ratio near (place - 17)
  rw [readsAs_iff, Binary64.ofDecimal_eq_ofRatio false hd hratio]
  apply Binary64.ofRatio_of_near false h hd
  · rw [← hratio]
    linarith
  · rw [← hratio]
    linarith
  · intro hm52
    have hcast : (m : ℚ) = 2 ^ 52 := by exact_mod_cast hm52
    rw [← hratio]
    rw [hcast] at hsmall hlow hhigh ⊢
    linarith

/-- Among the decimals with seventeen digits one is found. -/
theorem exists_withDigits? (h : IsDouble m e) :
    ∃ d, withDigits? m e (leadingPlace (ratio m e).1 (ratio m e).2) 17 = some d := by
  have hd := ratio_snd_pos m e
  have hm : (1 : ℚ) ≤ m := by exact_mod_cast h.pos
  have hm53 : (m : ℚ) ≤ 2 ^ 53 := by exact_mod_cast h.below.le
  have hw : (0 : ℚ) < 2 ^ e := by positivity
  have hn : (ratio m e).1 ≠ 0 := by
    intro hzero
    have heq := ratio_eq m e
    rw [hzero, Nat.cast_zero, zero_div] at heq
    nlinarith
  have hlow : (2 : ℚ) ^ (-1100 : Int) ≤ m * 2 ^ e :=
    calc (2 : ℚ) ^ (-1100 : Int) ≤ 2 ^ e :=
          zpow_le_zpow_right₀ (by norm_num) (by have := h.least; omega)
      _ ≤ m * 2 ^ e := le_mul_of_one_le_left hw.le hm
  have hhigh : (m : ℚ) * 2 ^ e ≤ 2 ^ (1100 : Int) :=
    calc (m : ℚ) * 2 ^ e ≤ 2 ^ (53 : Int) * 2 ^ e :=
          mul_le_mul_of_nonneg_right (by exact_mod_cast hm53) hw.le
      _ = 2 ^ (53 + e) := (zpow_add₀ (by norm_num) _ _).symm
      _ ≤ 2 ^ (1100 : Int) := zpow_le_zpow_right₀ (by norm_num) (by have := h.largest; omega)
  rw [← ratio_eq] at hlow hhigh
  have hplace := ten_zpow_leadingPlace_le hn hd.ne' hlow hhigh
  rw [ratio_eq] at hplace
  generalize leadingPlace (ratio m e).1 (ratio m e).2 = place at hplace
  have hscaled : 0 < (scaleUp (ratio m e).1 (ratio m e).2 (-(place - 17))).2 := scaleUp_snd_pos hd _
  obtain ⟨hclose, hclose'⟩ :=
    roundDiv_bounds hscaled (n := (scaleUp (ratio m e).1 (ratio m e).2 (-(place - 17))).1)
  rw [scaleUp_eq, ratio_eq] at hclose hclose'
  exact ⟨_, List.find?_cons_of_pos (readsAs_of_close h hplace hclose hclose')⟩

theorem exists_readsAs {k : Nat} {l : List Nat} {place : Int} (hk : k ∈ l)
    (h : ∃ d, withDigits? m e place (k + 1) = some d) :
    ∃ d, (l.findSome? fun k => withDigits? m e place (k + 1)) = some d ∧ d.readsAs m e = true := by
  have hsome : (l.findSome? fun k => withDigits? m e place (k + 1)).isSome = true :=
    List.findSome?_isSome_iff.2 ⟨k, hk, Option.isSome_iff_exists.2 h⟩
  obtain ⟨d, hd⟩ := Option.isSome_iff_exists.1 hsome
  obtain ⟨j, -, hj⟩ := List.exists_of_findSome?_eq_some hd
  have hread := List.find?_some hj
  exact ⟨d, hd, hread⟩

/-- The value of a numeral. -/
def value (d : Numeral) : ℚ := d.digits * 10 ^ d.power

/-- Moving zeros into the power keeps the value. -/
theorem value_trimZeros (n : Nat) (d : Numeral) : (trimZeros n d).value = d.value := by
  induction n generalizing d with
  | zero => rfl
  | succ n ih =>
    rw [trimZeros]
    split
    · rename_i h
      have hdigits : (d.digits : ℚ) = (d.digits / 10 : Nat) * 10 := by
        exact_mod_cast (Nat.div_mul_cancel (Nat.dvd_of_mod_eq_zero h.2)).symm
      rw [ih, value, value, zpow_add_one₀ (by norm_num), hdigits, mul_assoc, mul_comm (10 : ℚ)]
    · rfl

/-- The shortest numeral of a number reads back as the number. -/
theorem shortest_readsAs (h : IsDouble m e) : (shortest m e).readsAs m e = true := by
  obtain ⟨d, hfound, hd⟩ :=
    exists_readsAs (List.mem_range.2 (by omega : 16 < 17)) (exists_withDigits? h)
  rw [readsAs_iff] at hd ⊢
  rw [shortest, hfound, Option.getD_some, ← hd]
  exact Binary64.ofDecimal_congr false (value_trimZeros 20 d)

theorem shortest_digits_ne_zero (h : IsDouble m e) : (shortest m e).digits ≠ 0 := by
  intro hzero
  have hread := readsAs_iff.1 (shortest_readsAs h)
  rw [hzero, Binary64.ofDecimal_zero] at hread
  cases hread
  exact absurd h.pos (Nat.lt_irrefl 0)

end Numeral

namespace Binary64

theorem ofMantissa_eq_finite {s t : Bool} {r : Nat} {k : Int}
    (h : ofMantissa s r k = .finite s m e) : ofMantissa t r k = .finite t m e := by
  unfold ofMantissa bounded at h ⊢
  split at h
  · rename_i hr
    rw [if_pos hr]
    split at h
    · cases h
    · rename_i hk
      cases h
      rw [if_neg hk]
  · rename_i hr
    rw [if_neg hr]
    split at h
    · cases h
    · rename_i hk
      cases h
      rw [if_neg hk]

/-- The sign of a decimal does not change what it is rounded to. -/
theorem ofDecimal_eq_finite {s t : Bool} {digits : Nat} {power : Int}
    (h : ofDecimal s digits power = .finite s m e) : ofDecimal t digits power = .finite t m e := by
  obtain ⟨num, den, hd, hratio⟩ := exists_ratio digits power
  rw [ofDecimal_eq_ofRatio _ hd hratio] at h ⊢
  unfold ofRatio at h ⊢
  split at h
  · rename_i hzero
    cases h
    rw [if_pos hzero]
  · rename_i hne
    rw [if_neg hne]
    exact ofMantissa_eq_finite h

/-- A decimal with the value of the shortest numeral reads back as the number, with either sign. -/
theorem ofDecimal_of_shortest (s : Bool) (h : IsDouble m e) {digits : Nat} {power : Int}
    (hvalue : (digits : ℚ) * 10 ^ power = (Numeral.shortest m e).value) :
    ofDecimal s digits power = .finite s m e := by
  refine ofDecimal_eq_finite (s := false) ?_
  rw [ofDecimal_congr false hvalue]
  exact Numeral.readsAs_iff.1 (Numeral.shortest_readsAs h)

end Binary64

end ExportLint.Decimal
