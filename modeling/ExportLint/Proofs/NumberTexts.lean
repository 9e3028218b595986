import ExportLint.Json.Reader
import ExportLint.Proofs.ShortestNumerals

/-!
# Numbers read back from their texts

A numeral is written as a whole part, a fraction and an exponent, of which the last two may be
missing. What the reader makes of such a text has the value of the numeral, and so it is the number
that was written.
-/
namespace ExportLint

open Decimal (Binary64 Numeral NumberForm digitsOf padDigits)

namespace Json

section Digits

variable {n : Nat}

theorem foldl_digits (ds : List Char) (n : Nat) :
    ds.foldl (fun n d => n * 10 + (d.toNat - 48)) n = n * 10 ^ ds.length + natOf ds := by
  induction ds generalizing n with
  | nil => simp [natOf]
  | cons d ds ih =>
    rw [natOf, List.foldl_cons, List.foldl_cons, ih, ih (0 * 10 + _), List.length_cons, Nat.pow_succ]
    ring

theorem natOf_append (ds es : List Char) :
    natOf (ds ++ es) = natOf ds * 10 ^ es.length + natOf es := by
  rw [natOf, List.foldl_append, foldl_digits es, ← natOf]

theorem natOf_zeros (k : Nat) : natOf (List.replicate k '0') = 0 := by
  induction k with
  | zero => rfl
  | succ k ih =>
    rw [List.replicate_succ', natOf_append, ih]
    rfl

theorem natOf_zeros_append (k : Nat) (ds : List Char) :
    natOf (List.replicate k '0' ++ ds) = natOf ds := by
  rw [natOf_append, natOf_zeros, Nat.zero_mul, Nat.zero_add]

theorem natOf_append_zeros (k : Nat) (ds : List Char) :
    natOf (ds ++ List.replicate k '0') = natOf ds * 10 ^ k := by
  rw [natOf_append, natOf_zeros, Nat.add_zero, List.length_replicate]

theorem natOf_digitsOf (n : Nat) : natOf (digitsOf n) = n := by
  have hfold : natOf (digitsOf n) = Nat.ofDigitChars 10 (digitsOf n) 0 := by
    simp only [natOf, Nat.ofDigitChars, Nat.mul_comm]
    rfl
  rw [hfold]
  exact Nat.ofDigitChars_ten_toDigits

theorem natOf_padDigits (width n : Nat) : natOf (padDigits width n) = n := by
  rw [padDigits, natOf_zeros_append, natOf_digitsOf]

/-- A text of digits only. -/
def AllDigits (ds : List Char) : Prop := ∀ c ∈ ds, isDigit c = true

theorem AllDigits.append {ds es : List Char} (hd : AllDigits ds) (he : AllDigits es) :
    AllDigits (ds ++ es) := by
  intro c hc
  rcases List.mem_append.1 hc with hc | hc
  · exact hd c hc
  · exact he c hc

theorem AllDigits.of_sublist {ds es : List Char} (he : AllDigits es) (h : ds.Sublist es) :
    AllDigits ds := fun c hc => he c (h.subset hc)

theorem allDigits_zeros (k : Nat) : AllDigits (List.replicate k '0') := by
  intro c hc
  rw [List.eq_of_mem_replicate hc]
  rfl

theorem allDigits_digitsOf (n : Nat) : AllDigits (digitsOf n) := by
  intro c hc
  have h := Nat.isDigit_of_mem_toDigits (by omega) (by omega) hc
  rw [Char.isDigit, Bool.and_eq_true] at h
  rw [isDigit, Bool.and_eq_true]
  exact ⟨decide_eq_true (of_decide_eq_true h.1), decide_eq_true (of_decide_eq_true h.2)⟩

theorem digitsOf_ne_nil (n : Nat) : digitsOf n ≠ [] := Nat.toDigits_ne_nil

/-- A number that is not zero does not begin with one. -/
theorem head?_digitsOf (n : Nat) (hn : n ≠ 0) : (digitsOf n).head? ≠ some '0' := by
  induction n using Nat.strongRecOn with
  | ind n ih =>
    rw [digitsOf, Nat.toDigits_eq_if (by omega)]
    split
    · rename_i hlt
      have hdigit : ∀ k : Fin 10, k.val ≠ 0 → [k.val.digitChar].head? ≠ some '0' := by decide
      exact hdigit ⟨n, hlt⟩ hn
    · have hquot : n / 10 ≠ 0 := by omega
      have hhead := ih (n / 10) (by omega) hquot
      rwa [← List.head?_append_of_ne_nil _ (digitsOf_ne_nil (n / 10))] at hhead

end Digits

section Parts

variable {ds whole frac rest : List Char}

/-- What follows a number: nothing that could be a part of it. -/
def EndsNumber : List Char → Prop
  | [] => True
  | c :: _ => isDigit c = false ∧ c ≠ '.' ∧ c ≠ 'e' ∧ c ≠ 'E'

/-- No digit stands first. -/
def EndsDigits : List Char → Prop
  | [] => True
  | c :: _ => isDigit c = false

theorem EndsNumber.endsDigits (h : EndsNumber rest) : EndsDigits rest := by
  cases rest with
  | nil => trivial
  | cons c cs => exact h.1

theorem takeWhile_digits (hd : AllDigits ds) (hr : EndsDigits rest) :
    (ds ++ rest).takeWhile isDigit = ds := by
  rw [List.takeWhile_append_of_pos hd]
  cases rest with
  | nil => simp
  | cons c cs =>
    have hc : isDigit c = false := hr
    simp [hc]

theorem dropWhile_digits (hd : AllDigits ds) (hr : EndsDigits rest) :
    (ds ++ rest).dropWhile isDigit = rest := by
  rw [List.dropWhile_append_of_pos hd]
  cases rest with
  | nil => rfl
  | cons c cs =>
    have hc : isDigit c = false := hr
    simp [hc]

theorem readFraction_point (hf : AllDigits frac) (hne : frac ≠ []) (hr : EndsDigits rest) :
    readFraction ('.' :: frac ++ rest) = (frac, rest) := by
  obtain ⟨d, ds, rfl⟩ := List.exists_cons_of_ne_nil hne
  have hd : isDigit d = true := hf d List.mem_cons_self
  have htake := takeWhile_digits hf hr
  have hdrop := dropWhile_digits hf hr
  rw [List.cons_append] at htake hdrop
  simp only [List.cons_append, readFraction, hd, if_true, htake, hdrop]

theorem readFraction_none (h : ∀ cs, rest ≠ '.' :: cs) : readFraction rest = ([], rest) := by
  unfold readFraction
  split
  · exact absurd rfl (h _)
  · rfl

theorem readExponent_mark (negative : Bool) (hd : AllDigits ds) (hne : ds ≠ [])
    (hr : EndsDigits rest) :
    readExponent ('e' :: (if negative then '-' else '+') :: (ds ++ rest)) =
      some (if negative then -(natOf ds : Int) else natOf ds, rest) := by
  cases negative <;>
    simp [readExponent, takeWhile_digits hd hr, dropWhile_digits hd hr, hne]

theorem readExponent_none (h : EndsNumber rest) : readExponent rest = none := by
  cases rest with
  | nil => rfl
  | cons c cs =>
    obtain ⟨-, -, he, hE⟩ := h
    simp [readExponent, he, hE]

theorem EndsNumber.ne_point (h : EndsNumber rest) (cs : List Char) : rest ≠ '.' :: cs := by
  rintro rfl
  exact h.2.1 rfl

/-- A whole part without a fraction or an exponent is an integer. -/
theorem readUnsigned_int (negative : Bool) (hw : whole.length ≤ digitLimit)
    (hr : EndsNumber rest) : readUnsigned negative whole rest =
      .ok (.int (if negative then -(natOf whole : Int) else natOf whole), rest) := by
  rw [readUnsigned, readFraction_none hr.ne_point]
  simp [readExponent_none hr, Nat.not_lt.2 hw]

theorem readUnsigned_fraction (negative : Bool) (hf : AllDigits frac) (hne : frac ≠ [])
    (hr : EndsNumber rest) : readUnsigned negative whole ('.' :: frac ++ rest) =
      .ok (.real (Binary64.ofDecimal negative (natOf (whole ++ frac)) (-frac.length)), rest) := by
  rw [readUnsigned, readFraction_point hf hne hr.endsDigits]
  simp [readExponent_none hr, hne]

/-- A fraction, if there are digits for one. -/
def fractionText (frac : List Char) : List Char := if frac.isEmpty then [] else '.' :: frac

theorem readUnsigned_exponent (negative below : Bool) (hf : AllDigits frac) (hd : AllDigits ds)
    (hne : ds ≠ []) (hr : EndsNumber rest) :
    readUnsigned negative whole
        (fractionText frac ++ 'e' :: (if below then '-' else '+') :: (ds ++ rest)) =
      .ok (.real (Binary64.ofDecimal negative (natOf (whole ++ frac))
        ((if below then -(natOf ds : Int) else natOf ds) - frac.length)), rest) := by
  have hfraction : readFraction
      (fractionText frac ++ 'e' :: (if below then '-' else '+') :: (ds ++ rest)) =
        (frac, 'e' :: (if below then '-' else '+') :: (ds ++ rest)) := by
    rw [fractionText]
    split
    · rename_i hempty
      rw [List.isEmpty_iff.1 hempty]
      exact readFraction_none fun cs h => absurd (List.cons.inj h).1 (by decide)
    · rename_i hfull
      exact readFraction_point hf (fun h => hfull (List.isEmpty_iff.2 h)) rfl
  rw [readUnsigned, hfraction]
  simp only [readExponent_mark below hd hne hr.endsDigits]

/-- The digits of a whole part: zero alone, or digits that do not begin with it. -/
def IsWhole (whole : List Char) : Prop :=
  whole = ['0'] ∨ (AllDigits whole ∧ whole ≠ [] ∧ whole.head? ≠ some '0')

def signText (negative : Bool) : List Char := if negative then ['-'] else []

theorem IsWhole.cons {c : Char} {cs : List Char} (hd : AllDigits (c :: cs)) (hc : c ≠ '0') :
    IsWhole (c :: cs) :=
  .inr ⟨hd, by simp, by simp [hc]⟩

theorem isWhole_digitsOf (n : Nat) : IsWhole (digitsOf n) := by
  by_cases hn : n = 0
  · subst hn
    exact .inl (by decide)
  · exact .inr ⟨allDigits_digitsOf n, digitsOf_ne_nil n, head?_digitsOf n hn⟩

theorem readSigned_whole {start : List Char} (negative : Bool) (hw : IsWhole whole)
    (hr : EndsDigits rest) :
    readSigned negative start (whole ++ rest) = readUnsigned negative whole rest := by
  rcases hw with rfl | ⟨hd, hne, hzero⟩
  · rfl
  · have htake := takeWhile_digits hd hr
    have hdrop := dropWhile_digits hd hr
    obtain ⟨c, cs, rfl⟩ := List.exists_cons_of_ne_nil hne
    have hc : isDigit c = true := hd c List.mem_cons_self
    have hc0 : c ≠ '0' := fun h => hzero (by rw [h]; rfl)
    rw [List.cons_append] at htake hdrop ⊢
    rw [readSigned, if_pos hc, htake, hdrop]
    exact hc0

/-- A whole part does not begin with a sign. -/
theorem IsWhole.append_ne (hw : IsWhole whole) (rest cs : List Char) :
    whole ++ rest ≠ '-' :: cs := by
  rcases hw with rfl | ⟨hd, hne, -⟩
  · simp
  · obtain ⟨c, ds, rfl⟩ := List.exists_cons_of_ne_nil hne
    intro h
    have hc := hd c List.mem_cons_self
    rw [(List.cons.inj h).1] at hc
    cases hc

/-- A number is read from its whole part on. -/
theorem readNumber_whole (negative : Bool) (hw : IsWhole whole) (hr : EndsDigits rest) :
    readNumber (signText negative ++ (whole ++ rest)) = readUnsigned negative whole rest := by
  cases negative with
  | true => exact readSigned_whole true hw hr
  | false =>
    rw [signText, if_neg Bool.false_ne_true, List.nil_append, readNumber]
    · exact readSigned_whole false hw hr
    · exact hw.append_ne rest

end Parts

section Rendering

variable {form : NumberForm} {rest : List Char}

/-- What a reader makes of a text is a decimal with a value. -/
def ReadsDecimal (text rest : List Char) (negative : Bool) (q : ℚ) : Prop :=
  ∃ (digits : Nat) (power : Int), (digits : ℚ) * 10 ^ power = q ∧
    readNumber (signText negative ++ (text ++ rest)) =
      .ok (.real (Binary64.ofDecimal negative digits power), rest)

theorem readsDecimal_fraction {whole frac : List Char} (hw : IsWhole whole) (hf : AllDigits frac)
    (hne : frac ≠ []) (hr : EndsNumber rest) (negative : Bool) :
    ReadsDecimal (whole ++ '.' :: frac) rest negative
      (natOf (whole ++ frac) * 10 ^ (-frac.length : Int)) := by
  refine ⟨_, _, rfl, ?_⟩
  rw [List.append_assoc, readNumber_whole negative hw (by rfl)]
  exact readUnsigned_fraction negative hf hne hr

theorem readsDecimal_exponent {whole frac ds : List Char} (hw : IsWhole whole)
    (hf : AllDigits frac) (hd : AllDigits ds) (hne : ds ≠ []) (hr : EndsNumber rest)
    (negative below : Bool) :
    ReadsDecimal (whole ++ (fractionText frac ++ 'e' :: (if below then '-' else '+') :: ds)) rest
      negative (natOf (whole ++ frac) *
        10 ^ ((if below then -(natOf ds : Int) else natOf ds) - frac.length)) := by
  refine ⟨_, _, rfl, ?_⟩
  rw [List.append_assoc, readNumber_whole negative hw]
  · rw [List.append_assoc, List.cons_append, List.cons_append]
    exact readUnsigned_exponent negative below hf hd hne hr
  · rw [fractionText]
    split <;> exact rfl

section Forms

variable {c : Char} {cs : List Char} {k : Nat}

/-- Zeros stand for the power of a whole number. -/
theorem readsDecimal_whole (hds : AllDigits (c :: cs)) (hc : c ≠ '0') (hr : EndsNumber rest)
    (negative : Bool) (k : Nat) :
    ReadsDecimal (c :: cs ++ List.replicate k '0' ++ ['.', '0']) rest negative
      (natOf (c :: cs) * 10 ^ (k : Int)) := by
  have hwhole : AllDigits (c :: cs ++ List.replicate k '0') := hds.append (allDigits_zeros k)
  have hvalue : (natOf (c :: cs ++ List.replicate k '0' ++ List.replicate 1 '0') : ℚ) *
      10 ^ (-(List.replicate 1 '0').length : Int) = natOf (c :: cs) * 10 ^ (k : Int) := by
    rw [natOf_append_zeros, natOf_append_zeros, zpow_natCast]
    push_cast
    simp
  rw [← hvalue]
  have h := readsDecimal_fraction (.cons hwhole hc) (allDigits_zeros 1) (by simp) hr negative
  simpa using h

/-- The point stands between the digits. -/
theorem readsDecimal_between (hds : AllDigits (c :: cs)) (hc : c ≠ '0') (hr : EndsNumber rest)
    (negative : Bool) (hk : k < cs.length) :
    ReadsDecimal (c :: cs.take k ++ '.' :: cs.drop k) rest negative
      (natOf (c :: cs) * 10 ^ (k - cs.length : Int)) := by
  have hwhole : AllDigits (c :: cs.take k) := hds.of_sublist ((List.take_sublist k cs).cons_cons c)
  have hfrac : AllDigits (cs.drop k) := hds.of_sublist ((List.drop_sublist k cs).cons c)
  have hlen : (-(cs.drop k).length : Int) = k - cs.length := by
    rw [List.length_drop]
    omega
  have hfull : cs.drop k ≠ [] := by
    rw [← List.length_pos_iff, List.length_drop]
    omega
  have hvalue : (natOf (c :: cs.take k ++ cs.drop k) : ℚ) * 10 ^ (-(cs.drop k).length : Int) =
      natOf (c :: cs) * 10 ^ (k - cs.length : Int) := by
    rw [List.cons_append, List.take_append_drop, hlen]
  rw [← hvalue]
  exact readsDecimal_fraction (.cons hwhole hc) hfrac hfull hr negative

/-- Zeros stand between the point and the digits. -/
theorem readsDecimal_below (hds : AllDigits (c :: cs)) (hr : EndsNumber rest) (negative : Bool)
    (k : Nat) :
    ReadsDecimal ('0' :: '.' :: List.replicate k '0' ++ c :: cs) rest negative
      (natOf (c :: cs) * 10 ^ (-(k + (c :: cs).length) : Int)) := by
  have hfrac : AllDigits (List.replicate k '0' ++ c :: cs) := (allDigits_zeros k).append hds
  have hlen : (List.replicate k '0' ++ c :: cs).length = k + (c :: cs).length := by
    rw [List.length_append, List.length_replicate]
  have hvalue : (natOf (['0'] ++ (List.replicate k '0' ++ c :: cs)) : ℚ) *
      10 ^ (-(List.replicate k '0' ++ c :: cs).length : Int) =
        natOf (c :: cs) * 10 ^ (-(k + (c :: cs).length) : Int) := by
    rw [← List.replicate_one, natOf_zeros_append, natOf_zeros_append, hlen, Nat.cast_add]
  rw [← hvalue]
  exact readsDecimal_fraction (.inl rfl) hfrac (by simp) hr negative

/-- One digit stands in front of the point, and the exponent says where it belongs. -/
theorem readsDecimal_scientific (hds : AllDigits (c :: cs)) (hc : c ≠ '0') (hr : EndsNumber rest)
    (negative : Bool) (width : Nat) (e : Int) :
    ReadsDecimal (c :: (fractionText cs ++
        'e' :: (if 0 ≤ e then '+' else '-') :: padDigits width e.natAbs)) rest negative
      (natOf (c :: cs) * 10 ^ (e - cs.length)) := by
  obtain ⟨hfirst, hcs⟩ := List.forall_mem_cons.1 hds
  have hpad : AllDigits (padDigits width e.natAbs) :=
    (allDigits_zeros _).append (allDigits_digitsOf _)
  have hpadne : padDigits width e.natAbs ≠ [] := by
    simp [padDigits, digitsOf_ne_nil]
  have hwhole : IsWhole [c] := .cons (List.forall_mem_singleton.2 hfirst) hc
  have hsign : (if 0 ≤ e then '+' else '-') = if decide (e < 0) then '-' else '+' := by
    by_cases h : e < 0
    · simp [h, Int.not_le.2 h]
    · simp [h, Int.not_lt.1 h]
  have hexponent : (if decide (e < 0) then -(e.natAbs : Int) else e.natAbs) = e := by
    by_cases h : e < 0
    · simp only [h, decide_true, if_true]
      omega
    · simp only [h, decide_false, Bool.false_eq_true, if_false]
      omega
  have h := readsDecimal_exponent hwhole hcs hpad hpadne hr negative (decide (e < 0))
  rwa [natOf_padDigits, hexponent, List.singleton_append, List.singleton_append, ← hsign] at h

end Forms

/-- A numeral is read as a decimal with its value, whatever form it is written in. -/
theorem readsDecimal_render (d : Numeral) (hd : d.digits ≠ 0) (hr : EndsNumber rest)
    (negative : Bool) : ReadsDecimal (d.render form) rest negative d.value := by
  have hds := allDigits_digitsOf d.digits
  have hhead := head?_digitsOf d.digits hd
  obtain ⟨c, cs, hcons⟩ := List.exists_cons_of_ne_nil (digitsOf_ne_nil d.digits)
  have hvalue {power : Int} (h : power = d.power) :
      (natOf (c :: cs) : ℚ) * 10 ^ power = d.value := by
    rw [h, ← hcons, natOf_digitsOf, Numeral.value]
  unfold Numeral.render
  rw [hcons] at hds hhead ⊢
  have hc : c ≠ '0' := fun h => hhead (by rw [h]; rfl)
  dsimp only
  rw [List.length_cons]
  generalize he : d.power + ((cs.length + 1 : Nat) : Int) - 1 = e
  split
  · split
    · rename_i hpower
      rw [← hvalue (Int.toNat_of_nonneg hpower)]
      exact readsDecimal_whole hds hc hr negative _
    · rename_i hpower
      split
      · have hplace : (e.toNat : Int) - cs.length = d.power := by omega
        rw [← hvalue hplace]
        exact readsDecimal_between hds hc hr negative (by omega)
      · have hplace : -((((-e).toNat - 1 : Nat) : Int) + (c :: cs).length) = d.power := by
          rw [List.length_cons]
          omega
        rw [← hvalue hplace]
        exact readsDecimal_below hds hr negative _
  · have hpoint : (if cs.length + 1 = 1 then [] else '.' :: cs) = fractionText cs := by
      cases cs <;> simp [fractionText]
    have hplace : e - cs.length = d.power := by omega
    rw [← hvalue hplace, List.take_succ_cons, List.take_zero, List.drop_succ_cons, List.drop_zero,
      hpoint]
    exact readsDecimal_scientific hds hc hr negative _ _

/-- A number of the format is read back from its text. -/
theorem readNumber_render {m : Nat} {e : Int} (s : Bool)
    (h : (Binary64.finite s m e).IsNumber) (hr : EndsNumber rest) :
    readNumber (((Binary64.finite s m e).render form).toList ++ rest) =
      .ok (.real (.finite s m e), rest) := by
  have hsign : (if s then "-" else "").toList = signText s := by
    cases s <;> rfl
  rw [Binary64.render]
  rcases h with ⟨rfl, rfl⟩ | h
  · have hread : readUnsigned s ['0'] ('.' :: List.replicate 1 '0' ++ rest) = _ :=
      readUnsigned_fraction s (allDigits_zeros 1) (by simp) hr
    rw [if_pos rfl, String.toList_append, hsign, List.append_assoc]
    exact (readNumber_whole s (.inl rfl) (by rfl)).trans hread
  · rw [if_neg h.pos.ne', String.toList_append, hsign, String.toList_ofList, List.append_assoc]
    obtain ⟨digits, power, hvalue, hread⟩ :=
      readsDecimal_render _ (Numeral.shortest_digits_ne_zero h) hr s
    rw [hread, Binary64.ofDecimal_of_shortest s h hvalue]

/-- An integer is read back from its text unless that has too many digits. -/
theorem readNumber_int {i : Int} (hi : i.natAbs < 10 ^ digitLimit) (hr : EndsNumber rest) :
    readNumber ((toString i).toList ++ rest) = .ok (.int i, rest) := by
  have htext : (toString i).toList = signText (decide (i < 0)) ++ digitsOf i.natAbs := by
    rw [Int.toString_eq_repr, Int.repr_eq_if]
    split
    · have habs : i.toNat = i.natAbs := by omega
      rw [Nat.toList_repr, habs, decide_eq_false (by omega)]
      rfl
    · have habs : (-i).toNat = i.natAbs := by omega
      rw [String.toList_append, Nat.toList_repr, habs, decide_eq_true (by omega)]
      rfl
  have hlen : (digitsOf i.natAbs).length ≤ digitLimit :=
    (Nat.length_toDigits_le_iff (by omega) (by decide)).2 hi
  have hvalue : (if decide (i < 0) then -(i.natAbs : Int) else i.natAbs) = i := by
    split <;> rename_i h <;> rw [decide_eq_true_eq] at h <;> omega
  rw [htext, List.append_assoc, readNumber_whole _ (isWhole_digitsOf _) hr.endsDigits,
    readUnsigned_int _ hlen hr, natOf_digitsOf, hvalue]

end Rendering

section Reading

variable {ds whole rest after : List Char} {v : Json}

/-- What a number is read as: an integer that is not too long, or a number of the format. -/
def IsNumeral : Json → Prop
  | .int i => i.natAbs < 10 ^ digitLimit
  | .real x => x.IsNumber
  | _ => False

theorem natOf_lt (hd : AllDigits ds) : natOf ds < 10 ^ ds.length := by
  induction ds with
  | nil => decide
  | cons d ds ih =>
    obtain ⟨hdigit, hds⟩ := List.forall_mem_cons.1 hd
    have hlt := ih hds
    have hle : d.toNat - 48 ≤ 9 := by
      rw [isDigit, Bool.and_eq_true, decide_eq_true_eq, decide_eq_true_eq] at hdigit
      have hnine : d.toNat ≤ 57 := hdigit.2
      omega
    have hfirst : natOf [d] = d.toNat - 48 := by simp [natOf]
    rw [← List.singleton_append, natOf_append, hfirst, List.length_append, List.length_singleton,
      Nat.pow_add, Nat.pow_one]
    have := Nat.mul_le_mul_right (10 ^ ds.length) hle
    omega

theorem isNumeral_of_readUnsigned {negative : Bool} (hw : AllDigits whole)
    (h : readUnsigned negative whole rest = .ok (v, after)) : IsNumeral v := by
  unfold readUnsigned at h
  dsimp only at h
  split at h
  · cases h
    exact Binary64.isNumber_ofDecimal _ _ _
  · split at h
    · cases h
      exact Binary64.isNumber_ofDecimal _ _ _
    · split at h
      · cases h
      · rename_i hlen
        cases h
        have hlt := natOf_lt hw
        have hle : 10 ^ whole.length ≤ 10 ^ digitLimit :=
          Nat.pow_le_pow_right (by omega) (Nat.not_lt.1 hlen)
        have habs : (if negative then -(natOf whole : Int) else natOf whole).natAbs =
            natOf whole := by
          cases negative <;> simp
        rw [IsNumeral, habs]
        exact lt_of_lt_of_le hlt hle

theorem allDigits_takeWhile (cs : List Char) : AllDigits (cs.takeWhile isDigit) :=
  List.all_eq_true.1 List.all_takeWhile

theorem isNumeral_of_readNumber {cs : List Char} (h : readNumber cs = .ok (v, after)) :
    IsNumeral v := by
  have hsigned {negative : Bool} {start cs : List Char}
      (h : readSigned negative start cs = .ok (v, after)) : IsNumeral v := by
    unfold readSigned at h
    split at h
    · exact isNumeral_of_readUnsigned (allDigits_zeros 1) h
    · split at h
      · exact isNumeral_of_readUnsigned (allDigits_takeWhile _) h
      · cases h
    · cases h
  unfold readNumber at h
  split at h <;> exact hsigned h

end Reading

end Json

end ExportLint
