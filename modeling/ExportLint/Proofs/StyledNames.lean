import ExportLint.Naming.CaseStyle

/-!
# Characters of styled names

The words of a name consist of ASCII letters and of digits. A case style changes the case of letters
and adds underscores and hyphens. So whatever else a name holds, its styled form does not, unless
the name has no words and stays as it is.
-/
namespace ExportLint

namespace Naming

open Text (CaseMap.asciiLower CaseMap.asciiUpper CaseMap.capitalize)
open Text.Letter (isAsciiUpper isAsciiLower)

/-- Characters that words are made of. -/
def isWordPart (c : Char) : Bool := isUpper c || isLower c || isDigit c

/-- Characters that styled names are made of. -/
def isStyled (c : Char) : Bool := isWordPart c || c == '_' || c == '-'

theorem all_takeWhile_append {p q r : Char → Bool} (hp : ∀ c, p c = true → r c = true)
    (hq : ∀ c, q c = true → r c = true) (cs : List Char) :
    ∀ c ∈ cs.take ((cs.takeWhile p).length +
      ((cs.drop (cs.takeWhile p).length).takeWhile q).length), r c = true := by
  have hsplit : cs.take ((cs.takeWhile p).length +
      ((cs.drop (cs.takeWhile p).length).takeWhile q).length) =
        cs.takeWhile p ++ (cs.drop (cs.takeWhile p).length).takeWhile q := by
    rw [List.take_add, ← List.prefix_iff_eq_take.1 (List.takeWhile_prefix p),
      ← List.prefix_iff_eq_take.1 (List.takeWhile_prefix q)]
  intro c hc
  rw [hsplit, List.mem_append] at hc
  rcases hc with hc | hc
  · exact hp c (List.all_eq_true.1 List.all_takeWhile c hc)
  · exact hq c (List.all_eq_true.1 List.all_takeWhile c hc)

theorem all_take_of_le {p r : Char → Bool} (hp : ∀ c, p c = true → r c = true) {cs : List Char}
    {n : Nat} (hn : n ≤ (cs.takeWhile p).length) : ∀ c ∈ cs.take n, r c = true := by
  intro c hc
  have htaken : cs.take n <+: cs.take (cs.takeWhile p).length := by
    rw [← Nat.min_eq_left hn, ← List.take_take]
    exact List.take_prefix _ _
  rw [← List.prefix_iff_eq_take.1 (List.takeWhile_prefix p)] at htaken
  exact hp c (List.all_eq_true.1 List.all_takeWhile c (htaken.subset hc))

theorem isWordPart_of_isUpper (c : Char) (h : isUpper c = true) : isWordPart c = true := by
  simp [isWordPart, h]

theorem isWordPart_of_isLower (c : Char) (h : isLower c = true) : isWordPart c = true := by
  simp [isWordPart, h]

theorem isWordPart_of_isDigit (c : Char) (h : isDigit c = true) : isWordPart c = true := by
  simp [isWordPart, h]

/-- A word holds letters, or digits. -/
theorem isWordPart_of_mem_take (cs : List Char) :
    ∀ c ∈ cs.take (wordLength cs), isWordPart c = true := by
  simp only [wordLength]
  split
  · split
    · exact all_takeWhile_append isWordPart_of_isUpper isWordPart_of_isLower cs
    · exact all_take_of_le isWordPart_of_isUpper (Nat.sub_le _ _)
  · split
    · exact all_take_of_le isWordPart_of_isUpper (Nat.le_refl _)
    · exact all_take_of_le isWordPart_of_isDigit (Nat.le_refl _)

theorem isWordPart_of_mem_rawWords {cs w : List Char} (h : w ∈ rawWords cs) :
    ∀ c ∈ w, isWordPart c = true := by
  fun_induction rawWords cs with
  | case1 => cases h
  | case2 c cs _ ih => exact ih h
  | case3 c cs n hn ih =>
    rcases List.mem_cons.1 h with rfl | h
    · have htake := isWordPart_of_mem_take (c :: cs)
      rwa [hn] at htake
    · exact ih h

theorem toNat_mem_of_isAsciiUpper {c : Char} (h : isAsciiUpper c = true) :
    65 ≤ c.toNat ∧ c.toNat < 91 := by
  simp only [isAsciiUpper, Bool.and_eq_true, decide_eq_true_iff, Char.le_def,
    UInt32.le_iff_toNat_le] at h
  exact ⟨h.1, Nat.lt_succ_of_le h.2⟩

theorem toNat_mem_of_isAsciiLower {c : Char} (h : isAsciiLower c = true) :
    97 ≤ c.toNat ∧ c.toNat < 123 := by
  simp only [isAsciiLower, Bool.and_eq_true, decide_eq_true_iff, Char.le_def,
    UInt32.le_iff_toNat_le] at h
  exact ⟨h.1, Nat.lt_succ_of_le h.2⟩

theorem isLower_asciiLower {c : Char} (h : isUpper c = true) :
    isLower (CaseMap.asciiLower c) = true := by
  have hdown : CaseMap.asciiLower c = Char.ofNat (c.toNat + 32) := if_pos h
  obtain ⟨hlow, hhigh⟩ := toNat_mem_of_isAsciiUpper h
  have hall : ∀ n < 91, 65 ≤ n → isLower (Char.ofNat (n + 32)) = true := by decide
  rw [hdown]
  exact hall _ hhigh hlow

theorem isUpper_asciiUpper {c : Char} (h : isLower c = true) :
    isUpper (CaseMap.asciiUpper c) = true := by
  have hup : CaseMap.asciiUpper c = Char.ofNat (c.toNat - 32) := if_pos h
  obtain ⟨hlow, hhigh⟩ := toNat_mem_of_isAsciiLower h
  have hall : ∀ n < 123, 97 ≤ n → isUpper (Char.ofNat (n - 32)) = true := by decide
  rw [hup]
  exact hall _ hhigh hlow

theorem asciiLower_of_not_upper {c : Char} (h : isUpper c = false) : CaseMap.asciiLower c = c :=
  if_neg (Bool.eq_false_iff.1 h)

theorem asciiUpper_of_not_lower {c : Char} (h : isLower c = false) : CaseMap.asciiUpper c = c :=
  if_neg (Bool.eq_false_iff.1 h)

theorem isWordPart_asciiLower {c : Char} (h : isWordPart c = true) :
    isWordPart (CaseMap.asciiLower c) = true := by
  cases hu : isUpper c with
  | true => exact isWordPart_of_isLower _ (isLower_asciiLower hu)
  | false => rwa [asciiLower_of_not_upper hu]

theorem isWordPart_asciiUpper {c : Char} (h : isWordPart c = true) :
    isWordPart (CaseMap.asciiUpper c) = true := by
  cases hl : isLower c with
  | true => exact isWordPart_of_isUpper _ (isUpper_asciiUpper hl)
  | false => rwa [asciiUpper_of_not_lower hl]

theorem isWordPart_of_mem_capitalize {w : List Char} (h : ∀ c ∈ w, isWordPart c = true) :
    ∀ c ∈ CaseMap.capitalize w, isWordPart c = true := by
  cases w with
  | nil => exact h
  | cons d ds =>
    intro c hc
    rcases List.mem_cons.1 hc with rfl | hc
    · exact isWordPart_asciiUpper (h d List.mem_cons_self)
    · obtain ⟨e, he, rfl⟩ := List.mem_map.1 hc
      exact isWordPart_asciiLower (h e (List.mem_cons_of_mem _ he))

/-- Words in lower case hold letters and digits. -/
theorem isWordPart_of_mem_words (name : String) {w : List Char} (h : w ∈ words name) :
    ∀ c ∈ w, isWordPart c = true := by
  obtain ⟨raw, hraw, rfl⟩ := List.mem_map.1 h
  intro c hc
  obtain ⟨d, hd, rfl⟩ := List.mem_map.1 hc
  exact isWordPart_asciiLower (isWordPart_of_mem_rawWords hraw d hd)

end Naming

namespace CaseStyle

open Naming

theorem mem_separate {mark c : Char} {ws : List (List Char)} (h : c ∈ separate mark ws) :
    c = mark ∨ ∃ w ∈ ws, c ∈ w := by
  fun_induction separate mark ws with
  | case1 => cases h
  | case2 w => exact .inr ⟨w, List.mem_cons_self, h⟩
  | case3 w ws _ ih =>
    rcases List.mem_append.1 h with h | h
    · exact .inr ⟨w, List.mem_cons_self, h⟩
    · rcases List.mem_cons.1 h with h | h
      · exact .inl h
      · exact (ih h).imp_right fun ⟨v, hv, hc⟩ => ⟨v, List.mem_cons_of_mem _ hv, hc⟩

theorem isStyled_of_isWordPart {c : Char} (h : isWordPart c = true) : isStyled c = true := by
  simp [isStyled, h]

/-- Words of letters and digits are put together with underscores and hyphens at most. -/
theorem isStyled_of_mem_join {ws : List (List Char)}
    (h : ∀ w ∈ ws, ∀ c ∈ w, isWordPart c = true) (style : CaseStyle) :
    ∀ c ∈ style.join ws, isStyled c = true := by
  have capital {ws' : List (List Char)} (hs : ∀ w ∈ ws', w ∈ ws) :
      ∀ c ∈ ws'.flatMap Text.CaseMap.capitalize, isStyled c = true := by
    intro c hc
    obtain ⟨w, hw, hc⟩ := List.mem_flatMap.1 hc
    exact isStyled_of_isWordPart (isWordPart_of_mem_capitalize (h w (hs w hw)) c hc)
  intro c hc
  cases style with
  | camel =>
    rcases List.mem_append.1 hc with hc | hc
    · obtain ⟨w, hw, hc⟩ := List.mem_flatten.1 hc
      exact isStyled_of_isWordPart (h w (List.mem_of_mem_take hw) c hc)
    · exact capital (fun w hw => List.mem_of_mem_drop hw) c hc
  | pascal => exact capital (fun w hw => hw) c hc
  | snake =>
    rcases mem_separate hc with rfl | ⟨w, hw, hc⟩
    · rfl
    · exact isStyled_of_isWordPart (h w hw c hc)
  | kebab =>
    rcases mem_separate hc with rfl | ⟨w, hw, hc⟩
    · rfl
    · exact isStyled_of_isWordPart (h w hw c hc)
  | constant =>
    rcases mem_separate hc with rfl | ⟨w, hw, hc⟩
    · rfl
    · obtain ⟨v, hv, rfl⟩ := List.mem_map.1 hw
      obtain ⟨d, hd, rfl⟩ := List.mem_map.1 hc
      exact isStyled_of_isWordPart (isWordPart_asciiUpper (h v hv d hd))

/-- A name in a case style is the name as it was, or it holds letters, digits, underscores and
hyphens only. -/
theorem apply_eq_or_isStyled (style : CaseStyle) (name : String) :
    style.apply name = name ∨ ∀ c ∈ (style.apply name).toList, isStyled c = true := by
  rw [apply]
  split
  · exact .inl rfl
  · right
    rw [String.toList_ofList, guardDigit]
    have hjoin := isStyled_of_mem_join (fun w hw => isWordPart_of_mem_words name hw) style
    split
    · intro c hc
      rcases List.mem_cons.1 hc with rfl | hc
      · rfl
      · exact hjoin c hc
    · exact hjoin

end CaseStyle

end ExportLint
