import ExportLint.Proofs.StyledNames

/-!
# Words of a name

The words of a name are its ASCII letters and its digits in order, cut into pieces. In lower case a
word is a run of small letters or a run of digits. A run of characters of one kind is cut off as one
word wherever no letter or digit follows it.
-/
namespace ExportLint.Naming

open Text (CaseMap.asciiLower CaseMap.asciiUpper CaseMap.capitalize)
open Text.Letter (isAscii isAsciiDigit isAsciiUpper isAsciiLower)

variable {c : Char} {cs w rest : List Char}

/-- Letters that words are made of. -/
def isLetter (c : Char) : Bool := isUpper c || isLower c

theorem isLower_eq_false_of_isUpper (h : isUpper c = true) : isLower c = false := by
  obtain ⟨-, hhigh⟩ := toNat_mem_of_isAsciiUpper h
  refine Bool.eq_false_iff.2 fun hl => ?_
  obtain ⟨hlow, -⟩ := toNat_mem_of_isAsciiLower hl
  omega

theorem isUpper_eq_false_of_isLower (h : isLower c = true) : isUpper c = false :=
  Bool.eq_false_iff.2 fun hu => by
    rw [isLower_eq_false_of_isUpper hu] at h
    cases h

theorem toNat_mem_of_isLetter (h : isLetter c = true) : 65 ≤ c.toNat ∧ c.toNat < 123 := by
  rcases Bool.or_eq_true_iff.1 h with h | h
  · have := toNat_mem_of_isAsciiUpper h
    omega
  · have := toNat_mem_of_isAsciiLower h
    omega

theorem isAscii_of_isLetter (h : isLetter c = true) : isAscii c = true := by
  have hcode := toNat_mem_of_isLetter h
  exact decide_eq_true (by omega)

/-- Letters are no digits. -/
theorem isDigit_eq_false_of_isLetter (h : isLetter c = true) : isDigit c = false := by
  have hcode := toNat_mem_of_isLetter h
  rw [isDigit, Text.Letter.isDigit, if_pos (isAscii_of_isLetter h)]
  refine Bool.eq_false_iff.2 fun hd => ?_
  simp only [isAsciiDigit, Bool.and_eq_true, decide_eq_true_iff, Char.le_def,
    UInt32.le_iff_toNat_le] at hd
  have hhigh : c.toNat ≤ 57 := hd.2
  omega

theorem isLetter_of_isUpper (h : isUpper c = true) : isLetter c = true := by simp [isLetter, h]

theorem isLetter_of_isLower (h : isLower c = true) : isLetter c = true := by simp [isLetter, h]

theorem isUpper_eq_false_of_isDigit (h : isDigit c = true) : isUpper c = false :=
  Bool.eq_false_iff.2 fun hu => by
    rw [isDigit_eq_false_of_isLetter (isLetter_of_isUpper hu)] at h
    cases h

theorem isLower_eq_false_of_isDigit (h : isDigit c = true) : isLower c = false :=
  Bool.eq_false_iff.2 fun hl => by
    rw [isDigit_eq_false_of_isLetter (isLetter_of_isLower hl)] at h
    cases h

theorem isLower_asciiLower_of_isLetter (h : isLetter c = true) :
    isLower (CaseMap.asciiLower c) = true := by
  cases hu : isUpper c with
  | true => exact isLower_asciiLower hu
  | false =>
    rw [asciiLower_of_not_upper hu]
    exact (Bool.or_eq_true_iff.1 h).resolve_left (Bool.eq_false_iff.1 hu)

/-- A capital of what is no capital goes back to it. -/
theorem asciiLower_asciiUpper (h : isUpper c = false) :
    CaseMap.asciiLower (CaseMap.asciiUpper c) = c := by
  cases hl : isLower c with
  | false => rw [asciiUpper_of_not_lower hl, asciiLower_of_not_upper h]
  | true =>
    obtain ⟨hlow, hhigh⟩ := toNat_mem_of_isAsciiLower hl
    have hall : ∀ n < 123, 97 ≤ n →
        CaseMap.asciiLower (CaseMap.asciiUpper (Char.ofNat n)) = Char.ofNat n := by decide
    have hback := hall _ hhigh hlow
    rwa [Char.ofNat_toNat] at hback

/-- A word in lower case: small letters, or digits. -/
structure IsWord (w : List Char) : Prop where
  ne_nil : w ≠ []
  uniform : (∀ c ∈ w, isLower c = true) ∨ ∀ c ∈ w, isDigit c = true

theorem IsWord.isUpper_eq_false (h : IsWord w) : ∀ c ∈ w, isUpper c = false := by
  intro c hc
  rcases h.uniform with h | h
  · exact isUpper_eq_false_of_isLower (h c hc)
  · exact isUpper_eq_false_of_isDigit (h c hc)

theorem IsWord.isWordPart (h : IsWord w) : ∀ c ∈ w, isWordPart c = true := by
  intro c hc
  rcases h.uniform with h | h
  · exact isWordPart_of_isLower c (h c hc)
  · exact isWordPart_of_isDigit c (h c hc)

/-- What is cut off is letters, or it is digits. -/
theorem letters_or_digits (cs : List Char) :
    (∀ c ∈ cs.take (wordLength cs), isLetter c = true) ∨
      ∀ c ∈ cs.take (wordLength cs), isDigit c = true := by
  simp only [wordLength]
  split
  · refine .inl ?_
    split
    · exact all_takeWhile_append (fun c h => isLetter_of_isUpper h)
        (fun c h => isLetter_of_isLower h) cs
    · exact all_take_of_le (fun c h => isLetter_of_isUpper h) (Nat.sub_le _ _)
  · split
    · exact .inl (all_take_of_le (fun c h => isLetter_of_isUpper h) (Nat.le_refl _))
    · exact .inr (all_take_of_le (fun c h => h) (Nat.le_refl _))

/-- In lower case a word is small letters, or digits. -/
theorem isWord_of_mem_rawWords (h : w ∈ rawWords cs) : IsWord (w.map CaseMap.asciiLower) := by
  fun_induction rawWords cs with
  | case1 => cases h
  | case2 c cs _ ih => exact ih h
  | case3 c cs n hn ih =>
    rcases List.mem_cons.1 h with rfl | h
    · have hcut := letters_or_digits (c :: cs)
      rw [hn] at hcut
      refine ⟨by simp, hcut.imp (fun hl => ?_) fun hd => ?_⟩
      · exact List.forall_mem_map.2 fun d h => isLower_asciiLower_of_isLetter (hl d h)
      · refine List.forall_mem_map.2 fun d h => ?_
        rw [asciiLower_of_not_upper (isUpper_eq_false_of_isDigit (hd d h))]
        exact hd d h
    · exact ih h

theorem isWord_of_mem_words {name : String} (h : w ∈ words name) : IsWord w := by
  obtain ⟨raw, hraw, rfl⟩ := List.mem_map.1 h
  exact isWord_of_mem_rawWords hraw

/-- A word starts at every letter and digit, and nowhere else. -/
theorem wordLength_pos_iff : 0 < wordLength (c :: cs) ↔ isWordPart c = true := by
  constructor
  · intro h
    obtain ⟨n, hn⟩ := Nat.exists_eq_add_of_lt h
    refine isWordPart_of_mem_take (c :: cs) c ?_
    rw [hn, Nat.zero_add, List.take_succ_cons]
    exact List.mem_cons_self
  · intro h
    simp only [wordLength]
    cases hu : isUpper c with
    | true =>
      have hpos : 0 < ((c :: cs).takeWhile isUpper).length := by
        rw [List.takeWhile_cons_of_pos hu]
        exact Nat.succ_pos _
      split
      · split <;> omega
      · exact hpos
    | false =>
      have hnone : (c :: cs).takeWhile isUpper = [] :=
        List.takeWhile_cons_of_neg (Bool.eq_false_iff.1 hu)
      simp only [hnone, List.length_nil, List.drop_zero, Nat.zero_le, if_true, Nat.zero_add,
        Nat.lt_irrefl, if_false]
      cases hl : isLower c with
      | true =>
        have hstart : startsLower (c :: cs) = true := hl
        rw [if_pos hstart, List.takeWhile_cons_of_pos hl]
        exact Nat.succ_pos _
      | false =>
        have hstart : ¬startsLower (c :: cs) = true := Bool.eq_false_iff.1 hl
        have hd : isDigit c = true := by
          rw [isWordPart, hu, hl] at h
          exact h
        rw [if_neg hstart, List.takeWhile_cons_of_pos hd]
        exact Nat.succ_pos _

/-- The words hold all letters and digits in order. -/
theorem flatten_rawWords (cs : List Char) : (rawWords cs).flatten = cs.filter isWordPart := by
  fun_induction rawWords cs with
  | case1 => rfl
  | case2 c cs hn ih =>
    have hc : ¬isWordPart c = true := fun h =>
      absurd (wordLength_pos_iff.2 h) (hn ▸ Nat.lt_irrefl 0 : ¬0 < wordLength (c :: cs))
    rw [List.filter_cons_of_neg hc, ih]
  | case3 c cs n hn ih =>
    have hcut := isWordPart_of_mem_take (c :: cs)
    rw [hn] at hcut
    have hsplit : (c :: cs).take (n + 1) ++ cs.drop n = c :: cs :=
      List.take_append_drop (n + 1) (c :: cs)
    calc (((c :: cs).take (n + 1) :: rawWords (cs.drop n)).flatten)
        = (c :: cs).take (n + 1) ++ (cs.drop n).filter isWordPart := by rw [List.flatten_cons, ih]
      _ = ((c :: cs).take (n + 1) ++ cs.drop n).filter isWordPart := by
        rw [List.filter_append, List.filter_eq_self.2 hcut]
      _ = (c :: cs).filter isWordPart := by rw [hsplit]

theorem flatten_words (name : String) :
    (words name).flatten = (name.toList.filter isWordPart).map CaseMap.asciiLower := by
  rw [words, ← flatten_rawWords, List.map_flatten]

/-- No letter or digit comes next. -/
def Ends (rest : List Char) : Prop := ∀ c, rest.head? = some c → isWordPart c = false

theorem takeWhile_run {p : Char → Bool} (hw : ∀ c ∈ w, p c = true)
    (hp : ∀ c, p c = true → isWordPart c = true) (hrest : Ends rest) :
    (w ++ rest).takeWhile p = w := by
  rw [List.takeWhile_append_of_pos hw]
  cases rest with
  | nil => exact List.append_nil w
  | cons c rest =>
    have hc : ¬p c = true := fun h => by
      have hpart := hp c h
      rw [hrest c rfl] at hpart
      cases hpart
    rw [List.takeWhile_cons_of_neg hc, List.append_nil]

/-- Characters of one kind, of which there are some. -/
inductive IsRun : List Char → Prop
  | capitals {c : Char} {w : List Char} (h : ∀ d ∈ c :: w, isUpper d = true) : IsRun (c :: w)
  | letters {c : Char} {w : List Char} (h : ∀ d ∈ c :: w, isLower d = true) : IsRun (c :: w)
  | digits {c : Char} {w : List Char} (h : ∀ d ∈ c :: w, isDigit d = true) : IsRun (c :: w)

/-- A run is cut off as a whole. -/
theorem IsRun.wordLength_append (hw : IsRun w) (hrest : Ends rest) :
    wordLength (w ++ rest) = w.length := by
  have hstart : ¬startsLower rest = true := by
    cases rest with
    | nil => exact Bool.false_ne_true
    | cons c rest =>
      intro h
      have hpart := isWordPart_of_isLower c h
      rw [hrest c rfl] at hpart
      cases hpart
  have hnone {c : Char} {cs : List Char} (h : isUpper c = false) :
      (c :: cs).takeWhile isUpper = [] :=
    List.takeWhile_cons_of_neg (Bool.eq_false_iff.1 h)
  simp only [wordLength]
  cases hw with
  | capitals h =>
    rw [takeWhile_run h isWordPart_of_isUpper hrest, List.drop_left, if_neg hstart]
    exact if_pos (Nat.succ_pos _)
  | @letters c w h =>
    have hl : isLower c = true := h c List.mem_cons_self
    have hlower : startsLower (c :: (w ++ rest)) = true := hl
    rw [List.cons_append, hnone (isUpper_eq_false_of_isLower hl)]
    simp only [List.length_nil, List.drop_zero, if_pos hlower, Nat.zero_le, if_true, Nat.zero_add]
    rw [← List.cons_append, takeWhile_run h isWordPart_of_isLower hrest]
  | @digits c w h =>
    have hd : isDigit c = true := h c List.mem_cons_self
    have hlower : ¬startsLower (c :: (w ++ rest)) = true :=
      Bool.eq_false_iff.1 (isLower_eq_false_of_isDigit hd)
    rw [List.cons_append, hnone (isUpper_eq_false_of_isDigit hd)]
    simp only [List.length_nil, List.drop_zero, if_neg hlower, Nat.lt_irrefl, if_false]
    rw [← List.cons_append, takeWhile_run h isWordPart_of_isDigit hrest]

theorem IsRun.rawWords_append (hw : IsRun w) (hrest : Ends rest) :
    rawWords (w ++ rest) = w :: rawWords rest := by
  have hlength := hw.wordLength_append hrest
  cases w with
  | nil => cases hw
  | cons c w =>
    rw [List.cons_append] at hlength ⊢
    rw [List.length_cons] at hlength
    rw [rawWords, hlength]
    dsimp only
    rw [← List.cons_append, ← List.length_cons (a := c), List.take_left, List.drop_left]

/-- What is no letter and no digit only separates. -/
theorem rawWords_separator (h : isWordPart c = false) : rawWords (c :: cs) = rawWords cs := by
  have hzero : wordLength (c :: cs) = 0 := by
    refine Nat.eq_zero_of_not_pos fun hpos => ?_
    rw [wordLength_pos_iff.1 hpos] at h
    cases h
  rw [rawWords, hzero]

theorem IsWord.isRun (h : IsWord w) : IsRun w := by
  cases w with
  | nil => exact absurd rfl h.ne_nil
  | cons c w => exact h.uniform.elim .letters .digits

end ExportLint.Naming
