import ExportLint.Proofs.NameWords

/-!
# Digits have no case

A table of changes holds the characters between an opening change and the closing one that follows
it. No range of digits meets a run of characters that have a small form, so a text of ASCII letters
and of digits is put in lower case letter by letter.
-/
namespace ExportLint.Text

namespace Letter

/-- The ranges of a table: from each opening change up to the closing one. -/
def ranges : List Nat → List (Nat × Nat)
  | first :: stop :: changes => (first, stop) :: ranges changes
  | _ => []

/-- A character with an odd number of changes at or below it is in a range. -/
theorem exists_range {n : Nat} {changes : List Nat} (heven : changes.length % 2 = 0)
    (h : changes.foldl (fun odd k => if k ≤ n then !odd else odd) false = true) :
    ∃ r ∈ ranges changes, (r.1 ≤ n ∧ n < r.2) ∨ (r.2 ≤ n ∧ n < r.1) := by
  fun_induction ranges changes with
  | case1 first stop changes ih =>
    have hrest : changes.length % 2 = 0 := by
      rw [List.length_cons, List.length_cons] at heven
      omega
    simp only [List.foldl_cons, Bool.not_false] at h
    by_cases hfirst : first ≤ n <;> by_cases hstop : stop ≤ n <;>
      simp only [hfirst, hstop, if_true, if_false, Bool.not_true, Bool.not_false] at h
    · obtain ⟨r, hr, hn⟩ := ih hrest h
      exact ⟨r, List.mem_cons_of_mem _ hr, hn⟩
    · exact ⟨(first, stop), List.mem_cons_self, .inl ⟨hfirst, Nat.lt_of_not_le hstop⟩⟩
    · exact ⟨(first, stop), List.mem_cons_self, .inr ⟨hstop, Nat.lt_of_not_le hfirst⟩⟩
    · obtain ⟨r, hr, hn⟩ := ih hrest h
      exact ⟨r, List.mem_cons_of_mem _ hr, hn⟩
  | case2 changes hshort =>
    cases changes with
    | nil => cases h
    | cons first changes =>
      cases changes with
      | nil => cases heven
      | cons stop changes => exact absurd rfl (hshort first stop changes)

end Letter

namespace CaseMap

variable {c : Char}

/-- The ranges of digits beyond ASCII stand behind the capitals whose small forms depend on their
place or are of two characters, and no run of characters with a small form meets them. -/
theorem range_of_decimal {r : Nat × Nat} (hr : r ∈ Letter.ranges Letter.Table.decimal.toList) :
    931 < r.1 ∧ r.1 < r.2 ∧ ∀ run ∈ Table.lower, run.last < r.1 ∨ r.2 ≤ run.first := by
  have hall : ((Letter.ranges Letter.Table.decimal.toList).all fun r =>
      Nat.blt 931 r.1 && (r.1.blt r.2 &&
        Table.lower.toList.all fun run => run.last.blt r.1 || r.2.ble run.first)) = true := by
    decide +kernel
  have hr := List.all_eq_true.1 hall r hr
  simp only [Bool.and_eq_true, Nat.blt_eq, List.all_eq_true, Array.mem_toList_iff,
    Bool.or_eq_true, Nat.ble_eq] at hr
  exact hr

theorem exists_range_of_decimal (h : Letter.within Letter.Table.decimal c = true) :
    ∃ r ∈ Letter.ranges Letter.Table.decimal.toList, r.1 ≤ c.toNat ∧ c.toNat < r.2 := by
  rw [Letter.within, ← Array.foldl_toList] at h
  obtain ⟨r, hr, hc⟩ := Letter.exists_range (by decide +kernel) h
  have hpair := (range_of_decimal hr).2.1
  exact ⟨r, hr, hc.resolve_right (by omega)⟩

theorem mapWith_lower_of_decimal (h : Letter.within Letter.Table.decimal c = true) :
    mapWith Table.lower c = c := by
  obtain ⟨r, hr, hc⟩ := exists_range_of_decimal h
  have hnone : Table.lower.findSome? (·.map? c.toNat) = none := by
    rw [Array.findSome?_eq_none_iff]
    intro run hrun
    have hapart := (range_of_decimal hr).2.2 run hrun
    exact if_neg (by omega)
  rw [mapWith, hnone]
  rfl

/-- What a word is made of is ASCII, or it is a digit of the tables. -/
theorem ascii_or_decimal (h : Naming.isWordPart c = true) : Letter.isAscii c = true ∨
    Naming.isDigit c = true ∧ Letter.within Letter.Table.decimal c = true := by
  cases hascii : Letter.isAscii c with
  | true => exact .inl rfl
  | false =>
    refine .inr ?_
    have hletter : ¬Naming.isLetter c = true := fun hl => by
      rw [Naming.isAscii_of_isLetter hl] at hascii
      cases hascii
    have hdigit : Naming.isDigit c = true := (Bool.or_eq_true_iff.1 h).resolve_left hletter
    refine ⟨hdigit, ?_⟩
    rwa [Naming.isDigit, Letter.isDigit, if_neg (Bool.eq_false_iff.1 hascii)] at hdigit

/-- Letters of ASCII and digits have at most their ASCII form in lower case. -/
theorem lowerChar_wordPart (h : Naming.isWordPart c = true) : lowerChar c = asciiLower c := by
  rw [lowerChar]
  split
  · rfl
  · rename_i hascii
    obtain ⟨hdigit, hdecimal⟩ := (ascii_or_decimal h).resolve_left hascii
    rw [mapWith_lower_of_decimal hdecimal,
      Naming.asciiLower_of_not_upper (Naming.isUpper_eq_false_of_isDigit hdigit)]

theorem toNat_lt_or_lt (h : Naming.isWordPart c = true) : c.toNat < 128 ∨ 931 < c.toNat := by
  refine (ascii_or_decimal h).imp of_decide_eq_true fun ⟨_, hdecimal⟩ => ?_
  obtain ⟨r, hr, hc⟩ := exists_range_of_decimal hdecimal
  have hlow := (range_of_decimal hr).1
  omega

/-- A text of ASCII letters and of digits is put in lower case letter by letter. -/
theorem lowerFrom_wordParts {cs : List Char} (h : ∀ c ∈ cs, Naming.isWordPart c = true)
    (before : Option Char) : lowerFrom before cs = cs.map asciiLower := by
  induction cs generalizing before with
  | nil => rfl
  | cons c cs ih =>
    obtain ⟨hc, hcs⟩ := List.forall_mem_cons.1 h
    have hcode := toNat_lt_or_lt hc
    have hsigma : ¬(c.toNat = 931 ∧ before.any Letter.isCased = true ∧
        (nextOf cs).any Letter.isCased = false) := by omega
    have hdotted : c.toNat ≠ 304 := by omega
    rw [lowerFrom, ih hcs, lowerBetween, if_neg hsigma, lowerOf, if_neg hdotted,
      lowerChar_wordPart hc]
    rfl

end CaseMap

end ExportLint.Text
