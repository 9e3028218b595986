import Mathlib.Logic.Basic
import ExportLint.Proofs.ConventionalNames

/-!
# Characters that a rename keeps

The words of a name are made of ASCII letters and of digits, and a name that is offered is made of
these words. So it has the same letters and digits as the old one, up to case, exactly if the old one
has no letters but those of ASCII. Nothing but separators is dropped exactly if the old name holds
nothing else beside its words.
-/
namespace ExportLint

namespace Text

variable {c : Char}

/-- A blank beyond ASCII lies in a range that meets no range of digits. -/
theorem Letter.not_blank_of_decimal (h : within Table.decimal c = true) :
    within Table.blank c = false := by
  have hapart : ((ranges Table.blank.toList).all fun b => b.1.blt b.2 &&
      (ranges Table.decimal.toList).all fun r => b.2.ble r.1 || r.2.ble b.1) = true := by
    decide +kernel
  obtain ⟨r, hr, hlow, hhigh⟩ := CaseMap.exists_range_of_decimal h
  refine Bool.eq_false_iff.2 fun hblank => ?_
  rw [within, ← Array.foldl_toList] at hblank
  obtain ⟨b, hb, hin⟩ := exists_range (by decide) hblank
  have hpair := List.all_eq_true.1 hapart b hb
  simp only [Bool.and_eq_true, Nat.blt_eq, List.all_eq_true, Bool.or_eq_true, Nat.ble_eq] at hpair
  have hmiss := hpair.2 r hr
  omega

namespace CaseMap

/-- Lower case makes no text shorter. -/
theorem length_le_lowerFrom (before : Option Char) (cs : List Char) :
    cs.length ≤ (lowerFrom before cs).length := by
  have hone (before : Option Char) (behind : List Char) (c : Char) :
      1 ≤ (lowerBetween before behind c).length := by
    unfold lowerBetween lowerOf
    split
    · exact Nat.le_refl 1
    · split <;> simp
  induction cs generalizing before with
  | nil => exact Nat.le_refl 0
  | cons c cs ih =>
    have hhead := hone before cs c
    have htail := ih (lastOf before c)
    simp only [lowerFrom, List.length_append, List.length_cons]
    omega

end CaseMap

end Text

namespace Naming

variable {c : Char} {p : Char → Bool} {name : String}

/-- Letters, digits and other numeric characters of any script. -/
def isLetterOrDigit (c : Char) : Bool := Text.Letter.isWord c && c != '_' || isDigit c

/-- Characters that stand between the words of a name. -/
def isSeparator (c : Char) : Bool := c == '_' || c == '-' || c == '$' || Text.Letter.isBlank c

/-- The characters of a class, in lower case. -/
def caseless (p : Char → Bool) (name : String) : String :=
  Text.CaseMap.lower (String.ofList (name.toList.filter p))

theorem isLetterOrDigit_of_isWordPart (h : isWordPart c = true) : isLetterOrDigit c = true := by
  rw [isLetterOrDigit]
  rcases Bool.or_eq_true_iff.1 h with hl | hd
  · have halpha : Text.Letter.isAsciiAlpha c = true := hl
    have hmark : (c != '_') = true := bne_iff_ne.2 fun hc => by
      rw [hc] at hl
      cases hl
    rw [Text.Letter.isWord, if_pos (isAscii_of_isLetter hl), Text.Letter.isAsciiWord, halpha, hmark]
    rfl
  · have hdigit : isDigit c = true := hd
    rw [hdigit, Bool.or_true]

theorem le_toNat_of_isWordPart (h : isWordPart c = true) : 48 ≤ c.toNat := by
  rcases Bool.or_eq_true_iff.1 h with hl | hd
  · have := toNat_mem_of_isLetter hl
    omega
  · cases hascii : Text.Letter.isAscii c with
    | true =>
      have hdigit : isDigit c = true := hd
      rw [isDigit, Text.Letter.isDigit, if_pos hascii] at hdigit
      simp only [Text.Letter.isAsciiDigit, Bool.and_eq_true, decide_eq_true_iff, Char.le_def,
        UInt32.le_iff_toNat_le] at hdigit
      exact hdigit.1
    | false =>
      have := of_decide_eq_false hascii
      omega

theorem isSeparator_of_isWordPart (h : isWordPart c = true) : isSeparator c = false := by
  have hmark : c ≠ '_' ∧ c ≠ '-' ∧ c ≠ '$' := by
    refine ⟨?_, ?_, ?_⟩ <;> rintro rfl <;> cases h
  have hblank : Text.Letter.isBlank c = false := by
    have hcode := le_toNat_of_isWordPart h
    rw [Text.Letter.isBlank]
    split
    · rw [Text.Letter.isAsciiBlank, Bool.or_eq_false_iff, Bool.and_eq_false_iff,
        Bool.and_eq_false_iff]
      exact ⟨.inr (decide_eq_false (by omega)), .inr (decide_eq_false (by omega))⟩
    · rename_i hascii
      exact Text.Letter.not_blank_of_decimal
        ((Text.CaseMap.ascii_or_decimal h).resolve_left hascii).2
  simp [isSeparator, hmark, hblank]

/-- Letters and digits alone are put in lower case letter by letter. -/
theorem lower_filter_isWordPart (cs : List Char) :
    Text.CaseMap.lower (String.ofList (cs.filter isWordPart)) = String.ofList (letters cs) := by
  rw [Text.CaseMap.lower, String.toList_ofList,
    Text.CaseMap.lowerFrom_wordParts fun c hc => (List.mem_filter.1 hc).2, letters]

/-- What a class with all letters and digits of words holds of a name is its words exactly if the
class holds nothing else of the name. A text with more characters is longer in lower case, too. -/
theorem caseless_eq_iff (hparts : ∀ c, isWordPart c = true → p c = true) :
    caseless p name = String.ofList (letters name.toList) ↔
      ∀ c ∈ name.toList, p c = true → isWordPart c = true := by
  constructor
  · intro hsame
    have hlower := Text.CaseMap.length_le_lowerFrom none (name.toList.filter p)
    have hlength : (Text.CaseMap.lowerFrom none (name.toList.filter p)).length =
        (name.toList.filter isWordPart).length := by
      rw [caseless, Text.CaseMap.lower, String.toList_ofList, String.ofList_inj] at hsame
      rw [hsame, letters, List.length_map]
    have hsub : (name.toList.filter p).filter isWordPart = name.toList.filter isWordPart := by
      rw [List.filter_filter]
      refine List.filter_congr fun c _ => ?_
      cases hpart : isWordPart c with
      | true => exact (hparts c hpart).symm ▸ rfl
      | false => rfl
    have hall : ∀ c ∈ name.toList.filter p, isWordPart c = true := by
      have hless := List.length_filter_le isWordPart (name.toList.filter p)
      rw [← List.length_filter_eq_length_iff]
      rw [hsub] at hless ⊢
      omega
    exact fun c hc hp => hall c (List.mem_filter.2 ⟨hc, hp⟩)
  · intro hall
    have hsame : name.toList.filter p = name.toList.filter isWordPart :=
      List.filter_congr fun c hc => Bool.eq_iff_iff.2 ⟨hall c hc, hparts c⟩
    rw [caseless, hsame, lower_filter_isWordPart]

/-- Without underscores and hyphens such a class holds nothing of a styled name but its words. -/
theorem caseless_apply (hparts : ∀ c, isWordPart c = true → p c = true)
    (hmarks : p '_' = false ∧ p '-' = false) (hwords : words name ≠ []) (style : CaseStyle) :
    caseless p (style.apply name) = String.ofList (letters name.toList) := by
  have hfilter : (style.apply name).toList.filter p =
      (style.apply name).toList.filter isWordPart := by
    refine List.filter_congr fun c hc => ?_
    cases hpart : isWordPart c with
    | true => exact hparts c hpart
    | false =>
      have hout : c ∉ (style.apply name).toList.filter isWordPart := fun hin =>
        Bool.eq_false_iff.1 hpart (List.mem_filter.1 hin).2
      rw [← CaseStyle.filter_marks_apply hwords, List.mem_filter, not_and] at hout
      have hmark : c = '_' ∨ c = '-' := by
        simpa only [Bool.and_eq_true, bne_iff_ne, not_and_or, not_not] using hout hc
      rcases hmark with rfl | rfl
      · exact hmarks.1
      · exact hmarks.2
  rw [caseless, hfilter, lower_filter_isWordPart, CaseStyle.letters_apply]

end Naming

namespace Rule

open Naming (isLetterOrDigit isSeparator isWordPart caseless words)

variable {c : Context} {file : String} {es : List Export} {found : List Finding}

/-- Under any conventions, a name that is offered has the letters and the digits of the old one, up
to case, exactly if the old one has no letters or digits but ASCII letters and decimal digits. And it
has all characters of the old one but separators, up to case, exactly if the old one has no others. -/
theorem offered_name_keeps_characters_iff (h : namesFollowConventions c file es = .ok found) :
    (∀ x, x ∈ found ↔ ∃ e ∈ es, namingFinding c file e = .ok (some x)) ∧
      ∀ e ∈ es, ∀ x, namingFinding c file e = .ok (some x) → x.autoFixable = true →
        x.IsOn file e ∧ ∃ name, x.metadata.get? "suggestedName" = some (.str name) ∧
          (caseless isLetterOrDigit name = caseless isLetterOrDigit e.name ↔
            ∀ d ∈ e.name.toList, isLetterOrDigit d = true → isWordPart d = true) ∧
          (caseless (!isSeparator ·) name = caseless (!isSeparator ·) e.name ↔
            ∀ d ∈ e.name.toList, isSeparator d = false → isWordPart d = true) := by
  refine ⟨fun x => mem_namesFollowConventions_iff h, fun e _ x hx hauto => ?_⟩
  obtain ⟨pattern, -, hon, -, hfix, hname, -⟩ := namingFinding_spec hx
  have hwords : words e.name ≠ [] := CaseStyle.words_ne_nil_of_apply_ne (hfix.1 hauto).1
  refine ⟨hon, _, hname hauto, ?_, ?_⟩
  · rw [styledName, Naming.caseless_apply (fun _ => Naming.isLetterOrDigit_of_isWordPart)
      (by decide) hwords, eq_comm]
    exact Naming.caseless_eq_iff fun _ => Naming.isLetterOrDigit_of_isWordPart
  · have hparts : ∀ d, isWordPart d = true → (!isSeparator d) = true := fun d hd => by
      rw [Naming.isSeparator_of_isWordPart hd]
      rfl
    rw [styledName, Naming.caseless_apply hparts (by decide) hwords, eq_comm,
      Naming.caseless_eq_iff hparts]
    simp only [Bool.not_eq_true']

/-- A function with an accent in its name. -/
def accentedExport : Export where
  file := "proj/a.ts"
  name := "café_bar"
  form := .named
  kind := .function
  location := ⟨"proj/a.ts", 1, 17, 1, 37⟩

/-- The name that is offered lacks the letter with the accent. -/
theorem accentedExport_loses_letter :
    ∃ found, namesFollowConventions namingContext "proj/a.ts" [accentedExport] = .ok found ∧
      ∃ x ∈ found, x.IsOn "proj/a.ts" accentedExport ∧ x.autoFixable = true ∧ ∃ name,
        x.metadata.get? "suggestedName" = some (.str name) ∧
          caseless isLetterOrDigit name ≠ caseless isLetterOrDigit accentedExport.name := by
  obtain ⟨found, hfound⟩ :=
    usesConventions_namingContext.exists_found rfl "proj/a.ts" [accentedExport]
  obtain ⟨hmem, hkept⟩ := offered_name_keeps_characters_iff hfound
  have hreported : (namingFinding namingContext "proj/a.ts" accentedExport).toOption.any
      (·.any (·.autoFixable)) = true := by decide +kernel
  obtain ⟨reported, hx, hsome⟩ := toOption_any_iff.1 hreported
  obtain ⟨x, rfl, hauto⟩ := (Option.any_eq_true ..).1 hsome
  have he : accentedExport ∈ [accentedExport] := List.mem_singleton_self _
  obtain ⟨hon, name, hname, hiff, -⟩ := hkept _ he x hx hauto
  refine ⟨found, hfound, x, (hmem x).2 ⟨_, he, hx⟩, hon, hauto, name, hname, fun hsame => ?_⟩
  have hletter : isLetterOrDigit 'é' = true := by
    rw [isLetterOrDigit, Text.Letter.isWord, Text.Letter.within, ← Array.foldl_toList]
    decide +kernel
  have hpart : isWordPart 'é' = true := hiff.1 hsame 'é' (by decide +kernel) hletter
  exact absurd hpart (by decide +kernel)

end Rule

end ExportLint
