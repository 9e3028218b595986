import ExportLint.Proofs.ConventionalNames

/-!
# Names that a declaration can bind

A name that the standard conventions offer starts with a letter or an underscore and goes on with
letters and digits. It can be bound unless it is a reserved word, which the rule does not look at.
It is one exactly if the export is a function or a constant whose name has a single word, and that
word is reserved.
-/
namespace ExportLint

open Naming (isLower isLetter isWordPart IsWord words splitWords)

namespace Naming

/-- Words that no declaration of a module can bind. The last line holds those that are reserved
where the rules are strict, as they are in modules. -/
def reservedWords : List String :=
  ["await", "break", "case", "catch", "class", "const", "continue", "debugger", "default",
    "delete", "do", "else", "enum", "export", "extends", "false", "finally", "for", "function",
    "if", "import", "in", "instanceof", "new", "null", "return", "super", "switch", "this",
    "throw", "true", "try", "typeof", "var", "void", "while", "with", "yield",
    "implements", "interface", "let", "package", "private", "protected", "public", "static"]

/-- Letters, the underscore and the dollar sign. -/
def startsName (c : Char) : Bool :=
  (Text.Letter.isWord c && !isDigit c) || c == '$'

def continuesName (c : Char) : Bool := startsName c || isDigit c

/-- A name that a declaration can bind. -/
def isBindingName (name : String) : Bool :=
  match name.toList with
  | [] => false
  | c :: cs => startsName c && cs.all continuesName && !reservedWords.contains name

variable {c : Char} {w : List Char} {name : String}

theorem startsName_of_isLetter (h : isLetter c = true) : startsName c = true := by
  have halpha : Text.Letter.isAsciiAlpha c = true := h
  rw [startsName, isDigit_eq_false_of_isLetter h, Text.Letter.isWord,
    if_pos (isAscii_of_isLetter h), Text.Letter.isAsciiWord, halpha]
  rfl

theorem continuesName_of_isWordPart (h : isWordPart c = true) : continuesName c = true := by
  rw [continuesName]
  rcases Bool.or_eq_true_iff.1 h with hl | hd
  · rw [startsName_of_isLetter hl, Bool.true_or]
  · have hdigit : isDigit c = true := hd
    rw [hdigit, Bool.or_true]

/-- Reserved words are of small letters only. -/
theorem isLower_of_reserved (h : name ∈ reservedWords) : ∀ c ∈ name.toList, isLower c = true := by
  have hall : (reservedWords.all fun w => w.toList.all isLower) = true := by decide +kernel
  exact List.all_eq_true.1 (List.all_eq_true.1 hall name h)

theorem not_reserved_of_mem (hc : c ∈ name.toList) (h : isLower c = false) :
    name ∉ reservedWords := by
  intro hname
  rw [isLower_of_reserved hname c hc] at h
  cases h

/-- A word with a capital is not of small letters only, and neither is a number. -/
theorem exists_not_lower_capitalize (h : IsWord w) :
    ∃ c ∈ Text.CaseMap.capitalize w, isLower c = false := by
  cases w with
  | nil => exact absurd rfl h.ne_nil
  | cons c w =>
    refine ⟨Text.CaseMap.asciiUpper c, List.mem_cons_self, ?_⟩
    cases hl : isLower c with
    | true => exact isLower_eq_false_of_isUpper (isUpper_asciiUpper hl)
    | false => rwa [asciiUpper_of_not_lower hl]

end Naming

namespace CaseStyle

open Naming

variable {style : CaseStyle} {cs : List Char} {ws : List (List Char)} {name : String}

/-- Without marks between the words there are letters and digits only. -/
theorem isWordPart_of_mem_join (hstyle : style = .camel ∨ style = .pascal)
    (h : ∀ w ∈ ws, IsWord w) : ∀ c ∈ style.join ws, isWordPart c = true := by
  have hcapital {vs : List (List Char)} (hvs : ∀ v ∈ vs, v ∈ ws) :
      ∀ c ∈ vs.flatMap Text.CaseMap.capitalize, isWordPart c = true := by
    intro c hc
    obtain ⟨v, hv, hc⟩ := List.mem_flatMap.1 hc
    exact isWordPart_of_mem_capitalize (h v (hvs v hv)).isWordPart c hc
  rcases hstyle with rfl | rfl
  · refine List.forall_mem_append.2 ⟨fun c hc => ?_, hcapital fun v hv => List.mem_of_mem_drop hv⟩
    obtain ⟨v, hv, hc⟩ := List.mem_flatten.1 hc
    exact (h v (List.mem_of_mem_take hv)).isWordPart c hc
  · exact hcapital fun v hv => hv

theorem join_ne_nil (h : ∀ w ∈ ws, IsWord w) (hne : ws ≠ []) : style.join ws ≠ [] := by
  intro hnil
  have hletters := letters_join h style
  rw [hnil] at hletters
  cases ws with
  | nil => exact hne rfl
  | cons w ws =>
    have hword := (h w List.mem_cons_self).ne_nil
    rw [List.flatten_cons] at hletters
    exact hword (List.append_eq_nil_iff.1 hletters.symm).1

/-- Letters and digits make a name once they are guarded against a digit in front. -/
theorem isBindingName_guardDigit (hne : cs ≠ []) (h : ∀ c ∈ cs, isWordPart c = true) :
    isBindingName (String.ofList (guardDigit cs)) =
      !reservedWords.contains (String.ofList (guardDigit cs)) := by
  obtain ⟨c, rest, hguard, hfirst, hrest⟩ : ∃ c rest, guardDigit cs = c :: rest ∧
      startsName c = true ∧ rest.all continuesName = true := by
    cases cs with
    | nil => exact absurd rfl hne
    | cons c rest =>
      obtain ⟨hc, hrest⟩ := List.forall_mem_cons.1 h
      have hcontinue : ∀ d ∈ rest, continuesName d = true :=
        fun d hd => continuesName_of_isWordPart (hrest d hd)
      rw [guardDigit]
      split
      · exact ⟨'_', c :: rest, rfl, by decide, List.all_eq_true.2
          (List.forall_mem_cons.2 ⟨continuesName_of_isWordPart hc, hcontinue⟩)⟩
      · rename_i hdigit
        have hletter : isLetter c = true := (Bool.or_eq_true_iff.1 hc).resolve_right hdigit
        exact ⟨c, rest, rfl, startsName_of_isLetter hletter, List.all_eq_true.2 hcontinue⟩
  rw [isBindingName, String.toList_ofList, hguard]
  dsimp only
  rw [hfirst, hrest, Bool.true_and, Bool.true_and]

/-- A capital, a second word or a number keeps a name from being reserved. -/
theorem exists_not_lower_join (h : ∀ w ∈ ws, IsWord w)
    (hws : style = .pascal ∧ ws ≠ [] ∨ style = .camel ∧ 2 ≤ ws.length) :
    ∃ c ∈ style.join ws, isLower c = false := by
  cases ws with
  | nil => exact absurd hws (by simp)
  | cons w ws =>
    obtain ⟨hw, hws'⟩ := List.forall_mem_cons.1 h
    rcases hws with ⟨rfl, -⟩ | ⟨rfl, hlength⟩
    · obtain ⟨c, hc, hl⟩ := exists_not_lower_capitalize hw
      exact ⟨c, List.mem_append_left _ hc, hl⟩
    · cases ws with
      | nil => exact absurd hlength (by simp)
      | cons v ws =>
        rw [join, leading]
        split
        · rename_i hdigits
          cases w with
          | nil => exact absurd rfl hw.ne_nil
          | cons c w =>
            exact ⟨c, by simp, isLower_eq_false_of_isDigit
              (List.all_eq_true.1 hdigits c List.mem_cons_self)⟩
        · obtain ⟨c, hc, hl⟩ := exists_not_lower_capitalize (hws' v List.mem_cons_self)
          exact ⟨c, by simp [hc], hl⟩

/-- A guarded number is not reserved, and neither is a number. -/
theorem reserved_guardDigit_iff :
    String.ofList (guardDigit cs) ∈ reservedWords ↔ String.ofList cs ∈ reservedWords := by
  rw [guardDigit]
  split
  · rename_i hdigit
    obtain ⟨c, hc, hd⟩ := (Option.any_eq_true ..).1 hdigit
    have hmem : c ∈ (String.ofList cs).toList := by
      rw [String.toList_ofList]
      exact List.mem_of_mem_head? hc
    have hmark : '_' ∈ (String.ofList ('_' :: cs)).toList := by
      rw [String.toList_ofList]
      exact List.mem_cons_self
    exact iff_of_false (not_reserved_of_mem hmark (by decide))
      (not_reserved_of_mem hmem (isLower_eq_false_of_isDigit hd))
  · exact Iff.rfl

/-- A name in a style without marks is reserved exactly if the style is camel case and the name has
a single word, which is reserved. -/
theorem reserved_apply_iff (hstyle : style = .camel ∨ style = .pascal) (hne : words name ≠ []) :
    style.apply name ∈ reservedWords ↔
      style = .camel ∧ ∃ w, splitWords name = [w] ∧ w ∈ reservedWords := by
  have hword : ∀ w ∈ words name, IsWord w := fun w hw => isWord_of_mem_words hw
  rw [apply_of_words hne, reserved_guardDigit_iff]
  constructor
  · intro hreserved
    have hlower : ¬∃ c ∈ style.join (words name), isLower c = false := by
      rintro ⟨c, hc, hl⟩
      rw [← String.toList_ofList (l := style.join (words name))] at hc
      exact not_reserved_of_mem hc hl hreserved
    obtain rfl : style = .camel :=
      hstyle.resolve_right fun hp => hlower (exists_not_lower_join hword (.inl ⟨hp, hne⟩))
    have hone : ¬2 ≤ (words name).length :=
      fun h => hlower (exists_not_lower_join hword (.inr ⟨rfl, h⟩))
    obtain ⟨w, hw⟩ : ∃ w, words name = [w] :=
      List.length_eq_one_iff.1 (by have := List.length_pos_iff.2 hne; omega)
    rw [hw] at hreserved
    refine ⟨rfl, String.ofList w, by rw [splitWords, hw, List.map_singleton], ?_⟩
    simpa [join, leading] using hreserved
  · rintro ⟨rfl, s, hs, hreserved⟩
    obtain ⟨w, hw, rfl⟩ := List.map_eq_singleton_iff.1 hs
    rw [hw]
    simpa [join, leading] using hreserved

end CaseStyle

namespace Rule

variable {c : Context} {file : String} {es : List Export} {found : List Finding}

theorem camel_standard_iff (kind : ExportKind) :
    (Conventions.standard.forKind kind).style = .camel ↔ kind = .function ∨ kind = .constant := by
  cases kind <;> simp [Conventions.standard, Conventions.forKind, Conventions.capitalized]

/-- Under the standard conventions, whatever patterns the options set, a name that is offered can be
bound by a declaration exactly if it is not that of a function or a constant with a single word that
is reserved. -/
theorem offered_name_binds_iff (hc : c.conventions = .standard)
    (h : namesFollowConventions c file es = .ok found) :
    (∀ x, x ∈ found ↔ ∃ e ∈ es, namingFinding c file e = .ok (some x)) ∧
      ∀ e ∈ es, ∀ x, namingFinding c file e = .ok (some x) → x.autoFixable = true →
        x.IsOn file e ∧ ∃ name, x.metadata.get? "suggestedName" = some (.str name) ∧
          (Naming.isBindingName name = true ↔ ¬((e.kind = .function ∨ e.kind = .constant) ∧
            ∃ w, splitWords e.name = [w] ∧ w ∈ Naming.reservedWords)) := by
  refine ⟨fun x => mem_namesFollowConventions_iff h, fun e _ x hx hauto => ?_⟩
  obtain ⟨pattern, -, hon, -, hfix, hname, -⟩ := namingFinding_spec hx
  refine ⟨hon, _, hname hauto, ?_⟩
  have hother := (hfix.1 hauto).1
  have hstyle := style_standard e.kind
  rw [← camel_standard_iff, styledName, hc] at *
  have hne : words e.name ≠ [] := fun hnil => hother (CaseStyle.apply_of_no_words hnil _)
  have hword : ∀ w ∈ words e.name, IsWord w := fun w hw => Naming.isWord_of_mem_words hw
  rw [← CaseStyle.reserved_apply_iff hstyle hne, CaseStyle.apply_of_words hne,
    CaseStyle.isBindingName_guardDigit (CaseStyle.join_ne_nil hword hne)
      (CaseStyle.isWordPart_of_mem_join hstyle hword)]
  simp

/-- A function whose name is a reserved word with a capital. -/
def deleteExport : Export where
  file := "proj/a.ts"
  name := "Delete"
  form := .named
  kind := .function
  location := ⟨"proj/a.ts", 1, 17, 1, 34⟩

/-- The reserved word is offered as its name. -/
theorem deleteExport_offered_reserved :
    ∃ found, namesFollowConventions namingContext "proj/a.ts" [deleteExport] = .ok found ∧
      Naming.isBindingName deleteExport.name = true ∧
      ∃ x ∈ found, x.IsOn "proj/a.ts" deleteExport ∧ x.autoFixable = true ∧ ∃ name,
        x.metadata.get? "suggestedName" = some (.str name) ∧
          Naming.isBindingName name = false := by
  obtain ⟨found, hfound⟩ :=
    usesConventions_namingContext.exists_found rfl "proj/a.ts" [deleteExport]
  obtain ⟨hmem, hbinds⟩ := offered_name_binds_iff rfl hfound
  have hreported : (namingFinding namingContext "proj/a.ts" deleteExport).toOption.any
      (·.any (·.autoFixable)) = true := by decide +kernel
  obtain ⟨reported, hx, hsome⟩ := toOption_any_iff.1 hreported
  obtain ⟨x, rfl, hauto⟩ := (Option.any_eq_true ..).1 hsome
  have he : deleteExport ∈ [deleteExport] := List.mem_singleton_self _
  obtain ⟨hon, name, hname, hiff⟩ := hbinds _ he x hx hauto
  refine ⟨found, hfound, by decide +kernel, x, (hmem x).2 ⟨_, he, hx⟩, hon, hauto, name, hname, ?_⟩
  refine Bool.eq_false_iff.2 fun hb => hiff.1 hb ⟨.inl rfl, "delete", by decide +kernel, ?_⟩
  decide

end Rule

end ExportLint
