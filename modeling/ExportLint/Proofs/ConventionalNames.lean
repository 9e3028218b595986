import ExportLint.Naming.Key
import ExportLint.Proofs.AnalyzedIssues
import ExportLint.Proofs.PatternStretches
import ExportLint.Proofs.RestyledNames
import ExportLint.Proofs.RuleOptions

/-!
# Names under the standard conventions

The standard patterns ask for a first letter of one case and for ASCII letters and digits behind it.
The style of each kind gives such a name whenever the first word begins with a letter and there are
no digits of other scripts. So every name of this form that is reported comes with another one that
the pattern of its kind accepts.
-/
namespace ExportLint

namespace Pattern

variable {lead rest : List ClassItem} {c : Char} {cs : List Char}

/-- A first character of one class and any number of another. -/
def nameOf (lead rest : List ClassItem) : Pattern :=
  .seq (.seq (.seq (.seq .empty (.anchor {} .lineStart)) (.cls {} false lead))
    (.rep 0 none .most (.cls {} false rest))) (.anchor {} .lineEnd)

/-- Such a pattern matches a text of these characters from its start on. -/
theorem run_nameOf (hc : classMatches {} false lead c = true)
    (hcs : ∀ d ∈ cs, classMatches {} false rest d = true) :
    (run (nameOf lead rest) some ⟨[], c :: cs, []⟩).isSome = true := by
  have hend (s : Position) : (run (.anchor {} .lineEnd) some (s.behind cs [])).isSome = true := rfl
  have hrest (s : Position) (hs : s.after = cs) : (run (.rep 0 none .most (.cls {} false rest))
      (run (.anchor {} .lineEnd) some) s).isSome = true :=
    (takes_star rfl _ s).2 ⟨cs, [], by rw [hs, List.append_nil], hcs, hend s⟩
  exact (takes_step (classMatches {} false lead) _ ⟨[], c :: cs, []⟩).2
    ⟨[c], cs, rfl, ⟨c, hc, rfl⟩, hrest _ rfl⟩

theorem occursIn_of_run {p : Pattern} {text : String} {cs : List Char} (ht : text.toList = c :: cs)
    (h : (run p some ⟨[], c :: cs, []⟩).isSome = true) : p.occursIn text = true := by
  rw [occursIn, ht, searchFrom, Option.isSome_or, h, Bool.true_or]

theorem run_alt {p q : Pattern} {k : Next} {s : Position} (h : (run q k s).isSome = true) :
    (run (.alt p q) k s).isSome = true := by
  rw [run, Option.isSome_or, h, Bool.or_true]

theorem run_alt_left {p q : Pattern} {k : Next} {s : Position} (h : (run p k s).isSome = true) :
    (run (.alt p q) k s).isSome = true := by
  rw [run, Option.isSome_or, h, Bool.true_or]

def capitals : List ClassItem := [.range 65 90]

def smallLetters : List ClassItem := [.range 97 122]

def lettersAndDigits : List ClassItem := [.range 97 122, .range 65 90, .range 48 57]

end Pattern

open Naming (isUpper isLower isLetter isDigit isAlnum words)

namespace CaseStyle

/-- The case of the first letter of a name in a style without marks. -/
def leads : CaseStyle → Char → Bool
  | .pascal => isUpper
  | _ => isLower

end CaseStyle

namespace Conventions

/-- The pattern that is read for the names of a kind. -/
def patternOf : ExportKind → Pattern
  | .interface =>
    .alt (.seq (.seq (.seq (.seq (.seq .empty (.anchor {} .lineStart)) (.char {} 73))
        (.cls {} false Pattern.capitals)) (.rep 0 none .most (.cls {} false
          Pattern.lettersAndDigits))) (.anchor {} .lineEnd))
      (.nameOf Pattern.capitals Pattern.lettersAndDigits)
  | .typeAlias | .component | .classDef => .nameOf Pattern.capitals Pattern.lettersAndDigits
  | .function => .nameOf Pattern.smallLetters Pattern.lettersAndDigits
  | .constant =>
    .alt (.nameOf Pattern.capitals [.range 65 90, .range 48 57, .char 95])
      (.alt (.nameOf Pattern.smallLetters Pattern.lettersAndDigits)
        (.nameOf Pattern.capitals Pattern.lettersAndDigits))

theorem read_standard (kind : ExportKind) :
    Pattern.read (standard.forKind kind).pattern = .ok (patternOf kind) := by
  have hread : (Pattern.read (standard.forKind kind).pattern).toOption.any
      (· = patternOf kind) = true := by
    cases kind <;> decide +kernel
  obtain ⟨p, hp, heq⟩ := toOption_any_iff.1 hread
  rw [hp, of_decide_eq_true heq]

variable {first : Char} {rest : List Char}

theorem classMatches_capitals (h : isUpper first = true) :
    Pattern.classMatches {} false Pattern.capitals first = true := by
  obtain ⟨hlow, hhigh⟩ := Naming.toNat_mem_of_isAsciiUpper h
  have hle : first.toNat ≤ 90 := by omega
  simp [Pattern.classMatches, Pattern.capitals, Pattern.ClassItem.holds, Pattern.rangeMatches,
    hlow, hle]

theorem classMatches_smallLetters (h : isLower first = true) :
    Pattern.classMatches {} false Pattern.smallLetters first = true := by
  obtain ⟨hlow, hhigh⟩ := Naming.toNat_mem_of_isAsciiLower h
  have hle : first.toNat ≤ 122 := by omega
  simp [Pattern.classMatches, Pattern.smallLetters, Pattern.ClassItem.holds, Pattern.rangeMatches,
    hlow, hle]

theorem classMatches_lettersAndDigits (h : isAlnum first = true) :
    Pattern.classMatches {} false Pattern.lettersAndDigits first = true := by
  simp only [isAlnum, Text.Letter.isAsciiAlpha, Text.Letter.isAsciiUpper, Text.Letter.isAsciiLower,
    Text.Letter.isAsciiDigit, Bool.or_eq_true, Bool.and_eq_true, decide_eq_true_iff, Char.le_def,
    UInt32.le_iff_toNat_le] at h
  simp only [Pattern.classMatches, Pattern.lettersAndDigits, Pattern.ClassItem.holds,
    Pattern.rangeMatches, List.any_cons, List.any_nil, Bool.or_false, bne_iff_ne, ne_eq,
    Bool.not_eq_false, Bool.or_eq_true, Bool.and_eq_true, decide_eq_true_iff, if_false,
    Bool.false_eq_true]
  rcases h with (h | h) | h
  · exact .inr (.inl h)
  · exact .inl h
  · exact .inr (.inr h)

/-- The pattern of a kind accepts a name of ASCII letters and digits whose first letter has the case
that the style of the kind gives it. -/
theorem occurs_standard (kind : ExportKind)
    (hfirst : (standard.forKind kind).style.leads first = true)
    (hrest : ∀ d ∈ rest, isAlnum d = true) :
    Rule.occurs (standard.forKind kind).pattern (String.ofList (first :: rest)) = .ok true := by
  have hclass := fun d hd => classMatches_lettersAndDigits (hrest d hd)
  have hmatch : (Pattern.run (patternOf kind) some ⟨[], first :: rest, []⟩).isSome = true := by
    cases kind with
    | interface =>
      exact Pattern.run_alt (Pattern.run_nameOf (classMatches_capitals hfirst) hclass)
    | typeAlias => exact Pattern.run_nameOf (classMatches_capitals hfirst) hclass
    | classDef => exact Pattern.run_nameOf (classMatches_capitals hfirst) hclass
    | component => exact Pattern.run_nameOf (classMatches_capitals hfirst) hclass
    | function => exact Pattern.run_nameOf (classMatches_smallLetters hfirst) hclass
    | constant =>
      exact Pattern.run_alt (Pattern.run_alt_left
        (Pattern.run_nameOf (classMatches_smallLetters hfirst) hclass))
  rw [Rule.occurs, read_standard]
  exact congrArg Except.ok (Pattern.occursIn_of_run (String.toList_ofList ..) hmatch)

end Conventions

namespace Naming

variable {name : String} {c : Char} {w : List Char}

/-- The first word of a name begins with a letter. -/
def startsWithLetter (name : String) : Bool :=
  (words name).head?.any fun w => w.head?.any isLetter

/-- All digits of a name are in ASCII. -/
def hasAsciiDigits (name : String) : Bool :=
  name.toList.all fun d => !isDigit d || Text.Letter.isAsciiDigit d

theorem isAlnum_of_isLetter (h : isLetter c = true) : isAlnum c = true := by
  have halpha : Text.Letter.isAsciiAlpha c = true := h
  rw [isAlnum, halpha, Bool.true_or]

theorem isAlnum_of_mem_words (hd : hasAsciiDigits name = true) (hw : w ∈ words name) :
    ∀ c ∈ w, isAlnum c = true := by
  intro c hc
  have hmem : c ∈ (words name).flatten := List.mem_flatten.2 ⟨w, hw, hc⟩
  rw [flatten_words] at hmem
  obtain ⟨d, hd', rfl⟩ := List.mem_map.1 hmem
  obtain ⟨hname, hpart⟩ := List.mem_filter.1 hd'
  rcases Bool.or_eq_true_iff.1 hpart with hl | hdigit
  · exact isAlnum_of_isLetter (isLetter_of_isLower (isLower_asciiLower_of_isLetter hl))
  · have hascii := List.all_eq_true.1 hd d hname
    rw [hdigit, Bool.not_true, Bool.false_or] at hascii
    rw [asciiLower_of_not_upper (isUpper_eq_false_of_isDigit hdigit), isAlnum, hascii,
      Bool.or_true]

theorem isAlnum_asciiUpper (h : isAlnum c = true) :
    isAlnum (Text.CaseMap.asciiUpper c) = true := by
  cases hl : isLower c with
  | false => rwa [asciiUpper_of_not_lower hl]
  | true => exact isAlnum_of_isLetter (isLetter_of_isUpper (isUpper_asciiUpper hl))

theorem isAlnum_asciiLower (h : isAlnum c = true) :
    isAlnum (Text.CaseMap.asciiLower c) = true := by
  cases hu : isUpper c with
  | false => rwa [asciiLower_of_not_upper hu]
  | true => exact isAlnum_of_isLetter (isLetter_of_isLower (isLower_asciiLower hu))

theorem isAlnum_capitalize (h : ∀ c ∈ w, isAlnum c = true) :
    ∀ c ∈ Text.CaseMap.capitalize w, isAlnum c = true := by
  cases w with
  | nil => exact h
  | cons d ds =>
    obtain ⟨hd, hds⟩ := List.forall_mem_cons.1 h
    exact List.forall_mem_cons.2 ⟨isAlnum_asciiUpper hd,
      List.forall_mem_map.2 fun e he => isAlnum_asciiLower (hds e he)⟩

end Naming

namespace CaseStyle

open Naming

variable {name : String} {c : Char} {w : List Char} {ws : List (List Char)}

theorem leading_of_letter (hc : isLetter c = true) : leading ((c :: w) :: ws) = 1 := by
  have hdigits : ¬(c :: w).all Naming.isDigit = true := by
    rw [List.all_cons, isDigit_eq_false_of_isLetter hc]
    exact Bool.false_ne_true
  cases ws with
  | nil => rfl
  | cons v ws => exact if_neg hdigits

/-- A first word that begins with a letter gives the name its first letter, and letters and digits
follow. -/
theorem exists_join (hword : IsWord (c :: w)) (hc : isLetter c = true)
    (halnum : ∀ v ∈ (c :: w) :: ws, ∀ d ∈ v, isAlnum d = true) {style : CaseStyle}
    (hstyle : style = .camel ∨ style = .pascal) :
    ∃ first rest, style.join ((c :: w) :: ws) = first :: rest ∧ style.leads first = true ∧
      ∀ d ∈ rest, isAlnum d = true := by
  have hlower : isLower c = true :=
    (Bool.or_eq_true_iff.1 hc).resolve_left (Bool.eq_false_iff.1
      (hword.isUpper_eq_false c List.mem_cons_self))
  obtain ⟨hfirst, hws⟩ := List.forall_mem_cons.1 halnum
  obtain ⟨-, hw⟩ := List.forall_mem_cons.1 hfirst
  have hcapital : ∀ d ∈ ws.flatMap Text.CaseMap.capitalize, isAlnum d = true := by
    intro d hd
    obtain ⟨v, hv, hd⟩ := List.mem_flatMap.1 hd
    exact isAlnum_capitalize (hws v hv) d hd
  rcases hstyle with rfl | rfl
  · refine ⟨c, w ++ ws.flatMap Text.CaseMap.capitalize, ?_, hlower, ?_⟩
    · rw [join, leading_of_letter hc]
      simp
    · exact List.forall_mem_append.2 ⟨hw, hcapital⟩
  · refine ⟨Text.CaseMap.asciiUpper c, w.map Text.CaseMap.asciiLower ++
      ws.flatMap Text.CaseMap.capitalize, rfl, isUpper_asciiUpper hlower, ?_⟩
    exact List.forall_mem_append.2
      ⟨List.forall_mem_map.2 fun d hd => isAlnum_asciiLower (hw d hd), hcapital⟩

theorem leads_isLetter {style : CaseStyle} (h : style.leads c = true) : isLetter c = true := by
  cases style with
  | pascal => exact isLetter_of_isUpper h
  | _ => exact isLetter_of_isLower h

/-- A name whose first word begins with a letter keeps to the form of its style. -/
theorem exists_apply (hd : hasAsciiDigits name = true) (hl : startsWithLetter name = true)
    {style : CaseStyle} (hstyle : style = .camel ∨ style = .pascal) :
    ∃ first rest, style.apply name = String.ofList (first :: rest) ∧ style.leads first = true ∧
      ∀ d ∈ rest, isAlnum d = true := by
  have hwords : ∀ v ∈ words name, IsWord v := fun v hv => isWord_of_mem_words hv
  have halnum : ∀ v ∈ words name, ∀ d ∈ v, isAlnum d = true :=
    fun v hv => isAlnum_of_mem_words hd hv
  have hne : words name ≠ [] := by
    intro hnil
    rw [startsWithLetter, hnil] at hl
    cases hl
  rw [apply_of_words hne]
  rw [startsWithLetter] at hl
  cases hws : words name with
  | nil => exact absurd hws hne
  | cons v ws =>
    rw [hws] at hl hwords halnum
    cases v with
    | nil => cases hl
    | cons c w =>
      obtain ⟨first, rest, hjoin, hfirst, hrest⟩ :=
        exists_join (hwords _ List.mem_cons_self) hl halnum hstyle
      refine ⟨first, rest, ?_, hfirst, hrest⟩
      have hdigit : ¬(first :: rest).head?.any Naming.isDigit = true := by
        rw [List.head?_cons, Option.any_some,
          isDigit_eq_false_of_isLetter (leads_isLetter hfirst)]
        exact Bool.false_ne_true
      rw [hjoin, guardDigit, if_neg hdigit]

end CaseStyle

namespace Rule

variable {c : Context} {file : String} {e : Export} {x : Finding}

theorem mem_namesFollowConventions_iff {es : List Export} {found : List Finding}
    (h : namesFollowConventions c file es = .ok found) :
    x ∈ found ↔ ∃ e ∈ es, namingFinding c file e = .ok (some x) := by
  obtain ⟨findings, hfindings, h⟩ := bind_eq_ok_iff.1 h
  cases h
  rw [List.mem_filterMap]
  simp only [id, exists_eq_right]
  exact mem_of_mapM_eq_ok hfindings

/-- No option sets a pattern of its own. -/
def UsesConventions (c : Context) : Prop :=
  ∀ key ∈ ["defaultExport", "namedExport"], ∀ v, c.option? key = some v → v.isTruthy = false

theorem UsesConventions.patternFor (h : UsesConventions c) (e : Export) :
    patternFor c e = .ok (c.conventions.forKind e.kind).pattern := by
  have hkey : (if e.form = .default then "defaultExport" else "namedExport") ∈
      ["defaultExport", "namedExport"] := by
    split <;> simp
  rw [Rule.patternFor]
  split
  · rename_i v hv
    rw [h _ hkey v hv]
    rfl
  · rfl

theorem UsesConventions.exists_found (ho : UsesConventions c) (hc : c.conventions = .standard)
    (file : String) (es : List Export) :
    ∃ found, namesFollowConventions c file es = .ok found :=
  exists_namesFollowConventions
    (fun e => ⟨_, _, ho.patternFor e, hc ▸ Conventions.read_standard e.kind⟩) file es

theorem style_standard (kind : ExportKind) : (Conventions.standard.forKind kind).style = .camel ∨
    (Conventions.standard.forKind kind).style = .pascal := by
  cases kind <;> simp [Conventions.standard, Conventions.forKind, Conventions.capitalized]

/-- Under the standard conventions every name that is reported, has its digits in ASCII and has a
letter first in its first word, comes with another name that the pattern of its kind accepts. -/
theorem reported_names_mended (hc : c.conventions = .standard) (ho : UsesConventions c)
    (file : String) (es : List Export) :
    ∃ found, namesFollowConventions c file es = .ok found ∧
      (∀ x, x ∈ found ↔ ∃ e ∈ es, namingFinding c file e = .ok (some x)) ∧
      ∀ e ∈ es, ∀ x, namingFinding c file e = .ok (some x) →
        Naming.hasAsciiDigits e.name = true → Naming.startsWithLetter e.name = true →
        x.IsOn file e ∧ x.autoFixable = true ∧ ∃ name,
          x.metadata.get? "suggestedName" = some (.str name) ∧ name ≠ e.name ∧
          occurs (Conventions.standard.forKind e.kind).pattern name = .ok true := by
  obtain ⟨found, hfound⟩ := ho.exists_found hc file es
  refine ⟨found, hfound, fun x => mem_namesFollowConventions_iff hfound, ?_⟩
  intro e _ x hx hdigits hletter
  obtain ⟨pattern, hpattern, hon, hfits, hfix, hname, -⟩ := namingFinding_spec hx
  obtain rfl := Except.ok.inj ((ho.patternFor e).symm.trans hpattern)
  rw [styledName, hc] at hfix hname
  rw [hc] at hfits
  obtain ⟨first, rest, happly, hfirst, hrest⟩ :=
    CaseStyle.exists_apply hdigits hletter (style_standard e.kind)
  have hmatch := Conventions.occurs_standard e.kind hfirst hrest
  rw [← happly] at hmatch
  have hother : (Conventions.standard.forKind e.kind).style.apply e.name ≠ e.name := by
    intro hsame
    rw [hsame, hfits] at hmatch
    cases hmatch
  have hauto := hfix.2 ⟨hother, hmatch⟩
  exact ⟨hon, hauto, _, hname hauto, hother, hmatch⟩

/-- The rule on names as it is by default. -/
def namingContext : Context where
  setting := { name := "consistent-naming" }
  conventions := .standard

theorem usesConventions_namingContext : UsesConventions namingContext := by
  intro key _ v hv
  cases hv

/-- A function with a run of capitals, an underscore and a number in its name. -/
def responseExport : Export where
  file := "a.ts"
  name := "Parse_HTTPResponse2"
  form := .named
  kind := .function
  location := ⟨"a.ts", 1, 17, 1, 40⟩

/-- It is reported, and comes with a name that the pattern of functions accepts. -/
theorem responseExport_mended :
    ∃ found, namesFollowConventions namingContext "a.ts" [responseExport] = .ok found ∧
      Naming.hasAsciiDigits responseExport.name = true ∧
      Naming.startsWithLetter responseExport.name = true ∧
      ∃ x ∈ found, x.IsOn "a.ts" responseExport ∧ x.autoFixable = true ∧ ∃ name,
        x.metadata.get? "suggestedName" = some (.str name) ∧ name ≠ "Parse_HTTPResponse2" ∧
        occurs "^[a-z][a-zA-Z0-9]*$" name = .ok true := by
  obtain ⟨found, hfound, hmem, hmended⟩ :=
    reported_names_mended rfl usesConventions_namingContext "a.ts" [responseExport]
  have hdigits : Naming.hasAsciiDigits responseExport.name = true := by decide +kernel
  have hletter : Naming.startsWithLetter responseExport.name = true := by decide +kernel
  obtain ⟨reported, hx, hsome⟩ := toOption_any_iff.1 (by decide +kernel :
    (namingFinding namingContext "a.ts" responseExport).toOption.any (·.isSome) = true)
  obtain ⟨x, rfl⟩ := Option.isSome_iff_exists.1 hsome
  have he : responseExport ∈ [responseExport] := List.mem_singleton_self _
  exact ⟨found, hfound, hdigits, hletter, x, (hmem x).2 ⟨_, he, hx⟩,
    hmended _ he x hx hdigits hletter⟩

end Rule

end ExportLint
