import ExportLint.Proofs.CheckedSettings
import ExportLint.Proofs.FaultPaths

/-!
# Fields that are wrong by themselves

A root that is not there, an empty list of files to include, a depth below one and a pattern that
cannot be read are wrong whatever the other fields hold. The check of a configuration says so, but
there is a configuration to check only if every field can be read. Where one cannot, the faults of
reading are all that is reported.
-/
namespace ExportLint

namespace Schema

variable {α β : Type} {ms : Json.Members} {key : String} {read : Reader α} {other : Reader β}
  {a b default : α} {x y : β}

/-- A field is given, and its value is read in some way. -/
def Gives (ms : Json.Members) (key : String) (read : Reader α) (a : α) : Prop :=
  ∃ k v, lookup? ms key = some (k, v) ∧ read v = .valid a

/-- What a field is given as is what the record reads. -/
theorem Gives.exists_of_field (h : Gives ms key read a) (hf : field ms key other = .valid x) :
    ∃ v, read v = .valid a ∧ other v = .valid x := by
  obtain ⟨k, v, hlookup, hread⟩ := h
  rw [field, hlookup] at hf
  exact ⟨v, hread, Validated.under_eq_valid_iff.1 hf⟩

theorem Gives.exists_of_fieldOr (h : Gives ms key read a)
    (hf : fieldOr ms key y other = .valid x) : ∃ v, read v = .valid a ∧ other v = .valid x := by
  obtain ⟨k, v, hlookup, hread⟩ := h
  rw [fieldOr, hlookup] at hf
  exact ⟨v, hread, Validated.under_eq_valid_iff.1 hf⟩

theorem Gives.eq_of_field (h : Gives ms key read a) (hf : field ms key read = .valid b) :
    b = a := by
  obtain ⟨v, ha, hb⟩ := h.exists_of_field hf
  rw [ha] at hb
  cases hb
  rfl

theorem Gives.eq_of_fieldOr (h : Gives ms key read a)
    (hf : fieldOr ms key default read = .valid b) : b = a := by
  obtain ⟨v, ha, hb⟩ := h.exists_of_fieldOr hf
  rw [ha] at hb
  cases hb
  rfl

/-- A record is read from the members that are given for it. -/
theorem Gives.read_obj {section_ : Json.Members} (h : Gives ms key free section_)
    (hf : fieldOr ms key default read = .valid a) : read (.obj section_) = .valid a := by
  obtain ⟨v, hfree, hread⟩ := h.exists_of_fieldOr hf
  cases v with
  | obj members =>
    cases hfree
    exact hread
  | _ => cases hfree

end Schema

namespace Config

open Schema (Gives)

variable {d : Disk} {ms : Json.Members} {message : String} {c : Config} {v : Verdict}

/-- A field is wrong by itself, whatever the other fields hold, and a message says so. -/
inductive Wrong (d : Disk) (ms : Json.Members) : String → Prop
  | root {root : String} (hroot : Gives ms "rootPath" Schema.string root) (hne : root ≠ "")
      (hgone : d.exists? (Path.tidy root) = false) :
      Wrong d ms ("rootPath does not exist: " ++ root)
  | included {scan : Json.Members} (hscan : Gives ms "scanOptions" Schema.free scan)
      (hempty : Gives scan "include" (Schema.list Schema.string) []) :
      Wrong d ms "scanOptions.include must be a non-empty array"
  | depth {scan : Json.Members} {depth : Int} (hscan : Gives ms "scanOptions" Schema.free scan)
      (hdepth : Gives scan "maxDepth" Schema.integer depth) (hlow : depth < 1) :
      Wrong d ms "scanOptions.maxDepth must be a number greater than 0"
  | convention {conventions convention : Json.Members} {pattern : String} (kind : ExportKind)
      (hconventions : Gives ms "namingConventions" Schema.free conventions)
      (hconvention : Gives conventions (Conventions.fieldOf kind) Schema.free convention)
      (hpattern : Gives convention "pattern" Schema.string pattern)
      (hbad : isPattern pattern = .ok false) :
      Wrong d ms ("Invalid regex pattern for " ++ Conventions.fieldOf kind ++
        " naming convention: " ++ pattern)
  | option {before after : List Json} {rule options : Json.Members} {key k pattern : String}
      (hrules : Schema.lookup? ms "rules" = some (k, .arr (before ++ .obj rule :: after)))
      (hname : Gives rule "name" Schema.string namingRule)
      (hfirst : ∀ other, .obj other ∈ before → ¬Gives other "name" Schema.string namingRule)
      (hoptions : Gives rule "options" Schema.free options) (hkey : key ∈ patternOptions)
      (hpattern : options.get? key = some (.str pattern)) (hbad : isPattern pattern = .ok false) :
      Wrong d ms ("Invalid regex pattern for consistent-naming option " ++ key ++ ": " ++ pattern)

section Reported

theorem mem_errors_checkConvention {field : String} {c : Convention} {w : Verdict}
    (hbad : isPattern c.pattern = .ok false) (h : checkConvention field c = .ok w) :
    "Invalid regex pattern for " ++ field ++ " naming convention: " ++ c.pattern ∈ w.errors := by
  rw [checkConvention] at h
  split at h
  · rename_i hempty
    have hfits : isPattern "" = .ok true := rfl
    rw [String.isEmpty_iff.1 hempty, hfits] at hbad
    cases hbad
  · rw [hbad] at h
    cases h
    exact List.mem_singleton_self _

theorem mem_errors_checkPatternOption {options : Json.Members} {key pattern : String} {w : Verdict}
    (hpattern : options.get? key = some (.str pattern)) (hbad : isPattern pattern = .ok false)
    (h : checkPatternOption options key = .ok w) :
    "Invalid regex pattern for consistent-naming option " ++ key ++ ": " ++ pattern ∈
      w.errors := by
  rw [checkPatternOption, hpattern] at h
  dsimp only at h
  rw [hbad] at h
  cases h
  exact List.mem_singleton_self _

/-- The naming rule of a configuration is the first one with that name. -/
theorem exists_namingRule {before after : List Json} {rule options : Json.Members}
    {rules : List RuleSetting}
    (h : Schema.list RuleSetting.read (.arr (before ++ .obj rule :: after)) = .valid rules)
    (hname : Gives rule "name" Schema.string namingRule)
    (hfirst : ∀ other, .obj other ∈ before → ¬Gives other "name" Schema.string namingRule)
    (hoptions : Gives rule "options" Schema.free options) :
    ∃ r, rules.find? (·.name == namingRule) = some r ∧ r.options = options := by
  obtain ⟨bs, cs, rfl, hbs, hcs⟩ := Schema.exists_append_of_itemsFrom h
  obtain ⟨g, rest, hrule, -, rfl⟩ := Validated.seq_eq_valid_iff.1 hcs
  obtain ⟨r, hr, rfl⟩ := Validated.map_eq_valid_iff.1 hrule
  obtain ⟨hrname, -, -, -, hroptions⟩ :=
    RuleSetting.read_obj_iff.1 (Validated.under_eq_valid_iff.1 hr)
  have hbefore : ∀ b ∈ bs, ¬(b.name == namingRule) = true := by
    intro b hb hbname
    obtain ⟨v, hv, hread⟩ := Schema.exists_mem_of_itemsFrom hbs b hb
    obtain ⟨other, rfl, -⟩ := Schema.exists_object_of_record hread
    refine hfirst other hv ?_
    have hfield := (RuleSetting.read_obj_iff.1 hread).1
    rw [eq_of_beq hbname, Schema.field] at hfield
    split at hfield
    · rename_i k w hlookup
      exact ⟨k, w, hlookup, Validated.under_eq_valid_iff.1 hfield⟩
    · cases hfield
  refine ⟨r, ?_, hoptions.eq_of_fieldOr hroptions⟩
  rw [List.find?_append, List.find?_eq_none.2 hbefore, Option.none_or,
    List.find?_cons_of_pos (by simp [hname.eq_of_field hrname])]

/-- Once all fields can be read, the check reports what is wrong by itself. -/
theorem Wrong.mem_errors (h : Wrong d ms message) (hread : read (.obj ms) = .valid c)
    (hcheck : check d c = .ok v) : message ∈ v.errors := by
  obtain ⟨hroot, hscan, hrules, hconventions, -, -⟩ := read_obj_iff.1 hread
  have hchecked := checked_of_check hcheck
  cases h with
  | root hgiven hne hgone =>
    apply hchecked.root
    rw [hgiven.eq_of_field hroot, checkRoot, if_neg (by simpa using hne), hgone]
    exact List.mem_singleton_self _
  | included hsection hempty =>
    obtain ⟨hincluded, -⟩ := ScanOptions.read_obj_iff.1 (hsection.read_obj hscan)
    apply hchecked.scan
    simp [checkScan, Verdict.errors_joined, hempty.eq_of_fieldOr hincluded, Verdict.error]
  | @depth scan depth hsection hdepth hlow =>
    obtain ⟨-, -, -, hread, -⟩ := ScanOptions.read_obj_iff.1 (hsection.read_obj hscan)
    obtain ⟨w, hw, hread⟩ := hdepth.exists_of_fieldOr hread
    have hdepth : c.scan.maxDepth = some depth := by
      cases w with
      | null => cases hw
      | _ =>
        rw [Schema.optional, hw] at hread
        · exact (Validated.valid.inj hread).symm
        · exact fun he => by cases he
    apply hchecked.scan
    simp [checkScan, Verdict.errors_joined, hdepth, hlow, Verdict.error]
  | convention kind hsection hconvention hpattern hbad =>
    have hkind := Conventions.read_obj_iff.1 (hsection.read_obj hconventions) kind
    obtain ⟨hfield, -⟩ := Convention.read_obj_iff.1 (hconvention.read_obj hkind)
    obtain ⟨w, hw, hsub⟩ := hchecked.convention kind
    rw [← hpattern.eq_of_field hfield] at hbad ⊢
    exact hsub (mem_errors_checkConvention hbad hw)
  | option hlookup hname hfirst hoptions hkey hpattern hbad =>
    rw [Schema.fieldOr, hlookup] at hrules
    obtain ⟨r, hr, rfl⟩ :=
      exists_namingRule (Validated.under_eq_valid_iff.1 hrules) hname hfirst hoptions
    obtain ⟨w, hw, hsub⟩ := hchecked.option r hr _ hkey
    exact hsub (mem_errors_checkPatternOption hpattern hbad hw)

end Reported

section Hidden

/-- The messages of the check start with a word that has no colon. -/
theorem Wrong.exists_word (h : Wrong d ms message) : ∃ word rest : List Char,
    message.toList = word ++ ' ' :: rest ∧ ' ' ∉ word ∧ ':' ∉ word := by
  cases h with
  | @root root =>
    exact ⟨"rootPath".toList, "does not exist: ".toList ++ root.toList, by simp, by decide,
      by decide⟩
  | included => exact ⟨"scanOptions.include".toList, _, rfl, by decide, by decide⟩
  | depth => exact ⟨"scanOptions.maxDepth".toList, _, rfl, by decide, by decide⟩
  | @convention _ _ pattern kind =>
    exact ⟨"Invalid".toList, "regex pattern for ".toList ++
      ((Conventions.fieldOf kind).toList ++ (" naming convention: ".toList ++ pattern.toList)),
      by simp, by decide, by decide⟩
  | @option _ _ _ _ key _ pattern =>
    exact ⟨"Invalid".toList, "regex pattern for consistent-naming option ".toList ++
      (key.toList ++ (": ".toList ++ pattern.toList)), by simp, by decide, by decide⟩

/-- The word before the first space of a text. -/
theorem takeWhile_of_eq_append {text word rest : List Char} (h : text = word ++ ' ' :: rest)
    (hspace : ' ' ∉ word) : text.takeWhile (· != ' ') = word := by
  subst h
  rw [List.takeWhile_append_of_pos (by grind), List.takeWhile_cons_of_neg (by simp),
    List.append_nil]

/-- No fault of reading is told as the check tells what is wrong. -/
theorem Wrong.ne_text {f : FieldFault} (h : Wrong d ms message) (hf : f.Placed) :
    f.text ≠ message := by
  intro heq
  obtain ⟨place, behind, hplace, hspaceless⟩ := hf.exists_text
  obtain ⟨word, rest, hword, hspace, hcolon⟩ := h.exists_word
  have hfault := takeWhile_of_eq_append hplace (by simpa using hspaceless)
  rw [heq, takeWhile_of_eq_append hword hspace] at hfault
  exact hcolon (by simp [hfault])

end Hidden

/-- What is wrong by itself is reported if and only if every field can be read and every pattern is
told to be one or none. Then the check goes over all fields. -/
theorem wrong_field_reported_iff (h : Wrong d ms message) :
    (∃ config? v, ofData d (.obj ms) = .ok (config?, v) ∧ message ∈ v.errors) ↔
      ∃ c, read (.obj ms) = .valid c ∧ ∀ p ∈ c.patterns, (isPattern p).isOk = true := by
  rw [ofData]
  cases hread : read (.obj ms) with
  | valid c =>
    constructor
    · rintro ⟨config?, v, hdata, -⟩
      obtain ⟨w, hcheck, -⟩ := bind_eq_ok_iff.1 hdata
      exact ⟨c, rfl, exists_verdict_iff.1 ⟨w, hcheck⟩⟩
    · rintro ⟨c', hc, hpatterns⟩
      cases hc
      obtain ⟨v, hcheck⟩ := exists_verdict_iff.2 hpatterns
      exact ⟨some c, v, bind_eq_ok_iff.2 ⟨v, hcheck, rfl⟩, h.mem_errors hread hcheck⟩
  | invalid faults =>
    refine iff_of_false ?_ fun ⟨c, hc, _⟩ => by cases hc
    rintro ⟨config?, v, hdata, hmem⟩
    cases hdata
    obtain ⟨f, hf, htext⟩ := List.mem_map.1 hmem
    have hplaced := placed_read ms
    rw [hread] at hplaced
    exact h.ne_text (hplaced f hf) htext

/-- Settings with nothing to include and with a rule of a severity that there is not. -/
def unknownSeverity : Json.Members :=
  [("rootPath", .str "proj"), ("scanOptions", .obj [("include", .arr [])]),
    ("rules", .arr [.obj [("name", .str namingRule), ("description", .str "d"),
      ("severity", .str "fatal")]])]

/-- The severity is all that is reported of them. -/
theorem unknownSeverity_hides_included :
    ofData ⟨["work"], [(["work", "proj"], .directory)]⟩ (.obj unknownSeverity) =
      .ok (none, ⟨["rules.0.severity: Input should be 'error', 'warning' or 'info'"], []⟩) ∧
    ¬∃ config? v,
      ofData ⟨["work"], [(["work", "proj"], .directory)]⟩ (.obj unknownSeverity) =
        .ok (config?, v) ∧ "scanOptions.include must be a non-empty array" ∈ v.errors := by
  refine ⟨rfl, ?_⟩
  have hscan : Gives unknownSeverity "scanOptions" Schema.free [("include", .arr [])] :=
    ⟨_, _, rfl, rfl⟩
  have hempty : Gives [("include", .arr [])] "include" (Schema.list Schema.string) [] :=
    ⟨_, _, rfl, rfl⟩
  rw [wrong_field_reported_iff (.included hscan hempty)]
  rintro ⟨c, hc, -⟩
  obtain ⟨faults, hfaults⟩ : ∃ faults, read (.obj unknownSeverity) = .invalid faults := ⟨_, rfl⟩
  rw [hfaults] at hc
  cases hc

end Config

end ExportLint
