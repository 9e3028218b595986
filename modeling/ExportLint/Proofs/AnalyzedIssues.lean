import ExportLint.Proofs.UnusedExports
import ExportLint.Rule.Table

/-!
# What rules tell about fixes

A finding carries in its metadata what a fix of it takes. A name that can be changed comes with its
case style and with the name in that style, and a type that travels like a value comes with the word
that opens its statement. Every rule of the standard table keeps to this, so every issue of an
analysis does.
-/
namespace ExportLint

open Rule

variable {c : Config} {p : Project} {file : String} {x : Finding}

/-- A finding tells a name, its style, and the name in that style. -/
def Finding.TellsName (x : Finding) : Prop :=
  ∃ (name : String) (style : CaseStyle),
    x.metadata.get? "exportName" = some (.str name) ∧
      x.metadata.get? "caseStyle" = some (.str (Named.name style)) ∧
      x.metadata.get? "suggestedName" = some (.str (style.apply name))

/-- A finding tells what a fix of it takes. -/
structure Finding.TellsFix (x : Finding) : Prop where
  naming : x.autoFixable = true → x.kind = .naming → x.TellsName
  typeMismatch : x.kind = .typeMismatch →
    ∃ statement, x.metadata.get? "statement" = some (.str statement)

/-- Fixes of most kinds take nothing from the metadata that could have a wrong form. -/
theorem tellsFix_of_kind (hn : x.kind ≠ .naming) (ht : x.kind ≠ .typeMismatch) : x.TellsFix :=
  ⟨fun _ hk => absurd hk hn, fun hk => absurd hk ht⟩

/-- A finding on a name that offers no fix need not tell one. -/
theorem tellsFix_of_not_fixable (hf : x.autoFixable = false) (ht : x.kind ≠ .typeMismatch) :
    x.TellsFix :=
  ⟨fun h => absurd h (by simp [hf]), fun hk => absurd hk ht⟩

namespace Rule

variable {k : Context} {found : List Finding}

/-- An export in the style of its kind. -/
def styledName (c : Context) (e : Export) : String :=
  (c.conventions.forKind e.kind).style.apply e.name

/-- What a finding on the name of an export says: the pattern does not accept it, and the name in
the style of the kind is offered if it is another one that the pattern accepts. -/
structure SaysOnName (c : Context) (file : String) (e : Export) (pattern : String) (x : Finding) :
    Prop where
  on : x.IsOn file e
  refused : occurs pattern e.name = .ok false
  offered_iff : x.autoFixable = true ↔
    styledName c e ≠ e.name ∧ occurs pattern (styledName c e) = .ok true
  suggested : x.autoFixable = true →
    x.metadata.get? "suggestedName" = some (.str (styledName c e))
  kind : x.kind = .naming
  name : x.metadata.get? "exportName" = some (.str e.name)
  style : x.metadata.get? "caseStyle" =
    some (.str (Named.name (c.conventions.forKind e.kind).style))

theorem namingFinding_spec {e : Export} (h : namingFinding k file e = .ok (some x)) :
    ∃ pattern, patternFor k e = .ok pattern ∧ SaysOnName k file e pattern x := by
  simp only [namingFinding] at h
  split at h
  · cases h
  · obtain ⟨pattern, hpattern, h⟩ := bind_eq_ok_iff.1 h
    obtain ⟨fits, hfits, h⟩ := bind_eq_ok_iff.1 h
    cases fits with
    | true => cases h
    | false =>
      refine ⟨pattern, hpattern, ?_⟩
      simp only [Bool.false_eq_true, if_false] at h
      split at h
      · rename_i hne
        obtain ⟨fixable, hfixable, h⟩ := bind_eq_ok_iff.1 h
        cases h
        refine ⟨⟨rfl, rfl, rfl⟩, hfits, ?_, fun hfix => ?_, rfl, rfl, rfl⟩
        · rw [styledName, hfixable]
          exact ⟨fun hfix => ⟨bne_iff_ne.1 hne, congrArg Except.ok hfix⟩,
            fun hfix => Except.ok.inj hfix.2⟩
        · cases (hfix : fixable = true)
          rfl
      · rename_i hsame
        cases h
        refine ⟨⟨rfl, rfl, rfl⟩, hfits, ?_, (fun hfix => by cases hfix), rfl, rfl, rfl⟩
        exact iff_of_false Bool.false_ne_true fun hfix => hsame (bne_iff_ne.2 hfix.1)

/-- A name is offered only as the style of its kind gives it. -/
theorem tellsFix_namingFinding {e : Export} (h : namingFinding k file e = .ok (some x)) :
    x.TellsFix := by
  obtain ⟨pattern, -, htold⟩ := namingFinding_spec h
  refine ⟨fun hfix _ => ?_, fun hk => ?_⟩
  · exact ⟨e.name, _, htold.name, htold.style, htold.suggested hfix⟩
  · rw [htold.kind] at hk
    cases hk

theorem tellsFix_namesFollowConventions {es : List Export}
    (h : namesFollowConventions k file es = .ok found) : ∀ x ∈ found, x.TellsFix := by
  obtain ⟨findings, hfindings, h⟩ := bind_eq_ok_iff.1 h
  cases h
  intro x hx
  obtain ⟨finding, hm, rfl⟩ := List.mem_filterMap.1 hx
  obtain ⟨e, -, he⟩ := (mem_of_mapM_eq_ok hfindings).1 hm
  exact tellsFix_namingFinding he

theorem tellsFix_namesAreExportedOnce {es : List Export}
    (h : namesAreExportedOnce k file es = .ok found) : ∀ x ∈ found, x.TellsFix := by
  cases h
  intro x hx
  obtain ⟨e, -, he⟩ := List.mem_filterMap.1 hx
  simp only [duplicateFinding?] at he
  split at he
  · cases he
  · cases he
    exact tellsFix_of_kind (by simp [Context.finding]) (by simp [Context.finding])

theorem tellsFix_oneDefaultAtMost {es : List Export}
    (h : oneDefaultAtMost k file es = .ok found) : ∀ x ∈ found, x.TellsFix := by
  simp only [oneDefaultAtMost] at h
  split at h
  · cases h
    simp
  · cases h
    intro x hx
    obtain ⟨e, -, rfl⟩ := List.mem_map.1 hx
    exact tellsFix_of_kind (by simp [Context.finding]) (by simp [Context.finding])

theorem tellsFix_defaultIsNamedLikeFile {es : List Export}
    (h : defaultIsNamedLikeFile k file es = .ok found) : ∀ x ∈ found, x.TellsFix := by
  simp only [defaultIsNamedLikeFile] at h
  split at h
  · split at h
    · cases h
      simp
    · cases h
      intro x hx
      obtain rfl := List.mem_singleton.1 hx
      exact tellsFix_of_not_fixable rfl (by simp [Context.finding])
  · cases h
    simp

theorem tellsFix_formsAreAllowed {es : List Export}
    (h : formsAreAllowed k file es = .ok found) : ∀ x ∈ found, x.TellsFix := by
  cases h
  intro x hx
  obtain ⟨e, -, he⟩ := List.mem_filterMap.1 hx
  obtain ⟨text, -, rfl⟩ := Option.map_eq_some_iff.1 he
  exact tellsFix_of_not_fixable rfl (by simp [Context.finding])

theorem tellsFix_namesAreUnique (h : namesAreUnique k p = .ok found) :
    ∀ x ∈ found, x.TellsFix := by
  obtain ⟨ignored, -, h⟩ := bind_eq_ok_iff.1 h
  cases h
  intro x hx
  obtain ⟨f, -, hx⟩ := List.mem_flatMap.1 hx
  obtain ⟨e, -, he⟩ := List.mem_filterMap.1 hx
  dsimp only at he
  split at he
  · cases he
  · cases he
    exact tellsFix_of_kind (by simp [Context.finding]) (by simp [Context.finding])

theorem tellsFix_importsMatchExports (h : importsMatchExports k p = .ok found) :
    ∀ x ∈ found, x.TellsFix := by
  cases h
  intro x hx
  obtain ⟨w, -, rfl⟩ := List.mem_map.1 hx
  exact tellsFix_of_kind (by simp [mismatch, Context.finding]) (by simp [mismatch, Context.finding])

theorem tellsFix_importedNamesAreExported (h : importedNamesAreExported k p = .ok found) :
    ∀ x ∈ found, x.TellsFix := by
  cases h
  intro x hx
  obtain ⟨m, -, rfl⟩ := List.mem_map.1 hx
  exact tellsFix_of_kind (by simp [Context.finding]) (by simp [Context.finding])

theorem tellsFix_typesTravelAsTypes (h : typesTravelAsTypes k p = .ok found) :
    ∀ x ∈ found, x.TellsFix := by
  have exports {f : String} : ∀ x ∈ plainTypeExports k p f, x.TellsFix := by
    intro x hx
    obtain ⟨e, -, rfl⟩ := List.mem_map.1 hx
    exact ⟨fun _ hk => (by cases hk), fun _ => ⟨"export", rfl⟩⟩
  have imports {l : Project.Link} : ∀ x ∈ plainTypeImports k p l, x.TellsFix := by
    intro x hx
    simp only [plainTypeImports] at hx
    split at hx
    · cases hx
    · obtain ⟨name, -, rfl⟩ := List.mem_map.1 hx
      exact ⟨fun _ hk => (by cases hk), fun _ => ⟨"import", rfl⟩⟩
  cases h
  intro x hx
  rcases List.mem_append.1 hx with hx | hx
  · obtain ⟨f, -, hx⟩ := List.mem_flatMap.1 hx
    exact exports x hx
  · split at hx
    · obtain ⟨l, -, hx⟩ := List.mem_flatMap.1 hx
      exact imports x hx
    · cases hx

theorem tellsFix_exportsAreUsed (h : exportsAreUsed k p = .ok found) :
    ∀ x ∈ found, x.TellsFix := by
  intro x hx
  obtain ⟨f, -, -, hx⟩ := (mem_exportsAreUsed_iff h).1 hx
  simp only [unusedIn] at hx
  split at hx
  · cases hx
  · obtain ⟨e, -, rfl⟩ := List.mem_map.1 hx
    exact tellsFix_of_kind (by simp [Context.finding]) (by simp [Context.finding])

theorem tellsFix_filesFormNoCycles (h : filesFormNoCycles k p = .ok found) :
    ∀ x ∈ found, x.TellsFix := by
  cases h
  intro x hx
  obtain ⟨members, -, rfl⟩ := List.mem_map.1 hx
  exact tellsFix_of_kind (by simp [Context.finding]) (by simp [Context.finding])

theorem tellsFix_boundariesAreKept (h : boundariesAreKept k p = .ok found) :
    ∀ x ∈ found, x.TellsFix := by
  obtain ⟨markers, -, h⟩ := bind_eq_ok_iff.1 h
  cases h
  intro x hx
  obtain ⟨l, -, hl⟩ := List.mem_filterMap.1 hx
  obtain ⟨b, -, rfl⟩ := Option.map_eq_some_iff.1 hl
  exact tellsFix_of_kind (by simp [Context.finding]) (by simp [Context.finding])

end Rule

namespace RuleTable

/-- What a table finds is found by one of its rules. -/
theorem exists_rule_of_mem_run {α : Type} {rules : List (String × α)}
    {findings : α → Context → Findings} {found : List Finding}
    (h : run c rules findings = .ok found) (hx : x ∈ found) :
    ∃ r ∈ rules.map Prod.snd, ∃ k fs, findings r k = .ok fs ∧ x ∈ fs := by
  obtain ⟨groups, hgroups, h⟩ := bind_eq_ok_iff.1 h
  cases h
  obtain ⟨group, hg, hx⟩ := List.mem_flatten.1 hx
  obtain ⟨⟨name, r⟩, hr, hgroup⟩ := (mem_of_mapM_eq_ok hgroups).1 hg
  dsimp only at hgroup
  split at hgroup
  · exact ⟨r, List.mem_map_of_mem hr, _, group, hgroup, hx⟩
  · cases hgroup
    cases hx

theorem tellsFix_fileFindings {es : List Export} {found : List Finding}
    (h : standard.fileFindings c file es = .ok found) : ∀ x ∈ found, x.TellsFix := by
  intro x hx
  obtain ⟨r, hr, k, fs, hfs, hx⟩ := exists_rule_of_mem_run h hx
  simp only [standard, List.map_cons, List.map_nil, List.mem_cons, List.not_mem_nil,
    or_false] at hr
  rcases hr with rfl | rfl | rfl | rfl | rfl
  · exact tellsFix_namesFollowConventions hfs x hx
  · exact tellsFix_namesAreExportedOnce hfs x hx
  · exact tellsFix_oneDefaultAtMost hfs x hx
  · exact tellsFix_defaultIsNamedLikeFile hfs x hx
  · exact tellsFix_formsAreAllowed hfs x hx

theorem tellsFix_projectFindings {found : List Finding}
    (h : standard.projectFindings c p = .ok found) : ∀ x ∈ found, x.TellsFix := by
  intro x hx
  obtain ⟨r, hr, k, fs, hfs, hx⟩ := exists_rule_of_mem_run h hx
  simp only [standard, List.map_cons, List.map_nil, List.mem_cons, List.not_mem_nil,
    or_false] at hr
  rcases hr with rfl | rfl | rfl | rfl | rfl | rfl | rfl
  · exact tellsFix_namesAreUnique hfs x hx
  · exact tellsFix_importsMatchExports hfs x hx
  · exact tellsFix_importedNamesAreExported hfs x hx
  · exact tellsFix_typesTravelAsTypes hfs x hx
  · exact tellsFix_exportsAreUsed hfs x hx
  · exact tellsFix_filesFormNoCycles hfs x hx
  · exact tellsFix_boundariesAreKept hfs x hx

end RuleTable

namespace Issue

theorem mem_of_mem_numbered {fs : List Finding} {i : Issue} (h : i ∈ numbered fs) :
    i.toFinding ∈ fs := by
  obtain ⟨⟨f, n⟩, hf, rfl⟩ := List.mem_map.1 h
  exact List.mem_of_getElem? (List.mem_zipIdx_iff_getElem?.1 hf)

/-- An issue of an analysis: the standard rules report it on a project, or on a file by itself. -/
inductive Analyzed (i : Issue) : Prop where
  | ofProject {c : Config} {p : Project} {is : List Issue}
      (report : RuleTable.standard.check c p = .ok is) (mem : i ∈ is)
  | ofFile {c : Config} {file : String} {es : List Export} {is : List Issue}
      (report : RuleTable.standard.checkFile c file es = .ok is) (mem : i ∈ is)

theorem Analyzed.tellsFix {i : Issue} (h : i.Analyzed) : i.TellsFix := by
  cases h with
  | ofProject report mem =>
    obtain ⟨onFiles, hfiles, report⟩ := bind_eq_ok_iff.1 report
    obtain ⟨onProject, hproject, report⟩ := bind_eq_ok_iff.1 report
    cases report
    rcases List.mem_append.1 (mem_of_mem_numbered mem) with hx | hx
    · obtain ⟨group, hg, hx⟩ := List.mem_flatten.1 hx
      obtain ⟨⟨file, es⟩, -, hgroup⟩ := (mem_of_mapM_eq_ok hfiles).1 hg
      exact RuleTable.tellsFix_fileFindings hgroup _ hx
    · exact RuleTable.tellsFix_projectFindings hproject _ hx
  | ofFile report mem =>
    obtain ⟨found, hfound, report⟩ := bind_eq_ok_iff.1 report
    cases report
    exact RuleTable.tellsFix_fileFindings hfound _ (mem_of_mem_numbered mem)

end Issue

end ExportLint
