import ExportLint.Proofs.SettingsLoading
import ExportLint.Rule.Table

/-!
# Options that rules can use

The check of a configuration reads its patterns, so the rule on names never meets one that it cannot
use. The options that list something are taken as they come: a rule that runs fails on a number, on
a list or an object among names, and on what is no text among globs. An analysis under a
configuration without errors returns exactly if the options of the rules that run can be used.
-/
namespace ExportLint

open Config (mayName)

namespace Rule

variable {k : Context} {p : Project} {key : String}

/-- A value lists something: it is a list, a text or an object, or it is empty. -/
def isListing (v : Json) : Bool :=
  match v with
  | .arr _ | .str _ | .obj _ => true
  | v => !v.isTruthy

/-- A value lists what can be a name. Lists and objects cannot. -/
def listsNames (v : Json) : Bool :=
  match v with
  | .arr vs => vs.all mayName
  | v => isListing v

/-- What is no text among some globs is not looked at for a path: a glob before it matches. -/
def DecidedByTexts (path : String) (globs : List Json) : Prop :=
  ∀ before v behind, globs = before ++ v :: behind → (∀ g, v ≠ .str g) →
    ∃ g, .str g ∈ before ∧ globMatches g path = true

theorem exists_values_iff {default : List Json} :
    (∃ vs, k.values key default = .ok vs) ↔ ∀ v, k.option? key = some v → isListing v = true := by
  cases ho : k.option? key with
  | none => simp [Context.values, ho]
  | some v =>
    simp only [Context.values, ho, Option.some.injEq, forall_eq']
    by_cases ht : v.isTruthy = true
    · simp only [ht, Bool.not_true, Bool.false_eq_true, if_false]
      cases v <;> simp_all [isListing]
    · have hlist : isListing v = true := by cases v <;> simp_all [isListing]
      simp [ht, hlist]

theorem exists_textsOf_iff {vs : List Json} :
    (∃ ss, Context.textsOf vs = .ok ss) ↔ ∀ v ∈ vs, mayName v = true := by
  induction vs with
  | nil => simp [Context.textsOf]
  | cons v vs ih =>
    rw [List.forall_mem_cons, ← ih]
    cases v with
    | str s =>
      cases hrest : Context.textsOf vs <;>
        simp [Context.textsOf, mayName, hrest, Functor.map, Except.map]
    | arr _ => simp [Context.textsOf, mayName]
    | obj _ => simp [Context.textsOf, mayName]
    | _ => simp [Context.textsOf, mayName]

theorem eq_wrongType_of_values {default : List Json} {f : Failure}
    (h : k.values key default = .error f) : f = .wrongType := by
  simp only [Context.values] at h
  split at h
  · cases h
  · split at h
    · cases h
    · split at h <;> cases h
      rfl

theorem eq_wrongType_of_textsOf {vs : List Json} {f : Failure}
    (h : Context.textsOf vs = .error f) : f = .wrongType := by
  induction vs with
  | nil => cases h
  | cons v vs ih =>
    cases v with
    | str s =>
      cases hrest : Context.textsOf vs with
      | ok ss =>
        rw [Context.textsOf, hrest] at h
        cases h
      | error g =>
        rw [Context.textsOf, hrest] at h
        cases h
        exact ih hrest
    | arr _ =>
      cases h
      rfl
    | obj _ =>
      cases h
      rfl
    | _ => exact ih h

/-- Names that cannot be taken from an option fail on its type. -/
theorem eq_wrongType_of_names {default : List String} {f : Failure}
    (h : k.names key default = .error f) : f = .wrongType := by
  rw [Context.names] at h
  cases hv : k.values key (default.map .str) with
  | error g =>
    rw [hv] at h
    cases h
    exact eq_wrongType_of_values hv
  | ok vs =>
    rw [hv] at h
    exact eq_wrongType_of_textsOf h

/-- Names can be taken from an option exactly if it lists what can be a name. -/
theorem exists_names_iff {default : List String} :
    (∃ ns, k.names key default = .ok ns) ↔ ∀ v, k.option? key = some v → listsNames v = true := by
  have htexts (ss : List String) : ∃ ns, Context.textsOf (ss.map .str) = .ok ns :=
    exists_textsOf_iff.2 fun v hv => by
      obtain ⟨s, -, rfl⟩ := List.mem_map.1 hv
      rfl
  cases ho : k.option? key with
  | none =>
    simpa [Context.names, Context.values, ho, bind, Except.bind] using htexts default
  | some v =>
    simp only [Context.names, Context.values, ho, Option.some.injEq, forall_eq', bind, Except.bind]
    by_cases ht : v.isTruthy = true
    · simp only [ht, Bool.not_true, Bool.false_eq_true, if_false]
      cases v with
      | arr vs => simpa [listsNames] using exists_textsOf_iff
      | str s =>
        simpa [listsNames, isListing, Function.comp_def] using
          htexts (s.toList.map String.singleton)
      | obj ms => simpa [listsNames, isListing, Function.comp_def] using htexts (ms.map (·.1))
      | _ => simp_all [listsNames, isListing]
    · have hnames : listsNames v = true := by
        cases v <;> simp_all [listsNames, isListing, Json.isTruthy]
      simp [ht, hnames, Context.textsOf]

/-- Globs decide on a path exactly if none but texts are looked at. -/
theorem exists_matchesOneOf_iff {path : String} {globs : List Json} :
    (∃ b, matchesOneOf path globs = .ok b) ↔ DecidedByTexts path globs := by
  induction globs with
  | nil => simp [matchesOneOf, DecidedByTexts]
  | cons v globs ih =>
    cases v with
    | str g =>
      rw [matchesOneOf]
      by_cases hg : globMatches g path = true
      · simp only [hg, if_true, Except.ok.injEq, exists_eq', true_iff]
        intro before v behind he hv
        cases before with
        | nil => exact absurd (List.cons.inj he).1.symm (hv g)
        | cons first before => exact ⟨g, by simp [← (List.cons.inj he).1], hg⟩
      · simp only [hg]
        rw [if_neg (by simp), ih]
        constructor
        · intro h before v behind he hv
          cases before with
          | nil => exact absurd (List.cons.inj he).1.symm (hv g)
          | cons first before =>
            obtain ⟨g', hg', hm⟩ := h before v behind (List.cons.inj he).2 hv
            exact ⟨g', List.mem_cons_of_mem first hg', hm⟩
        · intro h before v behind he hv
          obtain ⟨g', hg', hm⟩ := h (.str g :: before) v behind (by rw [he]; rfl) hv
          rcases List.mem_cons.1 hg' with he' | hg'
          · rw [Json.str.inj he'] at hm
            exact absurd hm hg
          · exact ⟨g', hg', hm⟩
    | _ =>
      -- The first one is no text, and there is nothing before it.
      refine iff_of_false (by simp [matchesOneOf]) fun h => ?_
      obtain ⟨g, hg, -⟩ := h [] _ globs rfl (by simp)
      exact List.not_mem_nil hg

theorem decidedByTexts_of_texts {path : String} {globs : List Json}
    (h : ∀ v ∈ globs, ∃ g, v = .str g) : DecidedByTexts path globs := by
  intro before v behind he hv
  obtain ⟨g, hg⟩ := h v (by simp [he])
  exact absurd hg (hv g)

/-- What an option lists is what stands in its list, or it is all texts. -/
theorem values_cases {v : Json} (hv : k.option? key = some v) {default globs : List Json}
    (h : k.values key default = .ok globs) : v = .arr globs ∨ ∀ g ∈ globs, ∃ s, g = .str s := by
  simp only [Context.values, hv] at h
  split at h
  · cases h
    exact .inr (by simp)
  · split at h
    · cases h
      exact .inl rfl
    · cases h
      refine .inr fun g hg => ?_
      obtain ⟨ch, -, rfl⟩ := List.mem_map.1 hg
      exact ⟨_, rfl⟩
    · cases h
      refine .inr fun g hg => ?_
      obtain ⟨m, -, rfl⟩ := List.mem_map.1 hg
      exact ⟨_, rfl⟩
    · cases h

/-- Unused exports can be looked for exactly if the entry points are listed, and texts decide on
every file. -/
theorem exists_exportsAreUsed_iff :
    (∃ found, exportsAreUsed k p = .ok found) ↔ ∀ v, k.option? "entryPoints" = some v →
      isListing v = true ∧
        ∀ globs, v = .arr globs → ∀ f ∈ p.files, DecidedByTexts (p.relative f) globs := by
  simp only [exportsAreUsed, bind_eq_ok_iff]
  constructor
  · rintro ⟨found, globs, hglobs, groups, hgroups, -⟩ v hv
    refine ⟨exists_values_iff.1 ⟨globs, hglobs⟩ v hv, fun listed hlisted f hf => ?_⟩
    obtain ⟨group, hg⟩ := exists_of_mapM_eq_ok hgroups hf
    obtain ⟨b, hb, -⟩ := bind_eq_ok_iff.1 hg
    have hdecided := exists_matchesOneOf_iff.1 ⟨b, hb⟩
    subst hlisted
    rcases values_cases hv hglobs with he | htexts
    · rwa [Json.arr.inj he]
    · cases listed with
      | nil => exact decidedByTexts_of_texts (by simp)
      | cons first rest =>
        simp only [Context.values, hv, Json.isTruthy, List.isEmpty_cons] at hglobs
        cases hglobs
        exact hdecided
  · intro h
    obtain ⟨globs, hglobs⟩ : ∃ globs, k.values "entryPoints" [] = .ok globs :=
      exists_values_iff.2 fun v hv => (h v hv).1
    have hdecided : ∀ f ∈ p.files, DecidedByTexts (p.relative f) globs := by
      intro f hf
      cases ho : k.option? "entryPoints" with
      | none =>
        simp only [Context.values, ho, Except.ok.injEq] at hglobs
        subst hglobs
        exact decidedByTexts_of_texts (by simp)
      | some v =>
        rcases values_cases ho hglobs with he | htexts
        · exact (h v ho).2 globs he f hf
        · exact decidedByTexts_of_texts htexts
    have hfile : ∀ f ∈ p.files, ∃ group, (do
        if ← matchesOneOf (p.relative f) globs then return []
        return unusedIn k p f : Findings) = .ok group := by
      intro f hf
      obtain ⟨b, hb⟩ := exists_matchesOneOf_iff.2 (hdecided f hf)
      rw [hb]
      cases b <;> exact ⟨_, rfl⟩
    obtain ⟨groups, hgroups⟩ := exists_mapM_eq_ok hfile
    exact ⟨groups.flatten, globs, hglobs, groups, hgroups, rfl⟩

theorem exists_namesAreUnique_iff :
    (∃ found, namesAreUnique k p = .ok found) ↔
      ∃ ignored, k.names "ignoreNames" [] = .ok ignored := by
  simp only [namesAreUnique, bind_eq_ok_iff]
  constructor
  · rintro ⟨found, ignored, h, -⟩
    exact ⟨ignored, h⟩
  · rintro ⟨ignored, h⟩
    exact ⟨_, ignored, h, rfl⟩

theorem exists_boundariesAreKept_iff :
    (∃ found, boundariesAreKept k p = .ok found) ↔
      ∃ markers, k.names "internalMarkers" ["internal", "_internal", "private"] = .ok markers := by
  simp only [boundariesAreKept, bind_eq_ok_iff]
  constructor
  · rintro ⟨found, markers, h, -⟩
    exact ⟨markers, h⟩
  · rintro ⟨markers, h⟩
    exact ⟨_, markers, h, rfl⟩

/-- The patterns that the rule on names may use can be read. -/
structure PatternsReadable (k : Context) : Prop where
  conventions : ∀ kind, ∃ p, Pattern.read (k.conventions.forKind kind).pattern = .ok p
  options : ∀ key ∈ ["defaultExport", "namedExport"], ∀ v, k.option? key = some v →
    v = .null ∨ ∃ s p, v = .str s ∧ Pattern.read s = .ok p

theorem PatternsReadable.exists_patternFor (h : PatternsReadable k) (e : Export) :
    ∃ s p, patternFor k e = .ok s ∧ Pattern.read s = .ok p := by
  obtain ⟨q, hq⟩ := h.conventions e.kind
  have hkey : (if e.form = .default then "defaultExport" else "namedExport") ∈
      ["defaultExport", "namedExport"] := by
    split <;> simp
  rw [patternFor]
  split
  · rename_i v hv
    split
    · exact ⟨_, q, rfl, hq⟩
    · obtain rfl | ⟨s, p, rfl, hp⟩ := h.options _ hkey v hv
      · rename_i ht
        exact absurd rfl ht
      · exact ⟨s, p, rfl, hp⟩
  · exact ⟨_, q, rfl, hq⟩

/-- With patterns that can be read, every name can be judged. -/
theorem exists_namesFollowConventions (h : ∀ e, ∃ s p, patternFor k e = .ok s ∧
    Pattern.read s = .ok p) (file : String) (es : List Export) :
    ∃ found, namesFollowConventions k file es = .ok found := by
  have hname : ∀ e ∈ es, ∃ x, namingFinding k file e = .ok x := by
    intro e _
    obtain ⟨s, p, hs, hp⟩ := h e
    have hoccurs (name : String) : occurs s name = .ok (p.occursIn name) := by
      rw [occurs, hp]
    simp only [namingFinding, hs, hoccurs, bind, Except.bind, pure, Except.pure]
    split
    · exact ⟨_, rfl⟩
    · split
      · exact ⟨_, rfl⟩
      · split <;> exact ⟨_, rfl⟩
  obtain ⟨found, hfound⟩ := exists_mapM_eq_ok hname
  exact ⟨_, bind_eq_ok_iff.2 ⟨found, hfound, rfl⟩⟩

end Rule

namespace Config

variable {d : Disk} {c : Config}

theorem exists_read_of_isPattern {s : String} (h : isPattern s = .ok true) :
    ∃ p, Pattern.read s = .ok p := by
  rw [isPattern] at h
  split at h
  · exact ⟨_, ‹_›⟩
  · cases h
  · cases h
  · cases h

theorem exists_read_of_checkConvention {field : String} {c : Convention} {w : Verdict}
    (h : checkConvention field c = .ok w) (hw : w.errors = []) :
    ∃ p, Pattern.read c.pattern = .ok p := by
  rw [checkConvention] at h
  split at h
  · rename_i hempty
    rw [String.isEmpty_iff.1 hempty]
    exact ⟨_, rfl⟩
  · obtain ⟨b, hb, h⟩ := bind_eq_ok_iff.1 h
    cases b with
    | true => exact exists_read_of_isPattern hb
    | false =>
      cases h
      cases hw

theorem exists_read_of_checkPatternOption {options : Json.Members} {key : String} {w : Verdict}
    (h : checkPatternOption options key = .ok w) (hw : w.errors = []) {v : Json}
    (hv : options.get? key = some v) : v = .null ∨ ∃ s p, v = .str s ∧ Pattern.read s = .ok p := by
  rw [checkPatternOption, hv] at h
  cases v with
  | null => exact .inl rfl
  | str s =>
    obtain ⟨b, hb, h⟩ := bind_eq_ok_iff.1 h
    cases b with
    | true =>
      obtain ⟨p, hp⟩ := exists_read_of_isPattern hb
      exact .inr ⟨s, p, rfl, hp⟩
    | false =>
      cases h
      cases hw
  | _ =>
    cases h
    cases hw

/-- A configuration without errors has patterns that can be read. -/
theorem patternsReadable_of_check {v : Verdict} (h : check d c = .ok v) (hv : v.errors = [])
    {r : RuleSetting} (hr : c.rule? namingRule = some r) :
    Rule.PatternsReadable ⟨r, c.conventions⟩ := by
  have hchecked := checked_of_check h
  constructor
  · intro kind
    obtain ⟨w, hw, hsub⟩ := hchecked.convention kind
    exact exists_read_of_checkConvention hw (List.subset_nil.1 (hv ▸ hsub))
  · intro key hkey v hopt
    obtain ⟨w, hw, hsub⟩ := hchecked.option r hr key hkey
    exact exists_read_of_checkPatternOption hw (List.subset_nil.1 (hv ▸ hsub)) hopt

end Config

namespace RuleTable

variable {c : Config} {p : Project}

/-- The rules that run all return exactly if the table does. -/
theorem exists_run_iff {α : Type} {rules : List (String × α)}
    {findings : α → Rule.Context → Rule.Findings} :
    (∃ found, run c rules findings = .ok found) ↔
      ∀ r ∈ rules, ∀ setting, active? c r.1 = some setting →
        ∃ found, findings r.2 ⟨setting, c.conventions⟩ = .ok found := by
  simp only [run, bind_eq_ok_iff]
  constructor
  · rintro ⟨found, groups, hgroups, -⟩ r hr setting hs
    obtain ⟨group, hg⟩ := exists_of_mapM_eq_ok hgroups hr
    simp only [hs] at hg
    exact ⟨group, hg⟩
  · intro h
    refine (exists_mapM_eq_ok fun r hr => ?_).elim fun groups hgroups =>
      ⟨groups.flatten, groups, hgroups, rfl⟩
    cases hs : active? c r.1 with
    | none => exact ⟨[], rfl⟩
    | some setting => exact h r hr setting hs

theorem exists_check_iff {t : RuleTable} :
    (∃ is, t.check c p = .ok is) ↔
      (∀ f ∈ p.exports, ∃ found, t.fileFindings c f.1 f.2 = .ok found) ∧
        ∃ found, t.projectFindings c p = .ok found := by
  simp only [check, bind_eq_ok_iff]
  constructor
  · rintro ⟨is, groups, hgroups, found, hfound, -⟩
    exact ⟨fun f hf => exists_of_mapM_eq_ok hgroups hf, found, hfound⟩
  · rintro ⟨hfiles, found, hfound⟩
    obtain ⟨groups, hgroups⟩ := exists_mapM_eq_ok hfiles
    exact ⟨_, groups, hgroups, found, hfound, rfl⟩

/-- An option of a rule, if the rule runs. -/
def optionOf? (c : Config) (rule key : String) : Option Json :=
  (active? c rule).bind fun setting => setting.options.get? key

/-- The options that list something can be used by the rules that run. -/
structure OptionsUsable (c : Config) (p : Project) : Prop where
  ignoreNames : ∀ v, optionOf? c "no-global-conflicts" "ignoreNames" = some v →
    Rule.listsNames v = true
  entryPoints : ∀ v, optionOf? c "no-unused-exports" "entryPoints" = some v →
    Rule.isListing v = true ∧
      ∀ globs, v = .arr globs → ∀ f ∈ p.files, Rule.DecidedByTexts (p.relative f) globs
  internalMarkers : ∀ v, optionOf? c "internal-access" "internalMarkers" = some v →
    Rule.listsNames v = true

variable {d : Disk} {v : Config.Verdict}

/-- Under a configuration without errors the rules on files return. -/
theorem exists_fileFindings (h : Config.check d c = .ok v) (hv : v.errors = []) (file : String)
    (es : List Export) : ∃ found, standard.fileFindings c file es = .ok found := by
  refine exists_run_iff.2 fun r hr setting hs => ?_
  simp only [standard, List.mem_cons, List.not_mem_nil, or_false] at hr
  rcases hr with rfl | rfl | rfl | rfl | rfl
  · have hrule := (Option.filter_eq_some_iff.1 hs).1
    exact Rule.exists_namesFollowConventions
      (Config.patternsReadable_of_check h hv hrule).exists_patternFor file es
  · exact ⟨_, rfl⟩
  · simp only [Rule.oneDefaultAtMost]
    split <;> exact ⟨_, rfl⟩
  · simp only [Rule.defaultIsNamedLikeFile]
    split
    · split <;> exact ⟨_, rfl⟩
    · exact ⟨_, rfl⟩
  · exact ⟨_, rfl⟩

theorem optionOf?_eq_some_iff {rule key : String} {w : Json} :
    optionOf? c rule key = some w ↔
      ∃ setting, active? c rule = some setting ∧ setting.options.get? key = some w := by
  simp [optionOf?, Option.bind_eq_some_iff]

/-- The rules on a project return exactly if those that run can use their options. -/
theorem exists_projectFindings_iff :
    (∃ found, standard.projectFindings c p = .ok found) ↔ OptionsUsable c p := by
  rw [projectFindings, exists_run_iff]
  constructor
  · intro h
    constructor
    · intro w hw
      obtain ⟨setting, hs, hw⟩ := optionOf?_eq_some_iff.1 hw
      have hrule := h ("no-global-conflicts", Rule.namesAreUnique) (by simp [standard]) setting hs
      exact Rule.exists_names_iff.1 (Rule.exists_namesAreUnique_iff.1 hrule) w hw
    · intro w hw
      obtain ⟨setting, hs, hw⟩ := optionOf?_eq_some_iff.1 hw
      have hrule := h ("no-unused-exports", Rule.exportsAreUsed) (by simp [standard]) setting hs
      exact Rule.exists_exportsAreUsed_iff.1 hrule w hw
    · intro w hw
      obtain ⟨setting, hs, hw⟩ := optionOf?_eq_some_iff.1 hw
      have hrule := h ("internal-access", Rule.boundariesAreKept) (by simp [standard]) setting hs
      exact Rule.exists_names_iff.1 (Rule.exists_boundariesAreKept_iff.1 hrule) w hw
  · intro h r hr setting hs
    simp only [standard, List.mem_cons, List.not_mem_nil, or_false] at hr
    rcases hr with rfl | rfl | rfl | rfl | rfl | rfl | rfl
    · exact Rule.exists_namesAreUnique_iff.2 <| Rule.exists_names_iff.2 fun w hw =>
        h.ignoreNames w (optionOf?_eq_some_iff.2 ⟨setting, hs, hw⟩)
    · exact ⟨_, rfl⟩
    · exact ⟨_, rfl⟩
    · exact ⟨_, rfl⟩
    · exact Rule.exists_exportsAreUsed_iff.2 fun w hw =>
        h.entryPoints w (optionOf?_eq_some_iff.2 ⟨setting, hs, hw⟩)
    · exact ⟨_, rfl⟩
    · exact Rule.exists_boundariesAreKept_iff.2 <| Rule.exists_names_iff.2 fun w hw =>
        h.internalMarkers w (optionOf?_eq_some_iff.2 ⟨setting, hs, hw⟩)

/-- Under a configuration that is read and found without errors, the analysis of a project returns
issues exactly if the rules that run can use their options: the names to ignore and the markers
list what can be a name, and the entry points list globs. -/
theorem accepted_analysis_returns_iff {data : Json}
    (h : Config.ofData d data = .ok (some c, v)) (hv : v.isValid = true) (p : Project) :
    (∃ is, standard.check c p = .ok is) ↔ OptionsUsable c p := by
  have hcheck : Config.check d c = .ok v := by
    rw [Config.ofData] at h
    split at h
    · obtain ⟨w, hw, h⟩ := bind_eq_ok_iff.1 h
      cases h
      exact hw
    · cases h
  rw [exists_check_iff, exists_projectFindings_iff]
  constructor
  · exact And.right
  · exact fun husable => ⟨fun f _ =>
      exists_fileFindings hcheck (List.isEmpty_iff.1 hv) f.1 f.2, husable⟩

/-- Settings under which the names to ignore are a number. -/
def numberToIgnore : Json :=
  .obj [("rootPath", .str "proj"), ("rules", .arr [.obj [("name", .str "no-global-conflicts"),
    ("options", .obj [("ignoreNames", .int 5)])]])]

/-- A disk with the root of a project. -/
def rootDisk : Disk where
  here := ["work"]
  entries := [(["work", "proj"], .directory)]

/-- The configuration that they describe. -/
def ignoringConfig : Config where
  rootPath := "proj"
  scan := .standard
  rules := [{ name := "no-global-conflicts", options := [("ignoreNames", .int 5)] }]
  conventions := .standard

/-- The settings are read and found without errors, and the analysis of a project with one file
fails on them. -/
theorem numberToIgnore_fails :
    ∃ v, Config.ofData rootDisk numberToIgnore = .ok (some ignoringConfig, v) ∧ v.isValid = true ∧
      ¬∃ is, standard.check ignoringConfig
        { here := ["work"], root := "proj", exports := [("proj/a.ts", [])] } = .ok is := by
  have hread : Config.read numberToIgnore = .valid ignoringConfig := rfl
  have hcheck : (Config.check rootDisk ignoringConfig).toOption.any (·.isValid) = true := by
    decide +kernel
  obtain ⟨v, hv, hvalid⟩ := (Option.any_eq_true ..).1 hcheck
  have h : Config.ofData rootDisk numberToIgnore = .ok (some ignoringConfig, v) := by
    cases hc : Config.check rootDisk ignoringConfig with
    | ok w =>
      rw [hc] at hv
      cases hv
      simp only [Config.ofData, hread, hc, bind, Except.bind, pure, Except.pure]
    | error e =>
      rw [hc] at hv
      cases hv
  refine ⟨v, h, hvalid, ?_⟩
  rw [accepted_analysis_returns_iff h hvalid]
  intro husable
  exact absurd (husable.ignoreNames (.int 5) rfl) (by decide)

end RuleTable

end ExportLint
