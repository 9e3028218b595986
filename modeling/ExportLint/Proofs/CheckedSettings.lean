import ExportLint.Config.Check
import ExportLint.Proofs.Attempts

/-!
# Verdicts on configurations

The verdict on a configuration is put together from verdicts on its fields. There is one unless a
pattern in the configuration repeats a part more often than can be counted, or has flags for two
alphabets.
-/
namespace ExportLint.Config

variable {d : Disk} {c : Config} {v : Verdict}

namespace Verdict

theorem errors_append (v w : Verdict) : (v ++ w).errors = v.errors ++ w.errors := rfl

theorem errors_foldl (vs : List Verdict) (v : Verdict) :
    (vs.foldl (· ++ ·) v).errors = v.errors ++ vs.flatMap (·.errors) := by
  induction vs generalizing v with
  | nil => simp
  | cons w vs ih => simp [ih, errors_append]

theorem errors_joined (vs : List Verdict) : (joined vs).errors = vs.flatMap (·.errors) :=
  errors_foldl vs fine

/-- What one of several verdicts says, all of them say together. -/
theorem errors_subset_joined {w : Verdict} {vs : List Verdict} (h : w ∈ vs) :
    w.errors ⊆ (joined vs).errors := by
  rw [errors_joined]
  exact fun m hm => List.mem_flatMap.2 ⟨w, h, hm⟩

end Verdict

/-- The options of the naming rule that hold patterns. -/
def patternOptions : List String := ["defaultExport", "namedExport"]

/-- The errors of a verdict are those of the fields. -/
structure Checked (d : Disk) (c : Config) (v : Verdict) : Prop where
  root : (checkRoot d c.rootPath).errors ⊆ v.errors
  scan : (checkScan c.scan).errors ⊆ v.errors
  convention : ∀ k, ∃ w, checkConvention (Conventions.fieldOf k) (c.conventions.forKind k) = .ok w ∧
    w.errors ⊆ v.errors
  option : ∀ r, c.rule? namingRule = some r → ∀ key ∈ patternOptions,
    ∃ w, checkPatternOption r.options key = .ok w ∧ w.errors ⊆ v.errors

theorem mem_kinds (k : ExportKind) : k ∈ (Named.all : List ExportKind) := by
  cases k <;> decide

theorem exists_parts_of_check (h : check d c = .ok v) : ∃ conventions options : List Verdict,
    v = checkRoot d c.rootPath ++ checkScan c.scan ++ checkRules 0 [] c.rules ++
      .joined conventions ++ .joined options ∧
    (∀ k, ∃ w ∈ conventions,
      checkConvention (Conventions.fieldOf k) (c.conventions.forKind k) = .ok w) ∧
    ∀ r, c.rule? namingRule = some r → ∀ key ∈ patternOptions, ∃ w ∈ options,
      checkPatternOption r.options key = .ok w := by
  obtain ⟨conventions, hconventions, h⟩ := bind_eq_ok_iff.1 h
  have hkind (k : ExportKind) : ∃ w ∈ conventions,
      checkConvention (Conventions.fieldOf k) (c.conventions.forKind k) = .ok w := by
    obtain ⟨w, hw⟩ := exists_of_mapM_eq_ok hconventions (mem_kinds k)
    exact ⟨w, (mem_of_mapM_eq_ok hconventions).2 ⟨k, mem_kinds k, hw⟩, hw⟩
  cases hr : c.rule? namingRule with
  | none =>
    rw [hr] at h
    cases h
    exact ⟨conventions, [], rfl, hkind, fun r hr => by cases hr⟩
  | some r =>
    rw [hr] at h
    obtain ⟨options, hoptions, h⟩ := bind_eq_ok_iff.1 h
    cases h
    refine ⟨conventions, options, rfl, hkind, fun r' hr' key hkey => ?_⟩
    cases hr'
    obtain ⟨w, hw⟩ := exists_of_mapM_eq_ok hoptions hkey
    exact ⟨w, (mem_of_mapM_eq_ok hoptions).2 ⟨key, hkey, hw⟩, hw⟩

theorem checked_of_check (h : check d c = .ok v) : Checked d c v := by
  obtain ⟨conventions, options, rfl, hconventions, hoptions⟩ := exists_parts_of_check h
  refine ⟨fun m hm => ?_, fun m hm => ?_, fun k => ?_, fun r hr key hkey => ?_⟩
  · simp [Verdict.errors_append, hm]
  · simp [Verdict.errors_append, hm]
  · obtain ⟨w, hmem, hw⟩ := hconventions k
    refine ⟨w, hw, fun m hm => ?_⟩
    simp [Verdict.errors_append, Verdict.errors_subset_joined hmem hm]
  · obtain ⟨w, hmem, hw⟩ := hoptions r hr key hkey
    refine ⟨w, hw, fun m hm => ?_⟩
    simp [Verdict.errors_append, Verdict.errors_subset_joined hmem hm]

/-- A check looks at the disk for the root only. -/
theorem check_congr {d' : Disk} (h : checkRoot d' c.rootPath = checkRoot d c.rootPath) :
    check d' c = check d c := by
  simp only [check, h]

/-- The text under an option, which is read as a pattern. -/
def optionPattern? (options : Json.Members) (key : String) : Option String :=
  match options.get? key with
  | some (.str s) => some s
  | _ => none

theorem optionPattern?_eq_some_iff {options : Json.Members} {key p : String} :
    optionPattern? options key = some p ↔ options.get? key = some (.str p) := by
  rw [optionPattern?]
  split
  · rename_i s hs
    rw [hs, Option.some.injEq, Option.some.injEq, Json.str.injEq]
  · rename_i hnot
    exact iff_of_false (by simp) fun h => hnot p h

/-- The patterns that a check reads: those of the conventions, and those in the options of the
naming rule. -/
def patterns (c : Config) : List String :=
  (Named.all : List ExportKind).map (fun k => (c.conventions.forKind k).pattern) ++
    (c.rule? namingRule).toList.flatMap fun r => patternOptions.filterMap (optionPattern? r.options)

theorem exists_checkConvention_iff {field : String} {c : Convention} :
    (∃ w, checkConvention field c = .ok w) ↔ (isPattern c.pattern).isOk = true := by
  rw [checkConvention]
  split
  · rename_i hempty
    rw [String.isEmpty_iff.1 hempty]
    exact iff_of_true ⟨_, rfl⟩ rfl
  · exact exists_bind_ok_iff fun fits => by cases fits <;> exact ⟨_, rfl⟩

theorem exists_checkPatternOption_iff {options : Json.Members} {key : String} :
    (∃ w, checkPatternOption options key = .ok w) ↔
      ∀ p ∈ optionPattern? options key, (isPattern p).isOk = true := by
  rw [checkPatternOption, optionPattern?]
  cases options.get? key with
  | none => simp
  | some o =>
    cases o with
    | str s =>
      simp only [Option.mem_def, Option.some.injEq, forall_eq']
      exact exists_bind_ok_iff fun fits => by cases fits <;> exact ⟨_, rfl⟩
    | _ => simp

/-- There is a verdict exactly if there is one on every pattern. -/
theorem exists_verdict_iff :
    (∃ v, check d c = .ok v) ↔ ∀ p ∈ c.patterns, (isPattern p).isOk = true := by
  simp only [patterns, List.forall_mem_append, List.forall_mem_map, List.mem_flatMap,
    List.mem_filterMap, Option.mem_toList]
  constructor
  · rintro ⟨v, hv⟩
    have h := checked_of_check hv
    refine ⟨fun k _ => ?_, ?_⟩
    · obtain ⟨w, hw, -⟩ := h.convention k
      exact exists_checkConvention_iff.1 ⟨w, hw⟩
    · rintro p ⟨r, hr, key, hkey, hp⟩
      obtain ⟨w, hw, -⟩ := h.option r hr key hkey
      exact exists_checkPatternOption_iff.1 ⟨w, hw⟩ p hp
  · rintro ⟨hconventions, hoptions⟩
    obtain ⟨ws, hws⟩ := exists_mapM_eq_ok (l := (Named.all : List ExportKind))
      (f := fun k => checkConvention (Conventions.fieldOf k) (c.conventions.forKind k))
      fun k hk => exists_checkConvention_iff.2 (hconventions k hk)
    rw [check, hws]
    cases hr : c.rule? namingRule with
    | none => exact ⟨_, rfl⟩
    | some r =>
      obtain ⟨ws', hws'⟩ := exists_mapM_eq_ok (l := patternOptions) fun key hkey =>
        exists_checkPatternOption_iff.2 fun p hp => hoptions p ⟨r, hr, key, hkey, hp⟩
      rw [patternOptions] at hws'
      simp only [bind, Except.bind]
      rw [hws']
      exact ⟨_, rfl⟩

end ExportLint.Config
