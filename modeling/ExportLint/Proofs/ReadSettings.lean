import ExportLint.Config.Basic
import ExportLint.Proofs.SettingsMerging

/-!
# What settings are read as

A record is read if each of its fields is. So a configuration and its parts are read from an object
exactly if every field of theirs is read from the member under its key, or is left to its default.
-/
namespace ExportLint

namespace Validated

variable {α β : Type}

theorem map_eq_valid_iff {f : α → β} {v : Validated α} {b : β} :
    f <$> v = .valid b ↔ ∃ a, v = .valid a ∧ f a = b := by
  cases v <;> simp [Functor.map, map]

theorem seq_eq_valid_iff {f : Validated (α → β)} {v : Validated α} {b : β} :
    f <*> v = .valid b ↔ ∃ g a, f = .valid g ∧ v = .valid a ∧ g a = b :=
  ap_eq_valid_iff

theorem under_eq_valid_iff {step : String} {v : Validated α} {a : α} :
    v.under step = .valid a ↔ v = .valid a := by
  cases v <;> simp [under]

end Validated

namespace Schema

variable {α : Type} {ms : Json.Members} {key : String} {read : Reader α} {a default : α} {v : Json}

theorem mem_of_lookup? {k : String} {v : Json} (h : lookup? ms key = some (k, v)) :
    (k, v) ∈ ms ∧ (k = key ∨ k = underscored key) := by
  simp only [lookup?] at h
  split at h
  · rename_i w hw
    cases h
    exact ⟨Json.mem_of_get? hw, .inl rfl⟩
  · obtain ⟨w, hw, he⟩ := Option.map_eq_some_iff.1 h
    cases he
    exact ⟨Json.mem_of_get? hw, .inr rfl⟩

/-- A field that is read comes from a member under one of its keys. -/
theorem exists_mem_of_field (h : field ms key read = .valid a) :
    ∃ k v, (k, v) ∈ ms ∧ (k = key ∨ k = underscored key) ∧ read v = .valid a := by
  simp only [field] at h
  split at h
  · rename_i k v hlookup
    obtain ⟨hmem, hk⟩ := mem_of_lookup? hlookup
    exact ⟨k, v, hmem, hk, Validated.under_eq_valid_iff.1 h⟩
  · cases h

theorem exists_mem_of_fieldOr (h : fieldOr ms key default read = .valid a) :
    a = default ∨ ∃ k v, (k, v) ∈ ms ∧ read v = .valid a := by
  simp only [fieldOr] at h
  split at h
  · rename_i k v hlookup
    exact .inr ⟨k, v, (mem_of_lookup? hlookup).1, Validated.under_eq_valid_iff.1 h⟩
  · cases h
    exact .inl rfl

/-- A field is read from the value under its key, if there is one. -/
theorem read_of_fieldOr (h : fieldOr ms key default read = .valid a) (hv : ms.get? key = some v) :
    read v = .valid a := by
  rw [fieldOr, lookup?, hv] at h
  exact Validated.under_eq_valid_iff.1 h

theorem exists_object_of_record {kind : String} {f : Json.Members → Validated α}
    (h : record kind f v = .valid a) : ∃ ms, v = .obj ms ∧ f ms = .valid a := by
  cases v with
  | obj ms => exact ⟨ms, rfl, h⟩
  | _ => cases h

theorem exists_mem_of_itemsFrom {i : Nat} {vs : List Json} {as : List α}
    (h : itemsFrom read i vs = .valid as) : ∀ a ∈ as, ∃ v ∈ vs, read v = .valid a := by
  induction vs generalizing i as with
  | nil =>
    cases h
    exact fun a ha => (List.not_mem_nil ha).elim
  | cons v vs ih =>
    obtain ⟨g, rest, hfirst, hrest, rfl⟩ := Validated.seq_eq_valid_iff.1 h
    obtain ⟨first, hv, rfl⟩ := Validated.map_eq_valid_iff.1 hfirst
    intro a ha
    rcases List.mem_cons.1 ha with rfl | ha
    · exact ⟨v, List.mem_cons_self, Validated.under_eq_valid_iff.1 hv⟩
    · obtain ⟨w, hw, hread⟩ := ih hrest a ha
      exact ⟨w, List.mem_cons_of_mem v hw, hread⟩

/-- Every item of a list that is read can be read. -/
theorem exists_read_of_itemsFrom {i : Nat} {vs : List Json} {as : List α}
    (h : itemsFrom read i vs = .valid as) : ∀ v ∈ vs, ∃ a, read v = .valid a := by
  induction vs generalizing i as with
  | nil => exact fun v hv => (List.not_mem_nil hv).elim
  | cons v vs ih =>
    obtain ⟨g, rest, hfirst, hrest, rfl⟩ := Validated.seq_eq_valid_iff.1 h
    obtain ⟨first, hv, rfl⟩ := Validated.map_eq_valid_iff.1 hfirst
    exact List.forall_mem_cons.2 ⟨⟨first, Validated.under_eq_valid_iff.1 hv⟩, ih hrest⟩

/-- What is read from a list in two parts has two parts. -/
theorem exists_append_of_itemsFrom {i : Nat} {vs ws : List Json} {as : List α}
    (h : itemsFrom read i (vs ++ ws) = .valid as) : ∃ bs cs, as = bs ++ cs ∧
      itemsFrom read i vs = .valid bs ∧ itemsFrom read (i + vs.length) ws = .valid cs := by
  induction vs generalizing i as with
  | nil => exact ⟨[], as, rfl, rfl, h⟩
  | cons v vs ih =>
    obtain ⟨g, rest, hfirst, hrest, rfl⟩ := Validated.seq_eq_valid_iff.1 h
    obtain ⟨first, hv, rfl⟩ := Validated.map_eq_valid_iff.1 hfirst
    obtain ⟨bs, cs, rfl, hbs, hcs⟩ := ih hrest
    refine ⟨first :: bs, cs, rfl, ?_, ?_⟩
    · rw [itemsFrom, hv, hbs]
      rfl
    · rwa [List.length_cons, Nat.add_comm vs.length 1, ← Nat.add_assoc]

end Schema

open Schema (field fieldOr)

variable {ms : Json.Members}

theorem ScanOptions.read_obj_iff {o : ScanOptions} : read (.obj ms) = .valid o ↔
    fieldOr ms "include" standard.included (Schema.list Schema.string) = .valid o.included ∧
    fieldOr ms "exclude" standard.excluded (Schema.list Schema.string) = .valid o.excluded ∧
    fieldOr ms "recursive" true Schema.boolean = .valid o.recursive ∧
    fieldOr ms "maxDepth" (some 10) (Schema.optional Schema.integer) = .valid o.maxDepth ∧
    fieldOr ms "followSymlinks" false Schema.boolean = .valid o.followLinks := by
  constructor
  · intro h
    obtain ⟨_, followLinks, h1, hlinks, rfl⟩ := Validated.seq_eq_valid_iff.1 h
    obtain ⟨_, maxDepth, h2, hdepth, rfl⟩ := Validated.seq_eq_valid_iff.1 h1
    obtain ⟨_, recursive, h3, hrecursive, rfl⟩ := Validated.seq_eq_valid_iff.1 h2
    obtain ⟨_, excluded, h4, hexcluded, rfl⟩ := Validated.seq_eq_valid_iff.1 h3
    obtain ⟨included, hincluded, rfl⟩ := Validated.map_eq_valid_iff.1 h4
    exact ⟨hincluded, hexcluded, hrecursive, hdepth, hlinks⟩
  · rintro ⟨hincluded, hexcluded, hrecursive, hdepth, hlinks⟩
    rw [read, Schema.record, hincluded, hexcluded, hrecursive, hdepth, hlinks]
    rfl

theorem RuleSetting.read_obj_iff {r : RuleSetting} : read (.obj ms) = .valid r ↔
    field ms "name" Schema.string = .valid r.name ∧
    fieldOr ms "description" "" Schema.string = .valid r.description ∧
    fieldOr ms "enabled" true Schema.boolean = .valid r.enabled ∧
    fieldOr ms "severity" .warning Schema.named = .valid r.severity ∧
    fieldOr ms "options" [] Schema.free = .valid r.options := by
  constructor
  · intro h
    obtain ⟨_, options, h1, hoptions, rfl⟩ := Validated.seq_eq_valid_iff.1 h
    obtain ⟨_, severity, h2, hseverity, rfl⟩ := Validated.seq_eq_valid_iff.1 h1
    obtain ⟨_, enabled, h3, henabled, rfl⟩ := Validated.seq_eq_valid_iff.1 h2
    obtain ⟨_, description, h4, hdescription, rfl⟩ := Validated.seq_eq_valid_iff.1 h3
    obtain ⟨name, hname, rfl⟩ := Validated.map_eq_valid_iff.1 h4
    exact ⟨hname, hdescription, henabled, hseverity, hoptions⟩
  · rintro ⟨hname, hdescription, henabled, hseverity, hoptions⟩
    rw [read, Schema.record, hname, hdescription, henabled, hseverity, hoptions]
    rfl

theorem Convention.read_obj_iff {c : Convention} : read (.obj ms) = .valid c ↔
    field ms "pattern" Schema.string = .valid c.pattern ∧
    field ms "caseStyle" Schema.named = .valid c.style := by
  constructor
  · intro h
    obtain ⟨_, style, h1, hstyle, rfl⟩ := Validated.seq_eq_valid_iff.1 h
    obtain ⟨pattern, hpattern, rfl⟩ := Validated.map_eq_valid_iff.1 h1
    exact ⟨hpattern, hstyle⟩
  · rintro ⟨hpattern, hstyle⟩
    rw [read, Schema.record, hpattern, hstyle]
    rfl

/-- Conventions have a field for each kind of export. -/
theorem Conventions.read_obj_iff {c : Conventions} : read (.obj ms) = .valid c ↔
    ∀ k, fieldOr ms (fieldOf k) (standard.forKind k) Convention.read = .valid (c.forKind k) := by
  constructor
  · intro h
    obtain ⟨_, constants, h1, hconstants, rfl⟩ := Validated.seq_eq_valid_iff.1 h
    obtain ⟨_, classes, h2, hclasses, rfl⟩ := Validated.seq_eq_valid_iff.1 h1
    obtain ⟨_, functions, h3, hfunctions, rfl⟩ := Validated.seq_eq_valid_iff.1 h2
    obtain ⟨_, components, h4, hcomponents, rfl⟩ := Validated.seq_eq_valid_iff.1 h3
    obtain ⟨_, types, h5, htypes, rfl⟩ := Validated.seq_eq_valid_iff.1 h4
    obtain ⟨interfaces, hinterfaces, rfl⟩ := Validated.map_eq_valid_iff.1 h5
    intro k
    cases k with
    | interface => exact hinterfaces
    | typeAlias => exact htypes
    | component => exact hcomponents
    | function => exact hfunctions
    | classDef => exact hclasses
    | constant => exact hconstants
  · intro h
    have hinterfaces : fieldOr ms "interfaces" _ _ = _ := h .interface
    have htypes : fieldOr ms "types" _ _ = _ := h .typeAlias
    have hcomponents : fieldOr ms "components" _ _ = _ := h .component
    have hfunctions : fieldOr ms "functions" _ _ = _ := h .function
    have hclasses : fieldOr ms "classes" _ _ = _ := h .classDef
    have hconstants : fieldOr ms "constants" _ _ = _ := h .constant
    simp only [forKind] at hinterfaces htypes hcomponents hfunctions hclasses hconstants
    rw [read, Schema.record, hinterfaces, htypes, hcomponents, hfunctions, hclasses, hconstants]
    rfl

theorem FixPolicy.read_obj_iff {p : FixPolicy} : read (.obj ms) = .valid p ↔
    fieldOr ms "enabled" false Schema.boolean = .valid p.enabled ∧
    fieldOr ms "createBackup" true Schema.boolean = .valid p.createBackup ∧
    fieldOr ms "maxRiskLevel" .medium Schema.named = .valid p.maxRisk ∧
    fieldOr ms "backupDirectory" none (Schema.optional Schema.string) =
      .valid p.backupDirectory := by
  constructor
  · intro h
    obtain ⟨_, backupDirectory, h1, hdirectory, rfl⟩ := Validated.seq_eq_valid_iff.1 h
    obtain ⟨_, maxRisk, h2, hrisk, rfl⟩ := Validated.seq_eq_valid_iff.1 h1
    obtain ⟨_, createBackup, h3, hbackup, rfl⟩ := Validated.seq_eq_valid_iff.1 h2
    obtain ⟨enabled, henabled, rfl⟩ := Validated.map_eq_valid_iff.1 h3
    exact ⟨henabled, hbackup, hrisk, hdirectory⟩
  · rintro ⟨henabled, hbackup, hrisk, hdirectory⟩
    rw [read, Schema.record, henabled, hbackup, hrisk, hdirectory]
    rfl

theorem ReportingOptions.read_obj_iff {r : ReportingOptions} : read (.obj ms) = .valid r ↔
    fieldOr ms "format" .console Schema.named = .valid r.format ∧
    fieldOr ms "outputPath" none (Schema.optional Schema.string) = .valid r.outputPath ∧
    fieldOr ms "verbose" false Schema.boolean = .valid r.verbose := by
  constructor
  · intro h
    obtain ⟨_, verbose, h1, hverbose, rfl⟩ := Validated.seq_eq_valid_iff.1 h
    obtain ⟨_, outputPath, h2, hpath, rfl⟩ := Validated.seq_eq_valid_iff.1 h1
    obtain ⟨format, hformat, rfl⟩ := Validated.map_eq_valid_iff.1 h2
    exact ⟨hformat, hpath, hverbose⟩
  · rintro ⟨hformat, hpath, hverbose⟩
    rw [read, Schema.record, hformat, hpath, hverbose]
    rfl

theorem Config.read_obj_iff {c : Config} : read (.obj ms) = .valid c ↔
    field ms "rootPath" Schema.string = .valid c.rootPath ∧
    fieldOr ms "scanOptions" .standard ScanOptions.read = .valid c.scan ∧
    fieldOr ms "rules" [] (Schema.list RuleSetting.read) = .valid c.rules ∧
    fieldOr ms "namingConventions" .standard Conventions.read = .valid c.conventions ∧
    fieldOr ms "autoFix" {} FixPolicy.read = .valid c.fixing ∧
    fieldOr ms "reporting" {} ReportingOptions.read = .valid c.reporting := by
  constructor
  · intro h
    obtain ⟨_, reporting, h1, hreporting, rfl⟩ := Validated.seq_eq_valid_iff.1 h
    obtain ⟨_, fixing, h2, hfixing, rfl⟩ := Validated.seq_eq_valid_iff.1 h1
    obtain ⟨_, conventions, h3, hconventions, rfl⟩ := Validated.seq_eq_valid_iff.1 h2
    obtain ⟨_, rules, h4, hrules, rfl⟩ := Validated.seq_eq_valid_iff.1 h3
    obtain ⟨_, scan, h5, hscan, rfl⟩ := Validated.seq_eq_valid_iff.1 h4
    obtain ⟨root, hroot, rfl⟩ := Validated.map_eq_valid_iff.1 h5
    exact ⟨hroot, hscan, hrules, hconventions, hfixing, hreporting⟩
  · rintro ⟨hroot, hscan, hrules, hconventions, hfixing, hreporting⟩
    rw [read, Schema.record, hroot, hscan, hrules, hconventions, hfixing, hreporting]
    rfl

end ExportLint
