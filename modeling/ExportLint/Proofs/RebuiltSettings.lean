import ExportLint.Audit.Run
import ExportLint.Proofs.Attempts
import ExportLint.Proofs.IssueData
import ExportLint.Proofs.ReadSettings

/-!
# Configurations read back from their data

The data of a configuration leave out what is not set, and reading them back fills the gaps with
what is standard. There is a difference for the depth of a scan only: a scan may go down without a
limit, and the standard one does not.
-/
namespace ExportLint

namespace ScanOptions

/-- The scan goes as deep as the standard one, unless it has a limit of its own. -/
def limited (o : ScanOptions) : ScanOptions := { o with maxDepth := some (o.maxDepth.getD 10) }

theorem limited_eq_self_iff {o : ScanOptions} : o.limited = o ↔ o.maxDepth ≠ none := by
  obtain ⟨included, excluded, recursive, maxDepth, followLinks⟩ := o
  cases maxDepth <;> simp [limited]

/-- A limit that is left out is read as the standard one. -/
theorem maxDepth_toJson {o : ScanOptions} {ms : Json.Members}
    (h : ms.get? "maxDepth" = o.maxDepth.map .int) (hspelling : ms.get? "max_depth" = none) :
    Schema.fieldOr ms "maxDepth" (some 10) (Schema.optional Schema.integer) =
      .valid (some (o.maxDepth.getD 10)) := by
  cases hdepth : o.maxDepth with
  | some n =>
    rw [hdepth] at h
    exact Schema.fieldOr_of_get? h rfl
  | none =>
    have hkey : Schema.underscored "maxDepth" = "max_depth" := by decide
    rw [hdepth] at h
    rw [Schema.fieldOr, Schema.lookup?, h, hkey]
    dsimp only [Option.map_none]
    rw [hspelling]
    rfl

theorem read_toJson (o : ScanOptions) : read o.toJson = .valid o.limited := by
  refine read_obj_iff.2 ⟨?_, ?_, ?_, ?_, ?_⟩
  · exact Schema.fieldOr_of_get? rfl (Schema.list_strings o.included)
  · exact Schema.fieldOr_of_get? rfl (Schema.list_strings o.excluded)
  · exact Schema.fieldOr_of_get? rfl (Schema.boolean_bool o.recursive)
  · exact maxDepth_toJson (by simp [Json.Members.get?_cons]) (by simp [Json.Members.get?_cons])
  · exact Schema.fieldOr_of_get? (by simp [Json.Members.get?_cons])
      (Schema.boolean_bool o.followLinks)

end ScanOptions

theorem RuleSetting.read_toJson (r : RuleSetting) : read r.toJson = .valid r :=
  read_obj_iff.2 ⟨Schema.field_of_get? rfl (Schema.string_str r.name),
    Schema.fieldOr_of_get? rfl (Schema.string_str r.description),
    Schema.fieldOr_of_get? rfl (Schema.boolean_bool r.enabled),
    Schema.fieldOr_of_get? rfl (Issue.named_severity r.severity),
    Schema.fieldOr_of_get? rfl (Schema.free_obj r.options)⟩

theorem Convention.read_toJson (c : Convention) : read c.toJson = .valid c := by
  have hstyle : Schema.named (.str (Named.name c.style)) = .valid c.style := by
    cases c.style <;> rfl
  exact read_obj_iff.2 ⟨Schema.field_of_get? rfl (Schema.string_str c.pattern),
    Schema.field_of_get? rfl hstyle⟩

theorem Conventions.read_toJson (c : Conventions) : read c.toJson = .valid c := by
  refine read_obj_iff.2 fun k => Schema.fieldOr_of_get? ?_ (c.forKind k).read_toJson
  cases k <;> rfl

theorem FixPolicy.read_toJson (p : FixPolicy) : read p.toJson = .valid p := by
  have hrisk : Schema.named (.str (Named.name p.maxRisk)) = .valid p.maxRisk := by
    cases p.maxRisk <;> rfl
  have hspelling : Schema.underscored "backupDirectory" = "backup_directory" := by decide
  refine read_obj_iff.2 ⟨?_, ?_, ?_, ?_⟩
  · exact Schema.fieldOr_of_get? rfl (Schema.boolean_bool p.enabled)
  · exact Schema.fieldOr_of_get? rfl (Schema.boolean_bool p.createBackup)
  · exact Schema.fieldOr_of_get? rfl hrisk
  · refine Schema.fieldOr_optional (by simp [Json.Members.get?_cons]) (.inr ?_) Schema.string_str
      (by simp)
    simp [hspelling, Json.Members.get?_cons]

theorem ReportingOptions.read_toJson (r : ReportingOptions) : read r.toJson = .valid r := by
  have hformat : Schema.named (.str (Named.name r.format)) = .valid r.format := by
    cases r.format <;> rfl
  have hspelling : Schema.underscored "outputPath" = "output_path" := by decide
  refine read_obj_iff.2 ⟨?_, ?_, ?_⟩
  · exact Schema.fieldOr_of_get? rfl hformat
  · refine Schema.fieldOr_optional (by simp [Json.Members.get?_cons]) (.inr ?_) Schema.string_str
      (by simp)
    simp [hspelling, Json.Members.get?_cons]
  · exact Schema.fieldOr_of_get? (by simp [Json.Members.get?_cons])
      (Schema.boolean_bool r.verbose)

namespace Config

/-- The configuration with a limit to the depth of its scan. -/
def limited (c : Config) : Config := { c with scan := c.scan.limited }

theorem limited_eq_self_iff {c : Config} : c.limited = c ↔ c.scan.maxDepth ≠ none := by
  rw [← ScanOptions.limited_eq_self_iff]
  exact ⟨fun h => congrArg scan h, fun h => by rw [limited, h]⟩

theorem read_toJson (c : Config) : read c.toJson = .valid c.limited :=
  read_obj_iff.2 ⟨Schema.field_of_get? rfl (Schema.string_str c.rootPath),
    Schema.fieldOr_of_get? rfl c.scan.read_toJson,
    Schema.fieldOr_of_get? rfl (Schema.list_map RuleSetting.read_toJson c.rules),
    Schema.fieldOr_of_get? rfl c.conventions.read_toJson,
    Schema.fieldOr_of_get? rfl c.fixing.read_toJson,
    Schema.fieldOr_of_get? rfl c.reporting.read_toJson⟩

end Config

namespace Audit

variable {s : Setting} {d : Disk} {now : Moment} {files : Option (List String)}
  {fixing : Option Fix.Options} {o : Outcome}

/-- A result holds the data of the configuration that it was found under, which passed its check. -/
theorem exists_config_of_run (h : run s d now files fixing = .ok o) :
    (∃ v, s.config.check d = .ok v ∧ v.isValid = true) ∧
      ∃ ms, s.config.toJson = .obj ms ∧ o.result.config = some ms := by
  obtain ⟨v, hcheck, h⟩ := bind_eq_ok_iff.1 h
  cases hvalid : v.isValid with
  | false =>
    rw [hvalid] at h
    cases h
  | true =>
    rw [hvalid] at h
    obtain ⟨issues, -, h⟩ := bind_eq_ok_iff.1 h
    refine ⟨⟨v, hcheck, hvalid⟩, _, rfl, ?_⟩
    dsimp only at h
    split at h <;> obtain ⟨batch, -, h⟩ := bind_eq_ok_iff.1 h <;> cases h <;> rfl

/-- A configuration is rebuilt from its data exactly if the depth of its scan is limited, and the
data are those that the result of an audit holds. -/
theorem snapshot_rebuilt_iff (c : Config) :
    (Config.read c.toJson = .valid c ↔ c.scan.maxDepth ≠ none) ∧
      ∀ s d now files fixing o, s.config = c → run s d now files fixing = .ok o →
        ∃ ms, o.result.config = some ms ∧ Config.read (.obj ms) = Config.read c.toJson := by
  refine ⟨?_, ?_⟩
  · rw [Config.read_toJson, Validated.valid.injEq, Config.limited_eq_self_iff]
  · rintro s d now files fixing o rfl h
    obtain ⟨-, ms, hms, hconfig⟩ := exists_config_of_run h
    exact ⟨ms, hconfig, by rw [hms]⟩

/-- A configuration whose scan goes down without a limit. -/
def unlimitedConfig : Config where
  rootPath := "proj"
  scan := { ScanOptions.standard with maxDepth := none }
  conventions := .standard

/-- An audit may run under it, and what the result says of it is another configuration. -/
theorem unlimitedConfig_not_rebuilt :
    ∃ o ms, run { config := unlimitedConfig } ⟨["work"], [(["work", "proj"], .directory)]⟩
        ⟨2024, 1, 2, 3, 4, 5, 0, some 0⟩ (some []) none = .ok o ∧
      o.result.config = some ms ∧ Config.read (.obj ms) ≠ .valid unlimitedConfig := by
  have hok : (run { config := unlimitedConfig } ⟨["work"], [(["work", "proj"], .directory)]⟩
      ⟨2024, 1, 2, 3, 4, 5, 0, some 0⟩ (some []) none).isOk = true := by decide +kernel
  obtain ⟨o, ho⟩ := exists_ok_of_isOk hok
  obtain ⟨hiff, hsnapshot⟩ := snapshot_rebuilt_iff unlimitedConfig
  obtain ⟨ms, hms, hread⟩ := hsnapshot _ _ _ _ _ _ rfl ho
  refine ⟨o, ms, ho, hms, ?_⟩
  rw [hread, ne_eq, hiff]
  exact fun h => h rfl

end Audit

end ExportLint
