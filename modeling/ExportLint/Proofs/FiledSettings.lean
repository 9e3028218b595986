import ExportLint.Proofs.SavedSettings
import ExportLint.Proofs.ShadowedKeys

/-!
# Settings in a file and settings given as overrides

Overrides may be given in either spelling of the keys, and are merged in camel case. The settings in
a file are merged as they stand, so those that the standard settings shadow are not heard. Filing
settings comes to the same as overriding with what is heard of them.
-/
namespace ExportLint.Config

open Json (Members Legible)

variable {d d' : Disk} {root : String} {bytes : List UInt8} {cs : List Char} {data ms : Members}

/-- What a project comes to when settings are merged into its standard ones. -/
def merged (d : Disk) (root : String) (ms : Members) : Except Failure Config := do
  let data ← mergeMembers (standardData root) ms
  Draft.finish d ⟨root, none, .obj data⟩

/-- What is heard of settings beside the standard ones of a project. -/
def heard (root : String) (ms : Members) : Members := heardMembers (standardData root) ms

/-- A draft is finished as it is read and checked. -/
theorem finish_congr {draft draft' : Draft}
    (hread : Config.read draft'.data = Config.read draft.data)
    (hcheck : ∀ c, Config.read draft.data = .valid c → check d' c = check d c) :
    draft'.finish d' = draft.finish d := by
  rw [Draft.finish, Draft.finish, ofData, ofData, hread]
  cases hc : Config.read draft.data with
  | invalid faults => rfl
  | valid c =>
    dsimp only
    rw [hcheck c hc]

/-- What is not heard makes no difference to the settings of a project. -/
theorem merged_heard (hms : Legible (.obj ms)) :
    merged d root (heard root ms) = merged d root ms := by
  have hbase : Legible (.obj (standardData root)) := (plain_standardData root).legible
  have hmerge := mergeMembers_heard (standardData root) (standardData root) hbase ms hms.2 hms.1
    fun _ _ => rfl
  rw [heardMembers_self hbase] at hmerge
  rw [merged, merged, heard, hmerge]
  cases hdata : mergeMembers (standardData root) ms with
  | error e => rfl
  | ok data => exact finish_congr (Overridden.read_config ⟨ms, hms, hdata⟩) fun _ _ => rfl

section Roots

/-- The root of merged settings is the one that is named, or else that of the standard ones. -/
theorem rootPath_of_merged (hn : ms.keys.Nodup) {c : Config}
    (hdata : mergeMembers (standardData root) ms = .ok data)
    (hread : Config.read (.obj data) = .valid c) :
    c.rootPath = root ∨ ms.get? "rootPath" = some (.str c.rootPath) := by
  have hmerges := merges_of_mergeMembers hn hdata
  have hroot := (read_obj_iff.1 hread).1
  have hvalue {v : Json} (hv : data.get? "rootPath" = some v) : v = .str c.rootPath := by
    rw [Schema.field, Schema.lookup?, hv] at hroot
    have hstring := Validated.under_eq_valid_iff.1 hroot
    cases v with
    | str s =>
      cases hstring
      rfl
    | _ => cases hstring
  cases hget : ms.get? "rootPath" with
  | none =>
    have hkept := hmerges.kept "rootPath" (Members.get?_eq_none_iff.1 hget)
    have hroot : Members.get? (standardData root) "rootPath" = some (.str root) := rfl
    exact .inl (Json.str.inj (hvalue (hkept.trans hroot))).symm
  | some v =>
    obtain ⟨w, hw, hwget⟩ := hmerges.given "rootPath" v (Json.mem_of_get? hget)
    cases hvalue hwget
    refine .inr ?_
    cases v with
    | str s =>
      cases hw
      rfl
    | _ => cases hw

theorem checkRoot_of_exists {root : String} (h : d'.exists? (Path.tidy root) =
    d.exists? (Path.tidy root)) : checkRoot d' root = checkRoot d root := by
  rw [checkRoot, checkRoot, h]

/-- Two disks come to the same for settings if the roots that they may name are on both or on
none. -/
theorem merged_congr (hn : ms.keys.Nodup)
    (hroot : d'.exists? (Path.tidy root) = d.exists? (Path.tidy root))
    (hnamed : ∀ r, ms.get? "rootPath" = some (.str r) →
      d'.exists? (Path.tidy r) = d.exists? (Path.tidy r)) :
    merged d' root ms = merged d root ms := by
  rw [merged, merged]
  cases hdata : mergeMembers (standardData root) ms with
  | error e => simp only [bind, Except.bind]
  | ok data =>
    refine finish_congr rfl fun c hread => check_congr (checkRoot_of_exists ?_)
    rcases rootPath_of_merged hn hdata hread with he | hget
    · rw [he]
      exact hroot
    · exact hnamed _ hget

end Roots

/-- Without a file, a project is loaded with the overrides in camel case. -/
theorem load_overriding (hnew : d.exists? (fileIn root) = false)
    (hcamel : Naming.camelizeKeys (.obj ms) = .obj ms) :
    load d (some root) none (.obj ms) {} = merged d root ms := by
  have hdata : merge (.obj (standardData root)) (.obj ({} : Environment).overrides) =
      .ok (.obj (standardData root)) := rfl
  rw [load, Option.getD_some, start_new hnew (.inr rfl), merged]
  cases ms with
  | nil => rfl
  | cons m ms =>
    simp only [bind, Except.bind, Json.isTruthy, List.isEmpty_cons, Bool.not_false, if_true,
      Draft.update, hcamel, merge_obj]
    cases mergeMembers (standardData root) (m :: ms) <;> rfl

/-- With a file, a project is loaded with the settings in it as they stand. -/
theorem load_filed (hb : d.readBytes (fileIn root) = .ok bytes)
    (hdecode : Text.Utf8.decode bytes = .ok cs) (hread : Json.read (textOf cs) = .ok (.obj ms)) :
    load d (some root) none (.obj []) {} = merged d root ms := by
  rw [load, Option.getD_some, start_eq hb, readFile_of_read hb hdecode hread, merged]
  simp only [bind, Except.bind, merge_obj]
  cases mergeMembers (standardData root) ms <;> rfl

/-- In a project without a settings file, filing settings comes to the same as overriding with them
exactly if what is not heard of them would not matter as overrides either. What is heard has its
keys in camel case, and the file is no root that the settings name. -/
theorem filed_eq_overriding_iff (hroot : d.exists? (Path.tidy root) = true)
    (hnew : d.exists? (fileIn root) = false) (hwrite : d.writeBytes (fileIn root) bytes = .ok d')
    (hdecode : Text.Utf8.decode bytes = .ok cs) (hread : Json.read (textOf cs) = .ok (.obj ms))
    (hnamed : ∀ r, ms.get? "rootPath" = some (.str r) → d'.exists? (Path.tidy r) = true →
      d.exists? (Path.tidy r) = true)
    (hcamel : Naming.camelizeKeys (.obj (heard root ms)) = .obj (heard root ms)) :
    load d' (some root) none (.obj []) {} = load d (some root) none (.obj ms) {} ↔
      load d (some root) none (.obj (heard root ms)) {} = load d (some root) none (.obj ms) {} := by
  have hwrites := Disk.writes_of_writeBytes_new hnew hwrite
  have hms := Json.legible_of_read hread
  have hfiled : load d' (some root) none (.obj []) {} =
      load d (some root) none (.obj (heard root ms)) {} :=
    calc load d' (some root) none (.obj []) {}
      _ = merged d' root ms :=
        load_filed (Disk.readBytes_of_openFile hwrites.openFile) hdecode hread
      _ = merged d root ms := by
        refine merged_congr hms.1 ?_ fun r hr => ?_
        · rw [hroot, hwrites.grows.exists? hroot]
        · exact Bool.eq_iff_iff.2 ⟨hnamed r hr, hwrites.grows.exists?⟩
      _ = merged d root (heard root ms) := (merged_heard hms).symm
      _ = load d (some root) none (.obj (heard root ms)) {} := (load_overriding hnew hcamel).symm
  rw [hfiled]

/-- Settings that limit the depth of the scan, with underscores in their keys. -/
def shallowSettings : Members := [("scan_options", .obj [("max_depth", .int 3)])]

def shallowText : String := (Json.obj shallowSettings).prettyAscii ++ "\n"

/-- The depth that a configuration comes to. -/
def depthOf (r : Except Failure Config) : Option (Option Int) := r.toOption.map (·.scan.maxDepth)

/-- As overrides they limit the depth, and in a file they are not heard. -/
theorem shallowSettings_not_heard : ∃ d',
    emptyProject.writeBytes (fileIn "proj") (Text.Utf8.encode shallowText) = .ok d' ∧
      load d' (some "proj") none (.obj []) {} ≠
        load emptyProject (some "proj") none (.obj shallowSettings) {} := by
  have hlegible : Legible (.obj shallowSettings) := by
    simp [shallowSettings, Json.WithNumbers, Json.MembersWithNumbers, Members.keys,
      Json.lt_of_one_digit]
  obtain ⟨d', hwrite⟩ := exists_ok_of_isOk (x := emptyProject.writeBytes (fileIn "proj")
    (Text.Utf8.encode shallowText)) (by decide +kernel)
  refine ⟨d', hwrite, ?_⟩
  rw [ne_eq, filed_eq_overriding_iff (by decide +kernel) (by decide +kernel) hwrite
    (decode_encode_text shallowText) (read_text hlegible) (fun r hr => by cases hr) rfl]
  intro heq
  exact absurd (congrArg depthOf heq) (by decide +kernel)

end ExportLint.Config
