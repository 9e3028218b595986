import ExportLint.Proofs.JsonTexts
import ExportLint.Proofs.NewFiles
import ExportLint.Proofs.SettingKeys
import ExportLint.Proofs.StandardShape
import ExportLint.Proofs.Utf8Encoding
import ExportLint.Proofs.WrittenLines

/-!
# Settings that are saved and loaded again

What overrides make of the standard settings of a project can be held by a text and is absorbed by
the standard settings. So a draft that is saved in its project and loaded again gives the
configuration that it gave before.
-/
namespace ExportLint.Config

open Json (Members Plain)

variable {d d' : Disk} {root : String} {draft next last : Draft} {c : Config} {v : Verdict}
  {o w : Json} {overrides : List Json} {base data ms : Members}

section Checking

theorem finish_eq_ok_iff : draft.finish d = .ok c ↔
    read draft.data = .valid c ∧ ∃ v, check d c = .ok v ∧ v.isValid = true := by
  rw [Draft.finish, ofData]
  cases hread : read draft.data with
  | invalid faults =>
    refine iff_of_false (fun h => ?_) ?_
    · cases h
    · rintro ⟨h, -⟩
      cases h
  | valid c' =>
    dsimp only
    cases hcheck : check d c' with
    | error e =>
      refine iff_of_false (fun h => ?_) ?_
      · cases h
      · rintro ⟨h, v, hv, -⟩
        cases h
        rw [hcheck] at hv
        cases hv
    | ok v =>
      simp only [bind, Except.bind, pure, Except.pure]
      constructor
      · intro h
        split at h
        · rename_i hvalid
          cases h
          exact ⟨rfl, v, hcheck, hvalid⟩
        · cases h
      · rintro ⟨h, v', hv', hvalid⟩
        cases h
        rw [hcheck] at hv'
        cases hv'
        rw [if_pos hvalid]

theorem checkRoot_grows (hg : Disk.Grows d d') (h : (checkRoot d root).errors = []) :
    checkRoot d' root = checkRoot d root := by
  rw [checkRoot] at h
  rw [checkRoot, checkRoot]
  split at h
  · cases h
  · split at h
    · rename_i hne hexists
      rw [if_neg hne, if_neg hne, if_pos hexists, if_pos (hg.exists? hexists)]
    · cases h

/-- A valid configuration stays valid when files are written. -/
theorem check_grows (hg : Disk.Grows d d') (h : check d c = .ok v) (hv : v.isValid = true) :
    check d' c = .ok v := by
  refine (check_congr (checkRoot_grows hg ?_)).trans h
  exact List.subset_nil.1 (List.isEmpty_iff.1 hv ▸ (checked_of_check h).root)

end Checking

section Merging

/-- Only an object can be merged into one. -/
theorem exists_mergeMembers_of_merge (h : merge (.obj base) o = .ok w) :
    ∃ os ms, o = .obj os ∧ w = .obj ms ∧ mergeMembers base os = .ok ms := by
  cases o with
  | obj os =>
    rw [merge_obj] at h
    obtain ⟨ms, hms, rfl⟩ := map_eq_ok_iff.1 h
    exact ⟨os, ms, rfl, rfl, hms⟩
  | _ => cases h

end Merging

section Texts

theorem decode_encode_text (text : String) :
    Text.Utf8.decode (Text.Utf8.encode text) = .ok text.toList := by
  rw [← Text.Utf8.decode_encode text.toList, String.ofList_toList]

/-- Settings are read from the text that is saved of them. -/
theorem read_text {v : Json} (hv : Json.Legible v) :
    Json.read (textOf (v.prettyAscii ++ "\n").toList) = .ok v := by
  have htext : v.prettyAscii ++ "\n" = Json.write ⟨true, some 2⟩ 0 v ++ String.ofList ['\n'] := rfl
  have hlines : Text.universalNewlines (v.prettyAscii ++ "\n").toList =
      (v.prettyAscii ++ "\n").toList := by
    apply Json.universalNewlines_of_not_mem
    rw [htext, String.toList_append, String.toList_ofList, List.mem_append]
    exact not_or.2 ⟨Json.return_not_mem_write _ _ _, by decide⟩
  rw [textOf, hlines, String.ofList_toList, htext]
  exact Json.read_write _ hv (by simp [Json.isSpace])

end Texts

/-- Overrides that are taken in one after the other. Each of them has to leave valid settings. -/
def Draft.updates (d : Disk) (draft : Draft) : List Json → Except Failure Draft
  | [] => .ok draft
  | o :: os => do
    let next ← draft.update o
    let _ ← next.finish d
    next.updates d os

/-- Overrides as a text can hold them, without what is no number. No rule is named twice. -/
structure IsOverride (o : Json) : Prop where
  read : ∃ text, Json.read text = .ok o
  noNaN : o.holdsNaN = false
  once : (ruleNames o).Nodup

/-- What overrides make of the standard settings of a project. -/
structure Derived (root : String) (draft : Draft) (data : Members) : Prop where
  projectPath : draft.projectPath = root
  configPath : draft.configPath = none
  data_eq : draft.data = .obj data
  plain : Plain (.obj data)
  extends_ : Extends standardNames standardRules (standardData root) data
  shaped : HasShape standardRules (standardData root) data

namespace Derived

/-- A new draft of a project has the standard settings. -/
theorem start {env : Option Environment} (hnew : d.exists? (fileIn root) = false)
    (henv : env = none ∨ env = some {}) (h : Draft.start d root none env = .ok draft) :
    Derived root draft (standardData root) := by
  rw [start_new hnew henv] at h
  cases h
  exact ⟨rfl, rfl, rfl, plain_standardData root,
    .refl (isBase_standardData root) (hasShape_standardData root), hasShape_standardData root⟩

/-- Overrides that leave valid settings keep everything as it has to be. -/
theorem update (h : Derived root draft data) (ho : IsOverride o)
    (hupdate : draft.update o = .ok next) (hvalid : next.finish d = .ok c) :
    ∃ data, Derived root next data := by
  obtain ⟨text, htext⟩ := ho.read
  have hplain := (Json.legible_of_read htext).plain o ho.noNaN
  obtain ⟨w, hmerge, he⟩ := bind_eq_ok_iff.1 hupdate
  cases he
  rw [h.data_eq] at hmerge
  obtain ⟨os, ms, hos, rfl, hms⟩ := exists_mergeMembers_of_merge hmerge
  have honce : (ruleNames (.obj os)).Nodup := by
    rw [← hos, ruleNames_camelizeKeys hplain]
    exact ho.once
  have hplain' : Plain (.obj os) := hos ▸ Naming.plain_camelizeKeys o hplain
  have hextends :=
    h.extends_.merged (isBase_standardData root) h.shaped h.plain hplain' honce hms
  have hrules : ∃ v, Members.get? ms "rules" = some v :=
    Members.exists_get?_of_mem_keys (hextends.keys.subset (by simp [standardData]))
  exact ⟨ms, h.projectPath, h.configPath, rfl,
    plain_mergeMembers data os ms h.plain hplain'.2 hms, hextends,
    hasShape_of_read (finish_eq_ok_iff.1 hvalid).1 hrules⟩

/-- So do any number of overrides. -/
theorem updates (h : Derived root draft data) (ho : ∀ o ∈ overrides, IsOverride o)
    (hrun : draft.updates d overrides = .ok last) : ∃ data, Derived root last data := by
  induction overrides generalizing draft data with
  | nil =>
    cases hrun
    exact ⟨data, h⟩
  | cons o os ih =>
    obtain ⟨hfirst, hrest⟩ := List.forall_mem_cons.1 ho
    obtain ⟨next, hnext, hrun⟩ := bind_eq_ok_iff.1 hrun
    obtain ⟨c, hc, hrun⟩ := bind_eq_ok_iff.1 hrun
    obtain ⟨data, hdata⟩ := h.update hfirst hnext hc
    exact ih hdata hrest hrun

/-- The file of a draft is the one in its project. -/
theorem target_eq (h : Derived root draft data) : draft.target none = fileIn root := by
  rw [Draft.target, h.configPath, h.projectPath]
  rfl

/-- The text of a draft gives its settings back. -/
theorem readFile_eq (h : Derived root draft data)
    (hb : d.readBytes (fileIn root) = .ok (Text.Utf8.encode draft.text)) :
    readFile d (fileIn root) = .ok (.obj data) := by
  have hread := read_text h.plain.legible
  rw [Draft.text, h.data_eq] at hb
  exact readFile_of_read hb (decode_encode_text _) hread

/-- A project with the file of a draft is loaded with its settings. -/
theorem load_eq (h : Derived root draft data)
    (hb : d.readBytes (fileIn root) = .ok (Text.Utf8.encode draft.text)) :
    load d (some root) none (.obj []) {} =
      Draft.finish d ⟨root, some (fileIn root), .obj data⟩ := by
  have hmerge : merge (.obj (standardData root)) (.obj data) = .ok (.obj data) := by
    rw [merge_obj, h.extends_.mergeMembers_eq (isBase_standardData root) h.plain]
    rfl
  have hnone : merge (.obj data) (.obj ({} : Environment).overrides) = .ok (.obj data) := rfl
  rw [load, Option.getD_some, start_eq hb, h.readFile_eq hb]
  simp only [bind, Except.bind, pure, Except.pure, hmerge, hnone]
  rfl

/-- The settings of a draft hold no integer that is too long to be written. -/
theorem holdsLong_eq_false (h : Derived root draft data) : draft.data.holdsLong = false := by
  rw [h.data_eq]
  exact ((Json.withNumbers_iff _).1 h.plain).2

/-- A draft that is saved as a new file in its project is loaded from there. -/
theorem load_saved (h : Derived root draft data) (hc : draft.finish d = .ok c)
    (hnew : d.exists? (fileIn root) = false) {p : String}
    (hsave : draft.save d none = .ok (p, d')) : load d' (some root) none (.obj []) {} = .ok c := by
  have hwrite : d.writeBytes (fileIn root) (Text.Utf8.encode draft.text) = .ok d' := by
    rw [Draft.save, h.target_eq, h.holdsLong_eq_false, if_neg Bool.false_ne_true] at hsave
    split at hsave
    · rename_i hwrite
      cases hsave
      exact hwrite
    · cases hsave
  have hwrites := Disk.writes_of_writeBytes_new hnew hwrite
  obtain ⟨hread, v, hcheck, hvalid⟩ := finish_eq_ok_iff.1 hc
  rw [h.load_eq (Disk.readBytes_of_openFile hwrites.openFile), finish_eq_ok_iff]
  exact ⟨h.data_eq ▸ hread, v, check_grows hwrites.grows hcheck hvalid, hvalid⟩

/-- A draft can be saved in the directory of its project, if no link takes the name of the file. -/
theorem exists_save (h : Derived root draft data) (hnew : d.exists? (fileIn root) = false)
    (hroot : d.isDirectory (Path.tidy root) = true) (hlink : d.isLink (fileIn root) = false) :
    ∃ p d', draft.save d none = .ok (p, d') := by
  have hname : Path.IsName fileName := ⟨⟨by decide, by decide, by decide⟩, by decide⟩
  obtain ⟨d', hwrite⟩ := Disk.exists_writeBytes_new hroot hname hnew hlink
    (Text.Utf8.encode draft.text)
  refine ⟨fileIn root, d', ?_⟩
  rw [Draft.save, h.target_eq, h.holdsLong_eq_false, if_neg Bool.false_ne_true, fileIn, hwrite]

end Derived

/-- In a project without a settings file, whatever valid settings overrides make: when they are
saved in the project, loading it gives their configuration, and the directory of a project can take
the file. -/
theorem load_saved_settings {env : Option Environment} {first : Draft}
    (hnew : d.exists? (fileIn root) = false) (henv : env = none ∨ env = some {})
    (hstart : Draft.start d root none env = .ok first) (ho : ∀ o ∈ overrides, IsOverride o)
    (hrun : first.updates d overrides = .ok draft) (hc : draft.finish d = .ok c) :
    (∀ p d', draft.save d none = .ok (p, d') →
      load d' (some root) none (.obj []) {} = .ok c) ∧
    (d.isDirectory (Path.tidy root) = true → d.isLink (fileIn root) = false →
      ∃ p d', draft.save d none = .ok (p, d')) := by
  obtain ⟨data, h⟩ := (Derived.start hnew henv hstart).updates ho hrun
  exact ⟨fun p d' => h.load_saved hc hnew, h.exists_save hnew⟩

/-- A project without files. -/
def emptyProject : Disk where
  here := ["work"]
  entries := [(["work", "proj"], .directory)]

/-- Two overrides, in either spelling of the keys: one limits the depth, one sets a rule that is
listed and adds another. -/
def wideOverrides : List Json :=
  [.obj [("scan_options", .obj [("max_depth", .int 3)])],
    .obj [("rules", .arr [.obj [("name", .str "no-unused-exports"), ("enabled", .bool true)],
      .obj [("name", .str "own-rule"), ("options", .obj [("own_limit", .int 7)])]])]]

/-- What a text can hold is told by the text that is written for it. -/
theorem isOverride_of_legible (ho : Json.Legible o) (hnan : o.holdsNaN = false)
    (honce : (ruleNames o).Nodup) : IsOverride o :=
  ⟨⟨Json.write ⟨true, some 2⟩ 0 o ++ String.ofList [], Json.read_write _ ho (by simp)⟩, hnan, honce⟩

theorem isOverride_of_mem_wideOverrides : ∀ o ∈ wideOverrides, IsOverride o := by
  have hfirst : IsOverride (.obj [("scan_options", .obj [("max_depth", .int 3)])]) := by
    refine isOverride_of_legible ?_ rfl (by decide)
    simp [Json.WithNumbers, Json.MembersWithNumbers, Json.Members.keys,
      Json.lt_of_one_digit]
  have hsecond : IsOverride (.obj [("rules", .arr [.obj [("name", .str "no-unused-exports"),
      ("enabled", .bool true)], .obj [("name", .str "own-rule"),
      ("options", .obj [("own_limit", .int 7)])]])]) := by
    refine isOverride_of_legible ?_ rfl (by decide)
    simp [Json.WithNumbers, Json.ItemsWithNumbers, Json.MembersWithNumbers, Json.Members.keys,
      Json.lt_of_one_digit]
  simpa [wideOverrides] using ⟨hfirst, hsecond⟩

/-- Both overrides are taken in, the settings are saved, and they are loaded as they were. -/
theorem wideOverrides_come_back :
    ∃ first draft c p d', Draft.start emptyProject "proj" none none = .ok first ∧
      first.updates emptyProject wideOverrides = .ok draft ∧
      draft.finish emptyProject = .ok c ∧ draft.save emptyProject none = .ok (p, d') ∧
      load d' (some "proj") none (.obj []) {} = .ok c := by
  have hnew : emptyProject.exists? (fileIn "proj") = false := by decide +kernel
  obtain ⟨c, hc⟩ := exists_ok_of_isOk (x := Draft.start emptyProject "proj" none none >>=
    fun first => first.updates emptyProject wideOverrides >>= (·.finish emptyProject))
    (by decide +kernel)
  obtain ⟨first, hfirst, hc⟩ := bind_eq_ok_iff.1 hc
  obtain ⟨draft, hdraft, hc⟩ := bind_eq_ok_iff.1 hc
  obtain ⟨hload, hsave⟩ := load_saved_settings hnew (.inl rfl) hfirst
    isOverride_of_mem_wideOverrides hdraft hc
  obtain ⟨p, d', hsave⟩ := hsave (by decide +kernel) (by decide +kernel)
  exact ⟨first, draft, c, p, d', hfirst, hdraft, hc, hsave, hload p d' hsave⟩

end ExportLint.Config
