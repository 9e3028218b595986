import ExportLint.Config.Draft
import ExportLint.Proofs.CheckedSettings
import ExportLint.Proofs.DiskWriting
import ExportLint.Proofs.PathTexts
import ExportLint.Proofs.ReadSettings

/-!
# Loading settings

Sound settings always come to a configuration without errors or to a refusal that says what is
wrong, unless they cannot be read at all: a settings file that is not UTF-8, or that holds an
integer of too many digits, makes loading fail in another way. Here every root that the settings
name can be looked up, as it can be on any `Disk`, and a text may be nested to any depth.
-/
namespace ExportLint

namespace Config

variable {named : Bool} {v : Json}

section Reading

/-- A member of sound settings is sound. -/
theorem isSound_of_mem {ms : List (String × Json)} (h : isSound named (.obj ms) = true)
    {key : String} (hm : (key, v) ∈ ms) : isSound named v = true :=
  (isSound_obj_iff.1 h _ hm).2

theorem judged_of_mem {ms : List (String × Json)} (h : isSound named (.obj ms) = true)
    {key : String} (hm : (key, v) ∈ ms) (hk : key ∈ patternKeys) : isJudged v = true :=
  (fits_iff.1 (isSound_obj_iff.1 h _ hm).1).2 hk

theorem judged_convention {c : Convention} (hs : isSound named v = true)
    (h : Convention.read v = .valid c) : isJudged (.str c.pattern) = true := by
  cases v with
  | obj ms =>
    obtain ⟨k, w, hmem, hk, hw⟩ := Schema.exists_mem_of_field (Convention.read_obj_iff.1 h).1
    have hkey : k = "pattern" := by
      rcases hk with rfl | rfl
      · rfl
      · decide +kernel
    subst hkey
    have hjudged := judged_of_mem hs hmem (by decide)
    cases w with
    | str s =>
      cases hw
      exact hjudged
    | _ => cases hw
  | _ => cases h

/-- The standard patterns are patterns. -/
theorem judged_standard (k : ExportKind) :
    isJudged (.str (Conventions.standard.forKind k).pattern) = true := by
  cases k <;> decide +kernel

/-- A convention that is read, or the standard one, has a text told to be a pattern or none. -/
theorem judged_fieldOr {ms : List (String × Json)} (hs : isSound named (.obj ms) = true)
    {key : String} {default c : Convention} (hd : isJudged (.str default.pattern) = true)
    (h : Schema.fieldOr ms key default Convention.read = .valid c) :
    isJudged (.str c.pattern) = true := by
  rcases Schema.exists_mem_of_fieldOr h with rfl | ⟨k, w, hmem, hread⟩
  · exact hd
  · exact judged_convention (isSound_of_mem hs hmem) hread

theorem judged_conventions {c : Conventions} (hs : isSound named v = true)
    (h : Conventions.read v = .valid c) (k : ExportKind) :
    isJudged (.str (c.forKind k).pattern) = true := by
  cases v with
  | obj ms => exact judged_fieldOr hs (judged_standard k) (Conventions.read_obj_iff.1 h k)
  | _ => cases h

theorem isSound_options {r : RuleSetting} (hs : isSound named v = true)
    (h : RuleSetting.read v = .valid r) : isSound named (.obj r.options) = true := by
  cases v with
  | obj ms =>
    obtain ⟨-, -, -, -, hoptions⟩ := RuleSetting.read_obj_iff.1 h
    rcases Schema.exists_mem_of_fieldOr hoptions with he | ⟨k, w, hmem, hread⟩
    · rw [he]
      rfl
    · have hw := isSound_of_mem hs hmem
      cases w with
      | obj ms' =>
        cases hread
        exact hw
      | _ => cases hread
  | _ => cases h

theorem isSound_rules {rs : List RuleSetting} (hs : isSound named v = true)
    (h : Schema.list RuleSetting.read v = .valid rs) :
    ∀ r ∈ rs, isSound named (.obj r.options) = true := by
  cases v with
  | arr vs =>
    intro r hr
    obtain ⟨w, hw, hread⟩ := Schema.exists_mem_of_itemsFrom h r hr
    exact isSound_options (isSound_arr_iff.1 hs w hw) hread
  | _ => cases h

/-- The patterns of a configuration that is read from sound settings are told to be ones or none. -/
structure Judged (named : Bool) (c : Config) : Prop where
  conventions : ∀ k, isJudged (.str (c.conventions.forKind k).pattern) = true
  options : ∀ r ∈ c.rules, isSound named (.obj r.options) = true

theorem judged_of_read {c : Config} (hs : isSound named v = true)
    (h : Config.read v = .valid c) : Judged named c := by
  cases v with
  | obj ms =>
    obtain ⟨-, -, hrules, hconventions, -, -⟩ := Config.read_obj_iff.1 h
    constructor
    · intro k
      rcases Schema.exists_mem_of_fieldOr hconventions with he | ⟨key, w, hmem, hread⟩
      · exact he ▸ judged_standard k
      · exact judged_conventions (isSound_of_mem hs hmem) hread k
    · rcases Schema.exists_mem_of_fieldOr hrules with he | ⟨key, w, hmem, hread⟩
      · exact fun r hr => (List.not_mem_nil (he ▸ hr)).elim
      · exact isSound_rules (isSound_of_mem hs hmem) hread
  | _ => cases h

end Reading

theorem exists_check (d : Disk) {c : Config} (h : Judged named c) :
    ∃ w, check d c = .ok w := by
  refine exists_verdict_iff.2 fun p hp => ?_
  rcases List.mem_append.1 hp with hp | hp
  · obtain ⟨k, -, rfl⟩ := List.mem_map.1 hp
    exact h.conventions k
  · obtain ⟨r, hr, hp⟩ := List.mem_flatMap.1 hp
    obtain ⟨key, hkey, hp⟩ := List.mem_filterMap.1 hp
    have hrule := List.mem_of_find?_eq_some (Option.mem_toList.1 hr)
    exact judged_of_mem (h.options r hrule) (Json.mem_of_get? (optionPattern?_eq_some_iff.1 hp))
      (List.mem_cons_of_mem _ hkey)

/-- Loading comes to a configuration without errors, or to a refusal. -/
def Settles (d : Disk) (r : Except Failure Config) : Prop :=
  (∃ c w, r = .ok c ∧ check d c = .ok w ∧ w.errors = []) ∨
    ∃ errors warnings, r = .error (.configuration errors warnings)

theorem settles_finish (d : Disk) (draft : Draft) (h : isSound named draft.data = true) :
    Settles d (draft.finish d) := by
  rw [Draft.finish, ofData]
  cases hread : read draft.data with
  | invalid faults => exact .inr ⟨_, _, rfl⟩
  | valid c =>
    obtain ⟨w, hw⟩ := exists_check d (judged_of_read h hread)
    dsimp only
    rw [hw]
    by_cases hv : w.isValid = true
    · refine .inl ⟨c, w, ?_, hw, List.isEmpty_iff.1 hv⟩
      simp only [bind, Except.bind, pure, Except.pure, hv, if_true]
    · refine .inr ⟨w.errors, w.warnings, ?_⟩
      simp [bind, Except.bind, pure, Except.pure, hv]

section Standard

theorem isSound_standardData (root : String) : isSound named (.obj (standardData root)) = true := by
  have hrest : isSound named (.obj (standardData "").tail) = true := by
    cases named <;> decide +kernel
  rw [isSound_obj_iff] at hrest ⊢
  intro m hm
  rcases List.mem_cons.1 hm with rfl | hm
  · exact ⟨by cases named <;> rfl, rfl⟩
  · exact hrest m hm

theorem isSound_overrides (env : Environment) : isSound named (.obj env.overrides) = true := by
  obtain ⟨root, format, output, fix, level⟩ := env
  cases format <;> cases output <;> cases fix <;> cases named <;> rfl

end Standard

section Loading

variable {d : Disk} {root : String} {bytes : List UInt8}

theorem wellFormed_fileIn (root : String) :
    (Path.parse root ++ ⟨"", [fileName]⟩ : Path).WellFormed := by
  refine (Path.wellFormed_parse root).append fun s hs => ?_
  rw [List.mem_singleton.1 hs]
  exact ⟨by decide, by decide, by decide⟩

theorem tidy_fileIn (root : String) : Path.tidy (fileIn root) = fileIn root := by
  rw [Path.tidy, fileIn, Path.parse_text (wellFormed_fileIn root)]

/-- The text of a settings file, as it is read. -/
def textOf (cs : List Char) : String := String.ofList (Text.universalNewlines cs)

/-- Bytes are UTF-8, and no integer of too many digits is met in them. -/
def isReadable (bytes : List UInt8) : Bool :=
  match Text.Utf8.decode bytes with
  | .error _ => false
  | .ok cs =>
    match Json.read (textOf cs) with
    | .error ⟨.longInteger _, _⟩ => false
    | _ => true

/-- What cannot be read fails in its own way. Otherwise a file is refused, or gives an object. -/
theorem readFile_fileIn (hb : d.readBytes (fileIn root) = .ok bytes) :
    (isReadable bytes = false ∧ ∃ e, readFile d (fileIn root) = .error e ∧
      ∀ errors warnings, e ≠ .configuration errors warnings) ∨
    (isReadable bytes = true ∧
      ((∃ errors, readFile d (fileIn root) = .error (.configuration errors [])) ∨
      ∃ cs ms, Text.Utf8.decode bytes = .ok cs ∧ Json.read (textOf cs) = .ok (.obj ms) ∧
        readFile d (fileIn root) = .ok (.obj ms))) := by
  delta readFile isReadable
  dsimp only
  rw [tidy_fileIn, hb]
  dsimp only
  cases Text.Utf8.decode bytes with
  | error e => exact .inl ⟨rfl, _, rfl, fun _ _ h => by cases h⟩
  | ok cs =>
    dsimp only
    rw [← textOf]
    cases hj : Json.read (textOf cs) with
    | error e =>
      obtain ⟨fault, line⟩ := e
      cases fault with
      | longInteger digits => exact .inl ⟨rfl, _, rfl, fun _ _ h => by cases h⟩
      | _ => exact .inr ⟨rfl, .inl ⟨_, rfl⟩⟩
    | ok v =>
      refine .inr ⟨rfl, ?_⟩
      cases v with
      | obj ms => exact .inr ⟨cs, ms, rfl, hj, rfl⟩
      | _ => exact .inl ⟨_, rfl⟩

/-- A file that holds an object gives it. -/
theorem readFile_of_read {cs : List Char} {ms : Json.Members}
    (hb : d.readBytes (fileIn root) = .ok bytes) (hdecode : Text.Utf8.decode bytes = .ok cs)
    (hread : Json.read (textOf cs) = .ok (.obj ms)) :
    readFile d (fileIn root) = .ok (.obj ms) := by
  delta readFile
  dsimp only
  rw [tidy_fileIn, hb]
  dsimp only
  rw [hdecode]
  dsimp only
  rw [← textOf, hread]

theorem givenName_of_ne {s : String} (h : s ≠ "") : givenName (some s) = some s := by
  rw [givenName, Option.filter_eq_some_iff, Bool.not_eq_true', ← Bool.not_eq_true,
    String.isEmpty_iff]
  exact ⟨rfl, h⟩

/-- A draft of a project with a settings file takes the settings in. -/
theorem start_eq (hb : d.readBytes (fileIn root) = .ok bytes) (env : Environment) :
    Draft.start d root none (some env) = do
      let file ← readFile d (fileIn root)
      let data ← merge (.obj (standardData root)) file
      let data ← merge data (.obj env.overrides)
      return ⟨root, some (fileIn root), data⟩ := by
  have hgiven := givenName_of_ne (Path.text_ne_empty (wellFormed_fileIn root))
  have hfile : (if d.exists? (fileIn root) then some (fileIn root) else none) =
      some (fileIn root) := if_pos (Disk.exists?_of_readBytes hb)
  delta Draft.start
  -- The standard settings stay folded.
  generalize Json.obj (standardData root) = data
  dsimp only
  rw [hfile, fileIn, hgiven]

/-- A draft of a project without a settings file has the standard settings. -/
theorem start_new {env : Option Environment} (hnew : d.exists? (fileIn root) = false)
    (henv : env = none ∨ env = some {}) :
    Draft.start d root none env = .ok ⟨root, none, .obj (standardData root)⟩ := by
  delta Draft.start
  dsimp only
  rw [hnew]
  rcases henv with rfl | rfl
  · rfl
  · rfl

/-- Settings in a file, as far as there are any, are sound. -/
def holdsSound (named : Bool) (bytes : List UInt8) : Bool :=
  match Text.Utf8.decode bytes with
  | .error _ => true
  | .ok cs =>
    match Json.read (textOf cs) with
    | .error _ => true
    | .ok v => isSound named v

/-- With sound settings in the file of a project and sound overrides, loading comes to a
configuration without errors, or to a refusal, if and only if the bytes of the file can be read. -/
theorem load_settles_iff (hb : d.readBytes (fileIn root) = .ok bytes)
    (hf : holdsSound named bytes = true) {overrides : Json.Members}
    (ho : isSound named (Naming.camelizeKeys (.obj overrides)) = true) (env : Environment) :
    Settles d (load d (some root) none (.obj overrides) env) ↔ isReadable bytes = true := by
  rw [load, Option.getD_some, start_eq hb]
  rcases readFile_fileIn hb with
    ⟨hbytes, e, hr, he⟩ | ⟨hbytes, ⟨errors, hr⟩ | ⟨cs, ms, hd, hj, hr⟩⟩
  · rw [hr]
    refine iff_of_false ?_ (by simp [hbytes])
    rintro (⟨c, w, h, -⟩ | ⟨errors, warnings, h⟩)
    · cases h
    · exact he errors warnings (Except.error.inj h)
  · rw [hr]
    exact iff_of_true (.inr ⟨errors, [], rfl⟩) hbytes
  · simp only [holdsSound, hd, hj] at hf
    obtain ⟨filed, hfiled, hs⟩ := exists_merge (isSound_standardData root) hf
    obtain ⟨told, htold, hs⟩ := exists_merge hs (isSound_overrides env)
    refine iff_of_true ?_ hbytes
    rw [hr]
    simp only [bind, Except.bind, pure, Except.pure, hfiled, htold]
    split
    · obtain ⟨camel, hcamel⟩ : ∃ ms, Naming.camelizeKeys (.obj overrides) = .obj ms := ⟨_, rfl⟩
      obtain ⟨data, hdata, hs⟩ := exists_merge hs (hcamel ▸ ho)
      simp only [Draft.update, hcamel, bind, Except.bind, pure, Except.pure, hdata]
      exact settles_finish d _ hs
    · exact settles_finish d _ hs

end Loading

/-- A project whose settings file holds some bytes. -/
def settledDisk (bytes : List UInt8) : Disk where
  here := ["work"]
  entries := [(["work", "proj"], .directory), (["work", "proj", fileName], .file (.ordinary bytes))]

/-- The text of settings whose rules are a text and a number. -/
def oddBytes : List UInt8 :=
  [0x7b, 0x22, 0x72, 0x75, 0x6c, 0x65, 0x73, 0x22, 0x3a, 0x5b, 0x22, 0x78, 0x22, 0x2c, 0x33, 0x5d,
    0x7d]

/-- A byte that is no text is not refused, and rules that are no objects are. -/
theorem settledDisk_escapes :
    ¬Settles (settledDisk [0xff]) (load (settledDisk [0xff]) (some "proj") none (.obj []) {}) ∧
      Settles (settledDisk oddBytes)
        (load (settledDisk oddBytes) (some "proj") none (.obj []) {}) := by
  have hsound (bytes : List UInt8) (h : holdsSound true bytes = true) :
      Settles (settledDisk bytes) (load (settledDisk bytes) (some "proj") none (.obj []) {}) ↔
        isReadable bytes = true := load_settles_iff rfl h rfl {}
  constructor
  · rw [hsound _ (by decide +kernel)]
    decide +kernel
  · rw [hsound _ (by decide +kernel)]
    decide +kernel

end Config

end ExportLint
