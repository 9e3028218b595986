import ExportLint.Proofs.Repetitions
import ExportLint.Proofs.UnusedExports

/-!
# Names that are asked for and not exported

Every name that an import asks for and its target does not export is reported by one of two rules.
A name that the target declares is missing there: all files that ask for it are reported together,
at the target. Any other name, and the default, is a mistake of each import that asks for it. To
export what is missing settles the first rule and leaves the second as it is.
-/
namespace ExportLint

namespace Rule

variable {c : Context} {p : Project} {file name : String} {w : Wanted}

/-- The names that imports ask for, import by import. -/
def asked (p : Project) : List Wanted :=
  p.links.flatMap fun l => (wantedNames l.statement).map fun n => ⟨l, n⟩

/-- A file exports a name. One that exports a star may export anything, and the equals sign stands
for a default. -/
def Exports (p : Project) (file name : String) : Prop :=
  ∃ e ∈ p.exportsOf file,
    e.name = name ∨ e.name = starName ∨ (name = defaultName ∧ e.name = equalsName)

instance : Decidable (Exports p file name) :=
  inferInstanceAs (Decidable (∃ e ∈ p.exportsOf file,
    e.name = name ∨ e.name = starName ∨ (name = defaultName ∧ e.name = equalsName)))

/-- A file declares a name at its top level. -/
def Declares (p : Project) (file name : String) : Prop :=
  name ∈ (p.declarationsOf file).map (·.1)

/-- A name that a file is to export if it is asked for. A default has no name to be declared
under. -/
def Owes (p : Project) (file name : String) : Prop :=
  name ≠ defaultName ∧ Declares p file name

instance : Decidable (Owes p file name) :=
  inferInstanceAs (Decidable (_ ≠ _ ∧ _ ∈ _))

theorem provides_iff : provides p file name = true ↔ Exports p file name := by
  simp only [provides, Project.exportsStar, Project.exportedNames, Exports, Bool.or_eq_true,
    Bool.and_eq_true, List.contains_eq_mem, decide_eq_true_eq, beq_iff_eq, List.mem_map]
  constructor
  · rintro ((⟨e, he, hn⟩ | ⟨e, he, hn⟩) | ⟨hd, e, he, hn⟩)
    · exact ⟨e, he, .inr (.inl hn)⟩
    · exact ⟨e, he, .inl hn⟩
    · exact ⟨e, he, .inr (.inr ⟨hd, hn⟩)⟩
  · rintro ⟨e, he, hn | hn | ⟨hd, hn⟩⟩
    · exact .inl (.inr ⟨e, he, hn⟩)
    · exact .inl (.inl ⟨e, he, hn⟩)
    · exact .inr ⟨hd, e, he, hn⟩

theorem unmet_eq (p : Project) :
    unmet p = (asked p).filter fun w => ¬Exports p w.link.target w.name := by
  simp only [unmet, asked, List.filter_flatMap, List.filter_map]
  congr
  funext l
  congr
  funext n
  simp only [Function.comp_apply, ← provides_iff, Bool.not_eq_true, Bool.decide_eq_false]

theorem mem_unmet_iff_asked : w ∈ unmet p ↔ w ∈ asked p ∧ ¬Exports p w.link.target w.name := by
  rw [unmet_eq, List.mem_filter, decide_eq_true_iff]

theorem declares_iff : Declares p file name ↔
    ∃ kind, (p.declarationsOf file).lookup name = some kind := by
  rw [← Option.isSome_iff_exists, List.lookup_isSome_iff, Declares, List.mem_map]
  apply exists_congr
  intro d
  rw [beq_iff_eq, eq_comm]

theorem missingExport?_eq_some_iff {m : Missing} : missingExport? p w = some m ↔
    m.target = w.link.target ∧ m.name = w.name ∧ w.name ≠ defaultName ∧
      (p.declarationsOf w.link.target).lookup w.name = some m.kind := by
  simp only [missingExport?]
  split
  · rename_i hd
    simp [hd]
  · rename_i hd
    rw [Option.map_eq_some_iff]
    constructor
    · rintro ⟨kind, hk, rfl⟩
      exact ⟨rfl, rfl, hd, hk⟩
    · rintro ⟨ht, hn, -, hk⟩
      refine ⟨m.kind, hk, ?_⟩
      rw [← ht, ← hn]

/-- An export is missing for a wanted name exactly if its file owes it. -/
theorem owes_iff : Owes p w.link.target w.name ↔ ∃ m, missingExport? p w = some m := by
  rw [Owes, declares_iff]
  constructor
  · rintro ⟨hd, kind, hk⟩
    exact ⟨⟨w.link.target, w.name, kind⟩, missingExport?_eq_some_iff.2 ⟨rfl, rfl, hd, hk⟩⟩
  · rintro ⟨m, hm⟩
    obtain ⟨-, -, hd, hk⟩ := missingExport?_eq_some_iff.1 hm
    exact ⟨hd, m.kind, hk⟩

/-- The rule on imports reports what is asked for, not exported and not owed. -/
theorem importsMatchExports_eq (c : Context) (p : Project) :
    importsMatchExports c p = .ok (((asked p).filter fun w =>
      ¬Exports p w.link.target w.name ∧ ¬Owes p w.link.target w.name).map (mismatch c p)) := by
  have hcongr : ((unmet p).filter fun w => (missingExport? p w).isNone) =
      (asked p).filter fun w => ¬Exports p w.link.target w.name ∧ ¬Owes p w.link.target w.name := by
    rw [unmet_eq, List.filter_filter]
    apply List.filter_congr
    intro w _
    rw [Bool.eq_iff_iff, Bool.and_eq_true, decide_eq_true_iff, decide_eq_true_iff, owes_iff,
      Option.isNone_iff_eq_none, Option.eq_none_iff_forall_not_mem, not_exists, and_comm]
    rfl
  rw [importsMatchExports, hcongr]

/-- The names that are asked for come importer by importer, in the order of the files. -/
theorem exists_unmet_eq_flatMap (p : Project) :
    ∃ g : String → List Wanted, unmet p = p.files.flatMap g ∧
      ∀ f, ∀ w ∈ g f, w.link.importer = f := by
  rw [unmet, Project.links, List.flatMap_assoc]
  refine ⟨_, rfl, fun f w hw => ?_⟩
  obtain ⟨l, hl, hw⟩ := List.mem_flatMap.1 hw
  obtain ⟨n, -, rfl⟩ := List.mem_map.1 hw
  obtain ⟨i, -, hi⟩ := List.mem_filterMap.1 hl
  obtain ⟨t, -, rfl⟩ := Option.map_eq_some_iff.1 hi
  rfl

/-- The importers of some of these names, each once, come in the order of the files. -/
theorem eraseDups_importers (p : Project) (q : Wanted → Bool) :
    (((unmet p).filter q).map (·.link.importer)).eraseDups =
      (p.files.filter fun f => ∃ w ∈ unmet p, w.link.importer = f ∧ q w = true).eraseDups := by
  obtain ⟨g, hg, himporter⟩ := exists_unmet_eq_flatMap p
  have hblock : ∀ f ∈ p.files, ∀ x ∈ ((g f).filter q).map (·.link.importer), x = f := by
    intro f _ x hx
    obtain ⟨w, hw, rfl⟩ := List.mem_map.1 hx
    exact himporter f w (List.mem_filter.1 hw).1
  have hgroup := eraseDups_flatMap hblock
  rw [← List.map_flatMap, ← List.filter_flatMap, ← hg] at hgroup
  rw [hgroup]
  congr 1
  apply List.filter_congr
  intro f hf
  rw [Bool.eq_iff_iff, Bool.not_eq_true', List.isEmpty_eq_false_iff_exists_mem, decide_eq_true_iff]
  constructor
  · rintro ⟨x, hx⟩
    obtain ⟨w, hw, -⟩ := List.mem_map.1 hx
    obtain ⟨hw, hq⟩ := List.mem_filter.1 hw
    refine ⟨w, ?_, himporter f w hw, hq⟩
    rw [hg]
    exact List.mem_flatMap.2 ⟨f, hf, hw⟩
  · rintro ⟨w, hw, himp, hq⟩
    rw [hg] at hw
    obtain ⟨f', -, hw⟩ := List.mem_flatMap.1 hw
    have heq : f' = f := (himporter f' w hw).symm.trans himp
    rw [heq] at hw
    exact ⟨_, List.mem_map_of_mem (List.mem_filter.2 ⟨hw, hq⟩)⟩

/-- What is missing in the files of a project, each once. -/
def missingNames (p : Project) : List Missing := ((unmet p).filterMap (missingExport? p)).eraseDups

theorem nodup_missingNames (p : Project) : (missingNames p).Nodup := nodup_eraseDups _

theorem mem_missingNames_iff {m : Missing} : m ∈ missingNames p ↔
    ∃ w ∈ asked p, ¬Exports p w.link.target w.name ∧ missingExport? p w = some m := by
  simp only [missingNames, List.mem_eraseDups, List.mem_filterMap, mem_unmet_iff_asked, and_assoc]

/-- The rule on declared names makes one finding of everything that is missing. -/
theorem exists_importedNamesAreExported_eq (c : Context) (p : Project) :
    ∃ report : Missing → Finding,
      importedNamesAreExported c p = .ok ((missingNames p).map report) ∧
      ∀ m, (report m).kind = .missingExport ∧ (report m).file = m.target ∧
        (report m).exportName? = some m.name ∧
        (report m).relatedFiles = m.target :: importersOf p m :=
  ⟨_, rfl, fun _ => ⟨rfl, rfl, rfl, rfl⟩⟩

/-- A finding shows a name of a file. -/
def Shows (file name : String) (x : Finding) : Bool := x.file == file && x.exportName? == some name

theorem shows_iff {x : Finding} :
    Shows file name x = true ↔ x.file = file ∧ x.exportName? = some name := by
  rw [Shows, Bool.and_eq_true, beq_iff_eq, beq_iff_eq]

/-- The files with an import that asks for a name of a file. -/
def askers (p : Project) (file name : String) : List String :=
  (p.files.filter fun f => ∃ w ∈ asked p,
    w.link.importer = f ∧ w.link.target = file ∧ w.name = name).eraseDups

/-- The importers of a missing name are all files that ask for it. -/
theorem importersOf_eq {m : Missing} (hw : ¬Exports p w.link.target w.name)
    (hm : missingExport? p w = some m) :
    importersOf p m = askers p w.link.target w.name := by
  obtain ⟨ht, hn, hd, hk⟩ := missingExport?_eq_some_iff.1 hm
  rw [importersOf, eraseDups_importers, askers]
  congr 1
  apply List.filter_congr
  intro f _
  rw [Bool.eq_iff_iff, decide_eq_true_iff, decide_eq_true_iff]
  apply exists_congr
  intro v
  rw [beq_iff_eq, mem_unmet_iff_asked, missingExport?_eq_some_iff]
  constructor
  · rintro ⟨⟨hv, -⟩, himp, ht', hn', -⟩
    exact ⟨hv, himp, ht'.symm.trans ht, hn'.symm.trans hn⟩
  · rintro ⟨hv, himp, ht', hn'⟩
    rw [ht', hn']
    exact ⟨⟨hv, hw⟩, himp, ht, hn, hd, hk⟩

/-- What two rules report covers every name that is asked for and not exported. -/
structure Covers (c : Context) (p : Project) (mismatches missing : List Finding) : Prop where
  /-- A default, and a name that its file does not declare, is reported for each import. -/
  mistakes : mismatches = ((asked p).filter fun w =>
    ¬Exports p w.link.target w.name ∧ ¬Owes p w.link.target w.name).map (mismatch c p)
  /-- Any other name is reported once in its file, with all files that ask for it. -/
  owed : ∀ w ∈ asked p, ¬Exports p w.link.target w.name → Owes p w.link.target w.name →
    ∃ x, missing.filter (Shows w.link.target w.name) = [x] ∧ x.kind = .missingExport ∧
      x.relatedFiles = w.link.target :: askers p w.link.target w.name
  /-- Nothing else is reported as missing. -/
  asked : ∀ x ∈ missing, ∃ w ∈ asked p, ¬Exports p w.link.target w.name ∧
    Owes p w.link.target w.name ∧ Shows w.link.target w.name x = true

theorem exists_covers (c : Context) (p : Project) :
    ∃ mismatches missing, importsMatchExports c p = .ok mismatches ∧
      importedNamesAreExported c p = .ok missing ∧ Covers c p mismatches missing := by
  obtain ⟨report, hreport, hshow⟩ := exists_importedNamesAreExported_eq c p
  refine ⟨_, _, importsMatchExports_eq c p, hreport, rfl, fun w hw hexp howes => ?_, fun x hx => ?_⟩
  · obtain ⟨m, hm⟩ := owes_iff.1 howes
    obtain ⟨ht, hn, hd, hk⟩ := missingExport?_eq_some_iff.1 hm
    have hmem : m ∈ missingNames p := mem_missingNames_iff.2 ⟨w, hw, hexp, hm⟩
    refine ⟨report m, ?_, (hshow m).1, ?_⟩
    · rw [List.filter_map, filter_eq_singleton (nodup_missingNames p) hmem, List.map_singleton]
      intro b hb
      rw [Function.comp_apply, shows_iff, (hshow b).2.1, (hshow b).2.2.1, Option.some.injEq]
      constructor
      · -- The kind of a missing name is that of its declaration.
        rintro ⟨hbt, hbn⟩
        obtain ⟨v, -, -, hv⟩ := mem_missingNames_iff.1 hb
        obtain ⟨hvt, hvn, -, hvk⟩ := missingExport?_eq_some_iff.1 hv
        rw [← hvt, ← hvn, hbt, hbn, hk] at hvk
        cases b
        cases m
        cases hvk
        cases hbt.trans ht.symm
        cases hbn.trans hn.symm
        rfl
      · rintro rfl
        exact ⟨ht, hn⟩
    · rw [(hshow m).2.2.2, ht, importersOf_eq hexp hm]
  · obtain ⟨m, hmem, rfl⟩ := List.mem_map.1 hx
    obtain ⟨w, hw, hexp, hm⟩ := mem_missingNames_iff.1 hmem
    obtain ⟨ht, hn, -, -⟩ := missingExport?_eq_some_iff.1 hm
    refine ⟨w, hw, hexp, owes_iff.2 ⟨m, hm⟩, shows_iff.2 ⟨?_, ?_⟩⟩
    · rw [(hshow m).2.1, ht]
    · rw [(hshow m).2.2.1, hn]

end Rule

namespace Project

variable {p : Project} {file name : String} {record : String → String → Export}
  {found : List Finding}

/-- The exports that a file is to have for the names that some findings show. -/
def owedExports (record : String → String → Export) (found : List Finding) (file : String) :
    List Export :=
  ((found.filter fun x => x.file == file).filterMap (·.exportName?)).map (record file)

/-- A project in which every file with a list of exports also has those for some findings. -/
def exporting (p : Project) (record : String → String → Export) (found : List Finding) : Project :=
  { p with exports := p.exports.map fun g => (g.1, g.2 ++ owedExports record found g.1) }

theorem lookup_map_snd {α β : Type} (h : String → α → β) (l : List (String × α)) (key : String) :
    (l.map fun g => (g.1, h g.1 g.2)).lookup key = (l.lookup key).map (h key) := by
  induction l with
  | nil => rfl
  | cons g l ih =>
    rw [List.map_cons, List.lookup_cons, List.lookup_cons]
    cases hk : key == g.1 with
    | true =>
      rw [beq_iff_eq.1 hk]
      rfl
    | false => exact ih

theorem hasExports_exporting (file : String) :
    (p.exporting record found).hasExports file = p.hasExports file := by
  rw [hasExports, exporting, lookup_map_snd (fun f es => es ++ owedExports record found f),
    Option.isSome_map]
  rfl

theorem files_exporting : (p.exporting record found).files = p.files := by
  simp only [files, hasExports_exporting]
  simp only [exporting, List.map_map]
  rfl

theorem links_exporting : (p.exporting record found).links = p.links := by
  have hr (f s : String) : (p.exporting record found).resolve? f s = p.resolve? f s := by
    simp only [resolve?, resolver, files_exporting]
    rfl
  simp only [links, files_exporting, hr]
  rfl

/-- A file with a list of exports has them all, and those that were added. -/
theorem mem_exportsOf_exporting {e : Export} (hf : p.hasExports file = true) :
    e ∈ (p.exporting record found).exportsOf file ↔
      e ∈ p.exportsOf file ∨ e ∈ owedExports record found file := by
  obtain ⟨es, hes⟩ := Option.isSome_iff_exists.1 hf
  rw [exportsOf, exporting, lookup_map_snd (fun f es => es ++ owedExports record found f), exportsOf,
    hes, Option.map_some, Option.getD_some, Option.getD_some, List.mem_append]

theorem mem_owedExports_iff {e : Export} : e ∈ owedExports record found file ↔
    ∃ x ∈ found, ∃ n, Rule.Shows file n x = true ∧ record file n = e := by
  simp only [owedExports, List.mem_map, List.mem_filterMap, List.mem_filter, Rule.shows_iff,
    beq_iff_eq]
  constructor
  · rintro ⟨n, ⟨x, ⟨hx, hf⟩, hn⟩, he⟩
    exact ⟨x, hx, n, ⟨hf, hn⟩, he⟩
  · rintro ⟨x, hx, n, ⟨hf, hn⟩, he⟩
    exact ⟨n, ⟨x, ⟨hx, hf⟩, hn⟩, he⟩

/-- Files of a project that have imports have a list of exports, too. -/
def ListsExports (p : Project) : Prop := ∀ f ∈ p.imports.map (·.1), p.hasExports f = true

theorem hasExports_of_resolve? (h : p.ListsExports) {f specifier : String}
    (ht : p.resolve? f specifier = some file) : p.hasExports file = true := by
  obtain ⟨path, -, hpath⟩ := Option.bind_eq_some_iff.1 ht
  obtain ⟨candidate, -, hc⟩ := List.exists_of_findSome?_eq_some hpath
  have hmem : file ∈ p.files := Resolver.file?_mem hc
  rcases List.mem_append.1 hmem with hm | hm
  · obtain ⟨g, hg, rfl⟩ := List.mem_map.1 hm
    rw [hasExports, List.lookup_isSome_iff]
    exact ⟨g, hg, beq_self_eq_true g.1⟩
  · exact h file (List.mem_filter.1 hm).1

end Project

namespace Rule

variable {c : Context} {p : Project} {record : String → String → Export}
  {mismatches missing : List Finding} {w : Wanted}

/-- Declared names are identifiers, and so neither a star nor the equals sign. -/
def DeclaresSymbols (p : Project) : Prop :=
  ∀ file name, Declares p file name → name ≠ starName ∧ name ≠ equalsName

theorem hasExports_of_mem_asked (h : p.ListsExports) (hw : w ∈ asked p) :
    p.hasExports w.link.target = true := by
  obtain ⟨l, hl, hn⟩ := List.mem_flatMap.1 hw
  obtain ⟨n, -, rfl⟩ := List.mem_map.1 hn
  exact Project.hasExports_of_resolve? h (Project.mem_links_iff.1 hl).2

theorem asked_exporting : asked (p.exporting record missing) = asked p := by
  rw [asked, Project.links_exporting, asked]

/-- A name that is not owed is exported as before. -/
theorem exports_exporting_iff (hrecord : ∀ f n, (record f n).name = n) (hs : DeclaresSymbols p)
    (h : Covers c p mismatches missing) (hf : p.hasExports w.link.target = true)
    (howes : ¬Owes p w.link.target w.name) :
    Exports (p.exporting record missing) w.link.target w.name ↔
      Exports p w.link.target w.name := by
  constructor
  · rintro ⟨e, he, hn⟩
    rcases (Project.mem_exportsOf_exporting hf).1 he with he | he
    · exact ⟨e, he, hn⟩
    · -- What was added is owed: neither the name in question, nor a star, nor the equals sign.
      obtain ⟨x, hx, n, hshow, rfl⟩ := Project.mem_owedExports_iff.1 he
      obtain ⟨v, -, -, hv, hshow'⟩ := h.asked x hx
      obtain ⟨hxf, hxn⟩ := shows_iff.1 hshow
      obtain ⟨hvf, hvn⟩ := shows_iff.1 hshow'
      have hfile : v.link.target = w.link.target := hvf.symm.trans hxf
      have hname : v.name = n := Option.some.inj (hvn.symm.trans hxn)
      rw [hfile, hname] at hv
      rw [hrecord] at hn
      obtain ⟨hstar, hequals⟩ := hs _ _ hv.2
      rcases hn with rfl | hn | ⟨-, hn⟩
      · exact absurd hv howes
      · exact absurd hn hstar
      · exact absurd hn hequals
  · rintro ⟨e, he, hn⟩
    exact ⟨e, (Project.mem_exportsOf_exporting hf).2 (.inl he), hn⟩

/-- What is owed and was not exported is exported now. -/
theorem exports_exporting_of_owes (hrecord : ∀ f n, (record f n).name = n)
    (h : Covers c p mismatches missing) (hf : p.hasExports w.link.target = true)
    (hw : w ∈ asked p) (howes : Owes p w.link.target w.name) :
    Exports (p.exporting record missing) w.link.target w.name := by
  by_cases hexp : Exports p w.link.target w.name
  · obtain ⟨e, he, hn⟩ := hexp
    exact ⟨e, (Project.mem_exportsOf_exporting hf).2 (.inl he), hn⟩
  · obtain ⟨x, hx, -, -⟩ := h.owed w hw hexp howes
    have hmem : x ∈ missing.filter (Shows w.link.target w.name) := by
      rw [hx]
      exact List.mem_singleton_self x
    obtain ⟨hmem, hshow⟩ := List.mem_filter.1 hmem
    refine ⟨record w.link.target w.name, (Project.mem_exportsOf_exporting hf).2 (.inr ?_),
      .inl (hrecord _ _)⟩
    exact Project.mem_owedExports_iff.2 ⟨x, hmem, w.name, hshow, rfl⟩

/-- Every name that is asked for and not exported is covered by exactly one of the two rules: a
default or an undeclared name by a finding for each import, any other by the one finding for its
file, with the files that ask for it. If each file exports what is missing there, nothing is missing
any more, and the mistakes of the imports are what they were. -/
theorem unexported_names_covered_once (c : Context) (p : Project)
    (record : String → String → Export) (hrecord : ∀ f n, (record f n).name = n)
    (hl : p.ListsExports) (hs : DeclaresSymbols p) :
    ∃ mismatches missing, importsMatchExports c p = .ok mismatches ∧
      importedNamesAreExported c p = .ok missing ∧ Covers c p mismatches missing ∧
      importsMatchExports c (p.exporting record missing) = .ok mismatches ∧
      importedNamesAreExported c (p.exporting record missing) = .ok [] := by
  obtain ⟨mismatches, missing, hmis, hmiss, h⟩ := exists_covers c p
  refine ⟨mismatches, missing, hmis, hmiss, h, ?_, ?_⟩
  · rw [importsMatchExports_eq, asked_exporting, h.mistakes]
    have hcongr : ((asked p).filter fun w =>
        ¬Exports (p.exporting record missing) w.link.target w.name ∧
          ¬Owes (p.exporting record missing) w.link.target w.name) =
        (asked p).filter fun w =>
          ¬Exports p w.link.target w.name ∧ ¬Owes p w.link.target w.name := by
      apply List.filter_congr
      intro w hw
      rw [decide_eq_decide]
      apply and_congr_left
      intro howes
      rw [exports_exporting_iff hrecord hs h (hasExports_of_mem_asked hl hw) howes]
    rw [hcongr]
    rfl
  · obtain ⟨report, hreport, -⟩ :=
      exists_importedNamesAreExported_eq c (p.exporting record missing)
    have hnil : missingNames (p.exporting record missing) = [] := by
      rw [List.eq_nil_iff_forall_not_mem]
      intro m hm
      obtain ⟨w, hw, hexp, hm⟩ := mem_missingNames_iff.1 hm
      rw [asked_exporting] at hw
      have howes : Owes p w.link.target w.name := owes_iff.2 ⟨m, hm⟩
      exact hexp (exports_exporting_of_owes hrecord h (hasExports_of_mem_asked hl hw) hw howes)
    rw [hreport, hnil, List.map_nil]

/-- An import of some names and perhaps of the default from a file next to it. -/
def importOf (file : String) (names : List String) (whole : Option String) : Import where
  file
  specifier := "./b"
  names := names.map fun n => { name := n }
  defaultName := whole
  location := ⟨file, 1, 1, 1, 30⟩

/-- Two files that ask for a name that a third one declares, for one that it lacks, and for its
default. -/
def helperProject : Project where
  here := ["work"]
  root := "proj"
  exports := [("proj/a.ts", []), ("proj/b.ts", []), ("proj/c.ts", [])]
  imports := [("proj/a.ts", [importOf "proj/a.ts" ["helper", "ghost"] none]),
    ("proj/c.ts", [importOf "proj/c.ts" ["helper"] (some "b")])]
  declarations := [("proj/b.ts", [("helper", .function)])]

def namedExport (file name : String) : Export where
  file
  name
  form := .named
  location := ⟨file, 1, 1, 1, 1⟩

/-- The declared name is reported once, for both files; the other two names are reported at the
imports. -/
theorem helper_reported_once :
    helperProject.ListsExports ∧ DeclaresSymbols helperProject ∧
    ∃ mismatches missing, importsMatchExports appContext helperProject = .ok mismatches ∧
      importedNamesAreExported appContext helperProject = .ok missing ∧
      Covers appContext helperProject mismatches missing ∧
      mismatches.map (·.exportName?) = [some "ghost", some defaultName] ∧
      missing.map (·.relatedFiles) = [["proj/b.ts", "proj/a.ts", "proj/c.ts"]] ∧
      importsMatchExports appContext (helperProject.exporting namedExport missing) =
        .ok mismatches ∧
      importedNamesAreExported appContext (helperProject.exporting namedExport missing) =
        .ok [] := by
  have hl : helperProject.ListsExports := by unfold Project.ListsExports; decide
  have hs : DeclaresSymbols helperProject := by
    intro file name h
    have hmem : name ∈ ((helperProject.declarations.lookup file).getD []).map (·.1) := h
    by_cases hf : file = "proj/b.ts"
    · rw [hf] at hmem
      cases List.mem_singleton.1 hmem
      decide
    · have hnone : helperProject.declarations.lookup file = none := by
        rw [List.lookup_eq_none_iff]
        simpa [helperProject] using hf
      rw [hnone] at hmem
      cases hmem
  obtain ⟨mismatches, missing, hmis, hmiss, hcovers, hrepaired⟩ :=
    unexported_names_covered_once appContext helperProject namedExport (fun _ _ => rfl) hl hs
  refine ⟨hl, hs, mismatches, missing, hmis, hmiss, hcovers, ?_, ?_, hrepaired⟩
  · have hnames : (importsMatchExports appContext helperProject).toOption.map
        (·.map (·.exportName?)) = some [some "ghost", some defaultName] := by decide +kernel
    rw [hmis] at hnames
    exact Option.some.inj hnames
  · have hfiles : (importedNamesAreExported appContext helperProject).toOption.map
        (·.map (·.relatedFiles)) = some [["proj/b.ts", "proj/a.ts", "proj/c.ts"]] := by
      decide +kernel
    rw [hmiss] at hfiles
    exact Option.some.inj hfiles

end Rule

end ExportLint
