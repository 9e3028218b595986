import ExportLint.Proofs.Attempts
import ExportLint.Proofs.WantedNames

/-!
# Exports that nothing uses

Other files take an export under its public name: that of defaults for a default, and its own name
for any other export. The rule on unused exports compares the names that are taken with the names
that are recorded, so it is right about every export whose recorded name is the public one. A
default that is recorded under the name of its declaration is reported although it is taken.
-/
namespace ExportLint

/-- The name under which other files take an export. -/
def Export.publicName (e : Export) : String :=
  if e.form = .default then defaultName else e.name

namespace Project

variable {p : Project} {file name : String}

/-- An import takes a name of its module: every name, if it takes the module as a whole or is made
for its effect, otherwise those in its braces and, under a name of its own, the default. -/
def ImportTakes (i : Import) (name : String) : Prop :=
  (givenName i.namespaceName).isSome ∨ i.isSideEffectOnly = true ∨
    (∃ n ∈ i.names, n.name = name) ∨ (name = defaultName ∧ (givenName i.defaultName).isSome)

/-- A re-export takes a name of its source: every name, unless it is a clause, which takes the name
that it forwards. -/
def ReexportTakes (e : Export) (name : String) : Prop :=
  e.shape ≠ .clause ∨ (givenName e.sourceName).getD e.name = name

/-- Some file of the project takes a name from a file. -/
inductive References (p : Project) (file name : String) : Prop where
  | byImport {f : String} {i : Import} (mem : i ∈ p.importsOf f)
      (leads : p.resolve? f i.specifier = some file) (takes : ImportTakes i name)
  | byReexport {f source : String} {e : Export} (mem : e ∈ p.exportsOf f)
      (origin : sourceOf? e = some source) (leads : p.resolve? f source = some file)
      (takes : ReexportTakes e name)

theorem mem_files_of_mem_exportsOf {f : String} {e : Export} (h : e ∈ p.exportsOf f) :
    f ∈ p.files := by
  simp only [exportsOf] at h
  cases hl : p.exports.lookup f with
  | none => simp [hl] at h
  | some es =>
    obtain ⟨before, after, he, -⟩ := List.lookup_eq_some_iff.1 hl
    simp [files, he]

theorem mem_usedNames_iff : name ∈ p.usedNames file ↔
    (∃ l ∈ p.links, l.target = file ∧ name ∈ importedNames l.statement) ∨
      ∃ f, ∃ e ∈ p.exportsOf f, (sourceOf? e).bind (p.resolve? f) = some file ∧
        name = forwardedName e := by
  simp only [usedNames, uses, List.mem_flatMap, List.mem_filter, List.mem_append, List.mem_map,
    List.mem_filterMap, Option.map_eq_some_iff, beq_iff_eq]
  constructor
  · rintro ⟨u, ⟨⟨l, hl, rfl⟩ | ⟨f, -, e, he, t, ht, rfl⟩, rfl⟩, hn⟩
    · exact .inl ⟨l, hl, rfl, hn⟩
    · exact .inr ⟨f, e, he, ht, List.mem_singleton.1 hn⟩
  · rintro (⟨l, hl, rfl, hn⟩ | ⟨f, e, he, ht, rfl⟩)
    · exact ⟨_, ⟨.inl ⟨l, hl, rfl⟩, rfl⟩, hn⟩
    · exact ⟨_, ⟨.inr ⟨f, mem_files_of_mem_exportsOf he, e, he, file, ht, rfl⟩, rfl⟩,
        List.mem_singleton_self _⟩

theorem mem_importedNames_iff {i : Import} : name ∈ importedNames i ↔
    (∃ n ∈ i.names, n.name = name) ∨ (name = defaultName ∧ (givenName i.defaultName).isSome) ∨
      (name = starName ∧ ((givenName i.namespaceName).isSome ∨ i.isSideEffectOnly = true)) := by
  simp only [importedNames, List.mem_append, List.mem_map, Option.mem_toList, or_assoc]
  refine or_congr Iff.rfl (or_congr ?_ ?_)
  · rw [Option.isSome_iff_exists]
    constructor
    · rintro ⟨n, hn, rfl⟩
      exact ⟨rfl, n, hn⟩
    · rintro ⟨rfl, n, hn⟩
      exact ⟨n, hn, rfl⟩
  · split
    · rename_i h
      simpa using fun _ => h
    · rename_i h
      simpa using fun _ => h

/-- A name that is taken from a file counts as used there, by itself or with all others. -/
theorem References.used (h : p.References file name) :
    name ∈ p.usedNames file ∨ starName ∈ p.usedNames file := by
  cases h with
  | @byImport f i mem leads takes =>
    have hl : (⟨f, i, file⟩ : Link) ∈ p.links := mem_links_iff.2 ⟨mem, leads⟩
    have hused {n : String} (hn : n ∈ importedNames i) : n ∈ p.usedNames file :=
      mem_usedNames_iff.2 (.inl ⟨_, hl, rfl, hn⟩)
    rcases takes with h | h | h | h
    · exact .inr (hused (mem_importedNames_iff.2 (.inr (.inr ⟨rfl, .inl h⟩))))
    · exact .inr (hused (mem_importedNames_iff.2 (.inr (.inr ⟨rfl, .inr h⟩))))
    · exact .inl (hused (mem_importedNames_iff.2 (.inl h)))
    · exact .inl (hused (mem_importedNames_iff.2 (.inr (.inl h))))
  | @byReexport f source e mem origin leads takes =>
    have hused : forwardedName e ∈ p.usedNames file :=
      mem_usedNames_iff.2 (.inr ⟨f, e, mem, by rw [origin, Option.bind_some, leads], rfl⟩)
    by_cases hs : e.shape = .clause
    · left
      rw [forwardedName, if_pos hs, takes.resolve_left (not_not_intro hs)] at hused
      exact hused
    · right
      rwa [forwardedName, if_neg hs] at hused

/-- A name that counts as used in a file is taken from it. -/
theorem references_of_mem_usedNames (h : name ∈ p.usedNames file) : p.References file name := by
  rcases mem_usedNames_iff.1 h with ⟨l, hl, rfl, hn⟩ | ⟨f, e, he, ht, rfl⟩
  · obtain ⟨mem, leads⟩ := mem_links_iff.1 hl
    refine .byImport mem leads ?_
    rcases mem_importedNames_iff.1 hn with h | h | ⟨-, h | h⟩
    · exact .inr (.inr (.inl h))
    · exact .inr (.inr (.inr h))
    · exact .inl h
    · exact .inr (.inl h)
  · obtain ⟨source, origin, leads⟩ := Option.bind_eq_some_iff.1 ht
    refine .byReexport he origin leads ?_
    by_cases hs : e.shape = .clause
    · exact .inr (by rw [forwardedName, if_pos hs])
    · exact .inl hs

end Project

namespace Finding

/-- The exported name that a finding shows in its metadata. -/
def exportName? (x : Finding) : Option String :=
  match x.metadata.get? "exportName" with
  | some (.str name) => some name
  | _ => none

/-- A finding is on an export of a file: it is there, and it shows the name. -/
structure IsOn (x : Finding) (file : String) (e : Export) : Prop where
  file : x.file = file
  location : x.location = some e.location
  name : x.exportName? = some e.name

end Finding

namespace Rule

variable {c : Context} {p : Project} {file : String}

/-- The exports of an entry point need not be used in the project. -/
def IsEntryPoint (c : Context) (p : Project) (file : String) : Prop :=
  ∃ globs, c.values "entryPoints" [] = .ok globs ∧
    matchesOneOf (p.relative file) globs = .ok true

/-- The rule skips entry points and looks at the exports of every other file. -/
theorem mem_exportsAreUsed_iff {found : List Finding} (h : exportsAreUsed c p = .ok found)
    {x : Finding} :
    x ∈ found ↔ ∃ f ∈ p.files, ¬IsEntryPoint c p f ∧ x ∈ unusedIn c p f := by
  obtain ⟨globs, hglobs, h⟩ := bind_eq_ok_iff.1 h
  obtain ⟨groups, hgroups, h⟩ := bind_eq_ok_iff.1 h
  cases h
  have hentry (f : String) : IsEntryPoint c p f ↔
      matchesOneOf (p.relative f) globs = .ok true := by
    simp [IsEntryPoint, hglobs]
  simp only [List.mem_flatten, mem_of_mapM_eq_ok hgroups, hentry]
  constructor
  · rintro ⟨group, ⟨f, hf, hg⟩, hx⟩
    obtain ⟨entry, hm, hg⟩ := bind_eq_ok_iff.1 hg
    cases entry with
    | true =>
      cases hg
      simp at hx
    | false =>
      cases hg
      exact ⟨f, hf, by simp [hm], hx⟩
  · rintro ⟨f, hf, hm, hx⟩
    obtain ⟨group, hg⟩ := exists_of_mapM_eq_ok hgroups hf
    refine ⟨group, ⟨f, hf, hg⟩, ?_⟩
    obtain ⟨entry, hentry, hg⟩ := bind_eq_ok_iff.1 hg
    cases entry with
    | true => exact absurd hentry hm
    | false =>
      cases hg
      exact hx

/-- What is reported in a file is an export that is not used, under the name it is recorded with. -/
theorem exists_export_of_mem_unusedIn {x : Finding} (h : x ∈ unusedIn c p file) :
    starName ∉ p.usedNames file ∧
      ∃ e ∈ p.exportsOf file, x.IsOn file e ∧ e.name ≠ starName ∧ e.name ∉ p.usedNames file := by
  simp only [unusedIn] at h
  split at h
  · cases h
  · rename_i hstar
    obtain ⟨e, he, rfl⟩ := List.mem_map.1 h
    obtain ⟨he, hu⟩ := List.mem_filter.1 he
    simp only [Bool.and_eq_true, bne_iff_ne, Bool.not_eq_true', List.contains_eq_mem,
      decide_eq_false_iff_not] at hu
    exact ⟨by simpa using hstar, e, he, ⟨rfl, rfl, rfl⟩, hu⟩

/-- An export that is not used is reported, unless everything of its file is used. -/
theorem exists_mem_unusedIn {e : Export} (he : e ∈ p.exportsOf file)
    (hstar : starName ∉ p.usedNames file) (hne : e.name ≠ starName)
    (hused : e.name ∉ p.usedNames file) : ∃ x ∈ unusedIn c p file, x.IsOn file e := by
  have hmem : e ∈ (p.exportsOf file).filter fun e =>
      e.name != starName && !(p.usedNames file).contains e.name :=
    List.mem_filter.2 ⟨he, by simp [hne, hused]⟩
  simp only [unusedIn]
  rw [if_neg (by simpa using hstar)]
  exact ⟨_, List.mem_map_of_mem hmem, rfl, rfl, rfl⟩

/-- An export is reported exactly if it is on no entry point and no star, and nothing of the project
takes it under the name it is recorded with, or takes a star. -/
theorem reported_iff {found : List Finding} (h : exportsAreUsed c p = .ok found) {e : Export}
    (he : e ∈ p.exportsOf file) :
    (∃ x ∈ found, x.IsOn file e) ↔ ¬IsEntryPoint c p file ∧ e.name ≠ starName ∧
      ¬p.References file e.name ∧ ¬p.References file starName := by
  constructor
  · rintro ⟨x, hx, hon⟩
    obtain ⟨f, -, hentry, hx⟩ := (mem_exportsAreUsed_iff h).1 hx
    obtain ⟨hstar, e', he', hon', hne, hused⟩ := exists_export_of_mem_unusedIn hx
    have hfile : f = file := hon'.file.symm.trans hon.file
    subst hfile
    have hname : e'.name = e.name := Option.some.inj (hon'.name.symm.trans hon.name)
    rw [hname] at hne hused
    exact ⟨hentry, hne, fun hr => (hr.used).elim hused hstar,
      fun hr => (hr.used).elim hstar hstar⟩
  · rintro ⟨hentry, hne, hname, hstar⟩
    obtain ⟨x, hx, hon⟩ := exists_mem_unusedIn (c := c) he
      (fun hm => hstar (Project.references_of_mem_usedNames hm)) hne
      (fun hm => hname (Project.references_of_mem_usedNames hm))
    exact ⟨x, (mem_exportsAreUsed_iff h).2
      ⟨file, Project.mem_files_of_mem_exportsOf he, hentry, hx⟩, hon⟩

/-- A reported export is not taken under its recorded name. It is taken under its public name
exactly if it is a default with a name of its own, and the default of its file is taken. -/
theorem unused_export_referenced_iff {found : List Finding} (h : exportsAreUsed c p = .ok found)
    {e : Export} (he : e ∈ p.exportsOf file) :
    ((∃ x ∈ found, x.IsOn file e) ↔ ¬IsEntryPoint c p file ∧ e.name ≠ starName ∧
        ¬p.References file e.name ∧ ¬p.References file starName) ∧
      ((∃ x ∈ found, x.IsOn file e) → (p.References file e.publicName ↔
        e.form = .default ∧ e.name ≠ defaultName ∧ p.References file defaultName)) := by
  refine ⟨reported_iff h he, fun hrep => ?_⟩
  obtain ⟨-, -, hname, -⟩ := (reported_iff h he).1 hrep
  by_cases hform : e.form = .default
  · rw [Export.publicName, if_pos hform]
    constructor
    · intro hr
      exact ⟨hform, fun hd => hname (hd ▸ hr), hr⟩
    · exact fun hr => hr.2.2
  · rw [Export.publicName, if_neg hform]
    exact ⟨fun hr => absurd hr hname, fun hr => absurd hr.1 hform⟩

/-- The default of a file is taken by an import, and yet its export is reported as unused, since it
is recorded under the name of its declaration. -/
theorem taken_default_reported_unused :
    ∃ found, exportsAreUsed appContext appProject = .ok found ∧
      (∃ x ∈ found, x.IsOn "proj/App.ts" appExport) ∧
        appProject.References "proj/App.ts" appExport.publicName := by
  have hi : appImport ∈ appProject.importsOf "proj/main.ts" := by decide
  have he : appExport ∈ appProject.exportsOf "proj/App.ts" := by decide
  have ht : appProject.resolve? "proj/main.ts" appImport.specifier = some "proj/App.ts" := by
    decide +kernel
  have hused : appProject.usedNames "proj/App.ts" = [defaultName] := by decide +kernel
  have hdefault : appProject.References "proj/App.ts" defaultName :=
    .byImport hi ht (.inr (.inr (.inr ⟨rfl, by decide⟩)))
  have hfree {name : String} (hn : name ≠ defaultName) :
      ¬appProject.References "proj/App.ts" name := by
    intro hr
    have := hr.used
    rw [hused, List.mem_singleton, List.mem_singleton] at this
    exact this.elim hn (by decide)
  have hentry : ¬IsEntryPoint appContext appProject "proj/App.ts" := by
    rintro ⟨globs, hg, hm⟩
    cases hg
    cases hm
  obtain ⟨found, h⟩ : ∃ found, exportsAreUsed appContext appProject = .ok found := ⟨_, rfl⟩
  obtain ⟨hrep, htaken⟩ := unused_export_referenced_iff h he
  have hreported := hrep.2 ⟨hentry, by decide, hfree (by decide), hfree (by decide)⟩
  exact ⟨found, h, hreported, (htaken hreported).2 ⟨rfl, by decide, hdefault⟩⟩

end Rule

end ExportLint
