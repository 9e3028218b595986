import ExportLint.Rule.Link

/-!
# Names that imports ask for

An import asks for the names in its braces and for the default of its module. The rule on imports
looks each of them up among the names under which the target's exports are recorded. A default
export is found there only under the name of defaults, the equals sign or a star: one that is
recorded under the name of its declaration does not count.
-/
namespace ExportLint

namespace Project

variable {p : Project}

theorem mem_files_of_mem_importsOf {f : String} {i : Import} (h : i ∈ p.importsOf f) :
    f ∈ p.files := by
  simp only [importsOf] at h
  cases hl : p.imports.lookup f with
  | none => simp [hl] at h
  | some is =>
    obtain ⟨before, after, he, -⟩ := List.lookup_eq_some_iff.1 hl
    simp only [files, List.mem_append, List.mem_filter]
    by_cases hx : p.hasExports f = true
    · left
      obtain ⟨es, hes⟩ := Option.isSome_iff_exists.1 hx
      obtain ⟨front, back, hxs, -⟩ := List.lookup_eq_some_iff.1 hes
      simp [hxs]
    · right
      exact ⟨by simp [he], by simpa using hx⟩

/-- A link is an import of a file that resolves to a file of the project. -/
theorem mem_links_iff {l : Link} :
    l ∈ p.links ↔ l.statement ∈ p.importsOf l.importer ∧
      p.resolve? l.importer l.statement.specifier = some l.target := by
  simp only [links, List.mem_flatMap, List.mem_filterMap, Option.map_eq_some_iff]
  constructor
  · rintro ⟨f, -, i, hi, t, ht, rfl⟩
    exact ⟨hi, ht⟩
  · intro ⟨hi, ht⟩
    exact ⟨l.importer, mem_files_of_mem_importsOf hi, l.statement, hi, l.target, ht, rfl⟩

end Project

namespace Rule

variable {p : Project}

/-- An import takes the default of its module: under a name of its own, or by the name of
defaults. -/
def TakesDefault (i : Import) : Prop :=
  (givenName i.defaultName).isSome ∨ ∃ n ∈ i.names, n.name = defaultName

theorem default_mem_wantedNames_iff {i : Import} :
    defaultName ∈ wantedNames i ↔ TakesDefault i := by
  simp only [wantedNames, TakesDefault, List.mem_append, List.mem_map]
  constructor
  · rintro (⟨n, hn, he⟩ | ⟨n, hn, -⟩)
    · exact .inr ⟨n, hn, he⟩
    · exact .inl (Option.isSome_iff_exists.2 ⟨n, by simpa using hn⟩)
  · rintro (h | ⟨n, hn, he⟩)
    · obtain ⟨n, hn⟩ := Option.isSome_iff_exists.1 h
      exact .inr ⟨n, by simp [hn]⟩
    · exact .inl ⟨n, hn, he⟩

theorem mem_unmet_iff {w : Wanted} :
    w ∈ unmet p ↔ w.link ∈ p.links ∧ w.name ∈ wantedNames w.link.statement ∧
      provides p w.link.target w.name = false := by
  simp only [unmet, List.mem_flatMap, List.mem_map, List.mem_filter, Bool.not_eq_true']
  constructor
  · rintro ⟨l, hl, n, ⟨hn, hp⟩, rfl⟩
    exact ⟨hl, hn, hp⟩
  · intro ⟨hl, hn, hp⟩
    exact ⟨w.link, hl, w.name, ⟨hn, hp⟩, rfl⟩

/-- A default is provided under the name of defaults, by a whole value, or by a star. -/
theorem provides_default_eq_false_iff {file : String} :
    provides p file defaultName = false ↔
      ∀ e ∈ p.exportsOf file, e.name ∉ [defaultName, equalsName, starName] := by
  simp only [provides, Project.exportsStar, Project.exportedNames, beq_self_eq_true, Bool.true_and,
    Bool.or_eq_false_iff, List.contains_eq_mem, decide_eq_false_iff_not, List.mem_map, not_exists,
    not_and, List.mem_cons, List.not_mem_nil, or_false, not_or]
  constructor
  · intro ⟨⟨hs, hd⟩, he⟩ e hm
    exact ⟨hd e hm, he e hm, hs e hm⟩
  · intro h
    exact ⟨⟨fun e hm => (h e hm).2.2, fun e hm => (h e hm).1⟩, fun e hm => (h e hm).2.1⟩

/-- What is said on a wanted name shows its target and the name. -/
theorem mismatch_inj {c : Context} {w w' : Wanted} (h : mismatch c p w = mismatch c p w') :
    w.link.target = w'.link.target ∧ w.name = w'.name := by
  have hfiles := congrArg Finding.relatedFiles h
  have hdata := congrArg Finding.metadata h
  simp only [mismatch, List.cons.injEq, Prod.mk.injEq, Json.str.injEq, true_and, and_true]
    at hfiles hdata
  exact ⟨hfiles.2, hdata.1⟩

/-- A default that an import takes is reported exactly if no export of its file is recorded under
the name of defaults, under the equals sign, or as a star. In what form the file exports a default
makes no difference. -/
theorem default_import_reported_iff (c : Context) (p : Project) {f t : String} {i : Import}
    (hi : i ∈ p.importsOf f) (ht : p.resolve? f i.specifier = some t) (hd : TakesDefault i) :
    ∃ found, importsMatchExports c p = .ok found ∧
      (mismatch c p ⟨⟨f, i, t⟩, defaultName⟩ ∈ found ↔
        ∀ e ∈ p.exportsOf t, e.name ∉ [defaultName, equalsName, starName]) := by
  refine ⟨_, rfl, ?_⟩
  rw [← provides_default_eq_false_iff]
  simp only [List.mem_map, List.mem_filter]
  constructor
  · rintro ⟨w, ⟨hw, -⟩, he⟩
    obtain ⟨ht', hn⟩ := mismatch_inj he
    have hp := (mem_unmet_iff.1 hw).2.2
    rwa [ht', hn] at hp
  · intro hp
    refine ⟨⟨⟨f, i, t⟩, defaultName⟩, ⟨mem_unmet_iff.2 ⟨?_, ?_, hp⟩, ?_⟩, rfl⟩
    · exact Project.mem_links_iff.2 ⟨hi, ht⟩
    · exact default_mem_wantedNames_iff.2 hd
    · simp [missingExport?]

/-- An import of the default of a file next to it. -/
def appImport : Import where
  file := "proj/main.ts"
  specifier := "./App"
  defaultName := some "App"
  location := ⟨"proj/main.ts", 1, 1, 1, 25⟩

/-- A default export with the name of its declaration. -/
def appExport : Export where
  file := "proj/App.ts"
  name := "App"
  form := .default
  kind := .function
  location := ⟨"proj/App.ts", 1, 25, 1, 33⟩

/-- A project of these two. -/
def appProject : Project where
  here := ["work"]
  root := "proj"
  exports := [("proj/App.ts", [appExport]), ("proj/main.ts", [])]
  imports := [("proj/main.ts", [appImport])]

def appContext : Context where
  setting := { name := "import-export-match", severity := .error }
  conventions :=
    let style : Convention := ⟨"^[a-z]", .camel⟩
    ⟨style, style, style, style, style, style⟩

/-- The default of a file that has one is reported as missing, since it has a name. -/
theorem named_default_import_reported :
    (∃ e ∈ appProject.exportsOf "proj/App.ts", e.form = .default) ∧
      ∃ found, importsMatchExports appContext appProject = .ok found ∧
        mismatch appContext appProject ⟨⟨"proj/main.ts", appImport, "proj/App.ts"⟩, defaultName⟩ ∈
          found := by
  have hi : appImport ∈ appProject.importsOf "proj/main.ts" := by decide
  have ht : appProject.resolve? "proj/main.ts" appImport.specifier = some "proj/App.ts" := by
    decide +kernel
  obtain ⟨found, hf, hiff⟩ := default_import_reported_iff appContext appProject hi ht
    (.inl (by decide))
  exact ⟨by decide, found, hf, hiff.2 (by decide)⟩

end Rule

end ExportLint
