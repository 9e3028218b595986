import ExportLint.Proofs.Repetitions
import ExportLint.Proofs.RuleOptions
import ExportLint.Proofs.UnusedExports
import Mathlib.Data.List.Perm.Subperm

/-!
# Exports in conflict with other files

Two files are in conflict about a name if each has an export of it that takes part. Every export
that takes part and whose name another file offers has one finding, in the order of the project, and
the findings on one name list the same files: all that offer it, each once, in the order of the
scan. A name that one file alone exports is never reported, however often the file exports it. All
this holds if the names to ignore are listed. On a number in their place the rule fails.
-/
namespace ExportLint

/-- The exports of a project with their files, in the order of a scan. -/
def Project.records (p : Project) : List (String × Export) :=
  p.files.flatMap fun f => (p.exportsOf f).map fun e => (f, e)

namespace Rule

variable {c : Context} {p : Project} {key name file : String} {e : Export}

/-- A value lists a name: a list its members, a text its characters, an object its keys. -/
def Lists (v : Json) (name : String) : Prop :=
  match v with
  | .arr vs => .str name ∈ vs
  | .str s => ∃ ch ∈ s.toList, String.singleton ch = name
  | .obj ms => name ∈ ms.map (·.1)
  | _ => False

theorem mem_textsOf_iff {vs : List Json} {ss : List String} (h : Context.textsOf vs = .ok ss) :
    name ∈ ss ↔ .str name ∈ vs := by
  induction vs generalizing ss with
  | nil =>
    cases h
    simp
  | cons v vs ih =>
    cases v with
    | str s =>
      obtain ⟨rest, hrest, rfl⟩ := map_eq_ok_iff.1 h
      rw [List.mem_cons, List.mem_cons, ih hrest, Json.str.injEq]
    | arr _ => cases h
    | obj _ => cases h
    | _ =>
      rw [ih h, List.mem_cons]
      simp

/-- The names that an option gives are those that it lists. -/
theorem mem_names_iff {ns : List String} (h : c.names key [] = .ok ns) :
    name ∈ ns ↔ ∃ v, c.option? key = some v ∧ Lists v name := by
  obtain ⟨vs, hvs, htexts⟩ := bind_eq_ok_iff.1 h
  rw [mem_textsOf_iff htexts]
  cases ho : c.option? key with
  | none =>
    simp only [Context.values, ho, List.map_nil, Except.ok.injEq] at hvs
    simp [← hvs]
  | some v =>
    have hlists : .str name ∈ vs ↔ Lists v name := by
      simp only [Context.values, ho] at hvs
      split at hvs
      · cases hvs
        cases v <;> simp_all [Json.isTruthy, Lists]
      · split at hvs
        · cases hvs
          rfl
        · cases hvs
          simp [Lists]
        · cases hvs
          simp [Lists]
        · cases hvs
    rw [hlists]
    simp

/-- An export that other files may be in conflict with: it has a name of its own, no option says
that the name is to be ignored, and it is not forwarded where that does not count. -/
structure TakesPart (c : Context) (e : Export) : Prop where
  named : e.isSentinel = false
  heeded : ∀ v, c.option? "ignoreNames" = some v → ¬Lists v e.name
  counted : c.flag "ignoreReexports" false = true → e.form ≠ .reexport

/-- A file has an export of a name that takes part. -/
def Offers (c : Context) (p : Project) (file name : String) : Prop :=
  ∃ e ∈ p.exportsOf file, TakesPart c e ∧ e.name = name

/-- An export of a file takes part, and another file offers its name. -/
def Conflicts (c : Context) (p : Project) (file : String) (e : Export) : Prop :=
  TakesPart c e ∧ ∃ other ∈ p.files, other ≠ file ∧ Offers c p other e.name

theorem participates_iff {ignored : List String} (h : c.names "ignoreNames" [] = .ok ignored) :
    participates ignored (c.flag "ignoreReexports" false) e = true ↔ TakesPart c e := by
  have hheeded : ignored.contains e.name = false ↔
      ∀ v, c.option? "ignoreNames" = some v → ¬Lists v e.name := by
    rw [← Bool.not_eq_true, List.contains_iff_mem, mem_names_iff h]
    simp only [not_exists, not_and]
  simp only [participates, Bool.not_eq_true', Bool.or_eq_false_iff, Bool.and_eq_false_imp,
    beq_eq_false_iff_ne, hheeded]
  exact ⟨fun ⟨⟨hn, hh⟩, hc⟩ => ⟨hn, hh, hc⟩, fun ⟨hn, hh, hc⟩ => ⟨⟨hn, hh⟩, hc⟩⟩

section Grouped

variable {takesPart : Export → Bool} (htakes : ∀ e, takesPart e = true ↔ TakesPart c e)
include htakes

/-- The files that are listed for a name are those that offer it. -/
theorem mem_filesExporting_iff :
    file ∈ filesExporting p takesPart name ↔ file ∈ p.files ∧ Offers c p file name := by
  simp only [filesExporting, List.mem_filter, List.any_eq_true, Bool.and_eq_true, beq_iff_eq,
    htakes, Offers]

/-- Several files are listed for the name of an export exactly if it is in conflict. -/
theorem several_files_iff (hfiles : p.files.Nodup) (he : e ∈ p.exportsOf file)
    (hpart : TakesPart c e) : ¬(filesExporting p takesPart e.name).length < 2 ↔
      Conflicts c p file e := by
  have hown : file ∈ filesExporting p takesPart e.name :=
    (mem_filesExporting_iff htakes).2 ⟨Project.mem_files_of_mem_exportsOf he, e, he, hpart, rfl⟩
  have hnodup : (filesExporting p takesPart e.name).Nodup := hfiles.filter _
  rw [length_lt_two_iff hnodup hown, Conflicts, and_iff_right hpart]
  simp only [mem_filesExporting_iff htakes, not_forall, exists_prop, and_assoc]
  exact exists_congr fun other => and_congr_right fun _ => and_comm

end Grouped

/-- The finding on an export that is in conflict. -/
def conflictFinding (c : Context) (related : String → List String) (r : String × Export) :
    Finding :=
  { c.finding .duplicateExport r.1 ("Export '" ++ r.2.name ++
      "' conflicts with exports in other files") with
    suggestion := some "Rename one of the exports or re-export a single definition"
    relatedFiles := related r.2.name
    location := some r.2.location
    metadata := [("exportName", .str r.2.name), ("scope", .str "project")] }

/-- In each file, the findings are on the exports that take part and whose name several files
have. -/
theorem filterMap_conflictFinding (takesPart : Export → Bool) (related : String → List String)
    (file : String) (es : List Export) :
    (es.filter takesPart).filterMap (fun e =>
        if (related e.name).length < 2 then none else some (conflictFinding c related (file, e))) =
      ((es.map fun e => (file, e)).filter fun r =>
        takesPart r.2 && !decide ((related r.2.name).length < 2)).map
          (conflictFinding c related) := by
  induction es with
  | nil => rfl
  | cons e es ih =>
    rw [List.map_cons, List.filter_cons, List.filter_cons]
    by_cases hpart : takesPart e = true
    · by_cases halone : (related e.name).length < 2
      · simpa only [hpart, halone, if_true, if_false, List.filterMap_cons, decide_true,
          Bool.not_true, Bool.and_false, Bool.false_eq_true] using ih
      · simpa only [hpart, halone, if_true, if_false, List.filterMap_cons, decide_false,
          Bool.not_false, Bool.and_true, List.map_cons, List.cons.injEq, true_and] using ih
    · simpa only [hpart, if_false, Bool.false_and, Bool.false_eq_true] using ih

/-- The findings are on the exports of the project in its order, less those that do not take part
and those whose name one file has. -/
theorem namesAreUnique_eq {ignored : List String} (h : c.names "ignoreNames" [] = .ok ignored) :
    let takesPart := participates ignored (c.flag "ignoreReexports" false)
    namesAreUnique c p = .ok ((p.records.filter fun r => takesPart r.2 &&
      !decide ((filesExporting p takesPart r.2.name).length < 2)).map
        (conflictFinding c (filesExporting p takesPart))) := by
  intro takesPart
  simp only [Project.records, List.filter_flatMap, List.map_flatMap, ← filterMap_conflictFinding]
  exact bind_eq_ok_iff.2 ⟨ignored, h, rfl⟩

/-- Each export of a project that is in conflict has one finding, in the order of the project, and
no other export has one. The findings on a name list the files that offer it, each once and in the
order of the project. -/
def ReportsConflicts (c : Context) (p : Project) : Prop :=
  ∃ (inConflict : String × Export → Bool) (related : String → List String),
    namesAreUnique c p = .ok ((p.records.filter inConflict).map (conflictFinding c related)) ∧
    (∀ r ∈ p.records, inConflict r = true ↔ Conflicts c p r.1 r.2) ∧
    ∀ name, (related name).Nodup ∧ (related name).Sublist p.files ∧
      ∀ f, f ∈ related name ↔ f ∈ p.files ∧ Offers c p f name

/-- With names to ignore, the exports in conflict are reported. -/
theorem reportsConflicts_of_names (hfiles : p.files.Nodup) {ignored : List String}
    (h : c.names "ignoreNames" [] = .ok ignored) : ReportsConflicts c p := by
  have htakes (e : Export) := participates_iff (e := e) h
  refine ⟨_, _, namesAreUnique_eq h, fun r hr => ?_, fun name =>
    ⟨hfiles.filter _, List.filter_sublist, fun f => mem_filesExporting_iff htakes⟩⟩
  obtain ⟨file, hfile, hr⟩ := List.mem_flatMap.1 hr
  obtain ⟨e, he, rfl⟩ := List.mem_map.1 hr
  rw [Bool.and_eq_true, htakes, Bool.not_eq_true', decide_eq_false_iff_not]
  constructor
  · rintro ⟨hpart, hseveral⟩
    exact (several_files_iff htakes hfiles he hpart).1 hseveral
  · intro hconf
    exact ⟨hconf.1, (several_files_iff htakes hfiles he hconf.1).2 hconf⟩

/-- The exports in conflict are reported exactly if the option on names to ignore, where it is
given, lists what can be a name. Otherwise the rule fails on the type of the option. -/
theorem conflicts_reported_once_iff (hfiles : p.files.Nodup) :
    (ReportsConflicts c p ↔ ∀ v, c.option? "ignoreNames" = some v → listsNames v = true) ∧
      (¬ReportsConflicts c p → namesAreUnique c p = .error .wrongType) := by
  have hiff : ReportsConflicts c p ↔ ∃ ignored, c.names "ignoreNames" [] = .ok ignored := by
    constructor
    · rintro ⟨inConflict, related, h, -⟩
      exact exists_namesAreUnique_iff.1 ⟨_, h⟩
    · rintro ⟨ignored, h⟩
      exact reportsConflicts_of_names hfiles h
  refine ⟨hiff.trans exists_names_iff, fun hnot => ?_⟩
  cases hn : c.names "ignoreNames" [] with
  | ok ignored => exact absurd (hiff.2 ⟨ignored, hn⟩) hnot
  | error f =>
    rw [namesAreUnique, hn, eq_wrongType_of_names hn]
    rfl

/-- An export of a function at the start of a line. -/
def functionOn (file : String) (line : Int) (name : String) : Export where
  file
  name
  form := .named
  kind := .function
  location := ⟨file, line, 17, line, 22⟩

/-- A function has two signatures in one file and one in another. Both files have a name that is to
be ignored. -/
def overloadProject : Project where
  here := ["work"]
  root := "proj"
  exports := [("proj/a.ts", [functionOn "proj/a.ts" 1 "parse", functionOn "proj/a.ts" 2 "main"]),
    ("proj/b.ts", [functionOn "proj/b.ts" 1 "parse", functionOn "proj/b.ts" 2 "parse",
      functionOn "proj/b.ts" 3 "main"])]

/-- The rule on conflicts, with a name that is to be ignored. -/
def ignoringMain : Context :=
  { appContext with
    setting := { name := "no-global-conflicts", options := [("ignoreNames", .arr [.str "main"])] } }

/-- The same rule, with a number in place of the names. -/
def ignoringNumber : Context :=
  { appContext with
    setting := { name := "no-global-conflicts", options := [("ignoreNames", .int 5)] } }

/-- Both signatures are in conflict with the other file, and the ignored name is in none. If the
names to ignore are a number, then nothing is reported: the rule fails. -/
theorem both_signatures_conflict :
    (∃ (inConflict : String × Export → Bool) (related : String → List String),
      namesAreUnique ignoringMain overloadProject =
        .ok ((overloadProject.records.filter inConflict).map
          (conflictFinding ignoringMain related)) ∧
      (∀ r ∈ overloadProject.records, inConflict r = true ↔ r.2.name = "parse") ∧
      related "parse" = ["proj/a.ts", "proj/b.ts"]) ∧
    ¬ReportsConflicts ignoringNumber overloadProject ∧
      namesAreUnique ignoringNumber overloadProject = .error .wrongType := by
  have hignored : ignoringMain.names "ignoreNames" [] = .ok ["main"] := rfl
  have htakes (e : Export) := participates_iff (e := e) hignored
  have hfiles : overloadProject.files.Nodup := by decide
  have hnumber := conflicts_reported_once_iff hfiles (c := ignoringNumber)
  have hfails : ¬ReportsConflicts ignoringNumber overloadProject := by
    rw [hnumber.1]
    exact fun hlists => absurd (hlists (.int 5) rfl) (by decide)
  refine ⟨?_, hfails, hnumber.2 hfails⟩
  obtain ⟨inConflict, related, h, hconf, hrelated⟩ :=
    (conflicts_reported_once_iff hfiles).1.2 (exists_names_iff.1 ⟨_, hignored⟩)
  have hpart : ∀ r ∈ overloadProject.records, TakesPart ignoringMain r.2 ↔ r.2.name = "parse" := by
    simp only [← htakes]
    decide
  have hoffers : ∀ f ∈ overloadProject.files, Offers ignoringMain overloadProject f "parse" := by
    simp only [Offers, ← htakes]
    decide
  refine ⟨inConflict, related, h, fun r hr => (hconf r hr).trans ?_, ?_⟩
  · have hother : ∃ other ∈ overloadProject.files, other ≠ r.1 := by
      by_cases hfile : r.1 = "proj/a.ts"
      · exact ⟨"proj/b.ts", by decide, by simp [hfile]⟩
      · exact ⟨"proj/a.ts", by decide, Ne.symm hfile⟩
    obtain ⟨other, hin, hne⟩ := hother
    rw [Conflicts, hpart r hr]
    exact ⟨And.left, fun hname => ⟨hname, other, hin, hne, hname ▸ hoffers other hin⟩⟩
  · obtain ⟨-, hsub, hmem⟩ := hrelated "parse"
    have hall : overloadProject.files ⊆ related "parse" :=
      fun f hf => (hmem f).2 ⟨hf, hoffers f hf⟩
    exact hsub.eq_of_length_le (hfiles.subperm hall).length_le

end Rule

end ExportLint
