import ExportLint.Proofs.Attempts
import ExportLint.Proofs.RelativePaths
import ExportLint.Proofs.ResolvedSpecifiers
import ExportLint.Proofs.WantedNames

/-!
# Imports of internal modules

The boundaries of a module lie one within the other, so the first of those that an import crosses is
found exactly if it crosses the deepest. Boundaries and importers are compared by their ways from
the root, and that tells whether an importer lies within unless the boundary is around the root.
-/
namespace ExportLint

namespace Project

variable (p : Project)

def placeOf (file : String) : Place := Path.absolute p.here file

def rootPlace : Place := Path.absolute p.here p.root

/-- The steps from the root to a file. -/
def way (file : String) : List String := Path.stepsBetween p.rootPlace (p.placeOf file)

variable {p} {file : String}

theorem not_mem_placeOf (hhere : ∀ s ∈ p.here, Path.IsStep s) (path : String) :
    ".." ∉ Path.absolute p.here path :=
  fun hm => (Path.mem_absolute hhere hm).2 rfl

theorem isStep_of_mem_way (hhere : ∀ s ∈ p.here, Path.IsStep s) :
    ∀ s ∈ p.way file, Path.IsStep s :=
  (Path.wellFormed_stepsBetween hhere).steps

theorem parse_relative (hhere : ∀ s ∈ p.here, Path.IsStep s) (hfile : file ≠ "") :
    Path.parse (p.relative file) = ⟨"", p.way file⟩ := by
  rw [relative_eq hhere hfile, Path.parse_text (Path.wellFormed_stepsBetween hhere)]
  rfl

end Project

namespace Rule

variable {p : Project} {markers ss dirs b : List String} {l : Project.Link}

/-- What comes before each of some steps that is marked, the shortest first. -/
def beforeMarked (markers : List String) : List String → List (List String)
  | [] => []
  | s :: ss => (if markers.contains s then [[]] else []) ++ (beforeMarked markers ss).map (s :: ·)

/-- What comes before the last of some steps that is marked. -/
def beforeLastMarked? (markers : List String) : List String → Option (List String)
  | [] => none
  | s :: ss =>
    match beforeLastMarked? markers ss with
    | some b => some (s :: b)
    | none => if markers.contains s then some [] else none

/-- The deepest boundary of a module, by the steps to it: its own directory if the name of its file
is a marker, and otherwise the parent of the innermost directory that is marked. -/
def deepest? (markers ss : List String) : Option (List String) :=
  if markers.contains (Path.mk "" ss).stem then some ss.dropLast
  else beforeLastMarked? markers ss.dropLast

theorem getLast?_beforeMarked (markers dirs : List String) :
    (beforeMarked markers dirs).getLast? = beforeLastMarked? markers dirs := by
  induction dirs with
  | nil => rfl
  | cons s dirs ih =>
    rw [beforeMarked, beforeLastMarked?, ← ih, List.getLast?_append, List.getLast?_map]
    cases (beforeMarked markers dirs).getLast? with
    | some b => rfl
    | none => split <;> rfl

theorem prefix_of_mem_beforeMarked (h : b ∈ beforeMarked markers dirs) : b <+: dirs := by
  induction dirs generalizing b with
  | nil => exact absurd h List.not_mem_nil
  | cons s dirs ih =>
    rcases List.mem_append.1 h with h | h
    · split at h
      · rw [List.mem_singleton.1 h]
        exact List.nil_prefix
      · exact absurd h List.not_mem_nil
    · obtain ⟨b, hb, rfl⟩ := List.mem_map.1 h
      exact List.prefix_cons_inj s |>.2 (ih hb)

/-- Boundaries lie one within the other. -/
theorem pairwise_beforeMarked (markers dirs : List String) :
    (beforeMarked markers dirs).Pairwise (· <+: ·) := by
  induction dirs with
  | nil => exact List.Pairwise.nil
  | cons s dirs ih =>
    rw [beforeMarked, List.pairwise_append, List.pairwise_map]
    refine ⟨by split <;> simp, ih.imp fun h => (List.prefix_cons_inj s).2 h, fun a ha b _ => ?_⟩
    split at ha
    · rw [List.mem_singleton.1 ha]
      exact List.nil_prefix
    · exact absurd ha List.not_mem_nil

theorem map_take_eq_beforeMarked (markers dirs : List String) :
    ((List.range dirs.length).filter fun i => dirs[i]?.any markers.contains).map (dirs.take ·) =
      beforeMarked markers dirs := by
  induction dirs with
  | nil => rfl
  | cons s dirs ih =>
    rw [beforeMarked, ← ih, List.length_cons, List.range_succ_eq_map, List.filter_cons,
      List.filter_map]
    by_cases hs : s ∈ markers
    · simp [hs, Function.comp_def]
    · simp [hs, Function.comp_def]

theorem ofParts_eq (hss : ∀ s ∈ ss, Path.IsStep s) : Path.ofParts ss = ⟨"", ss⟩ := by
  cases ss with
  | nil => rfl
  | cons s ss =>
    have hslash := (hss s List.mem_cons_self).no_slash
    rw [Path.ofParts, if_neg]
    rintro (rfl | rfl)
    · exact absurd hslash (by decide)
    · exact absurd hslash (by decide)

/-- The boundaries of a module, by the steps to it. -/
def boundarySteps (markers ss : List String) : List (List String) :=
  beforeMarked markers ss.dropLast ++
    if markers.contains (Path.mk "" ss).stem then [ss.dropLast] else []

theorem getLast?_boundarySteps (markers ss : List String) :
    (boundarySteps markers ss).getLast? = deepest? markers ss := by
  rw [boundarySteps, deepest?, List.getLast?_append, getLast?_beforeMarked]
  split <;> rfl

/-- Boundaries lie one within the other. -/
theorem pairwise_boundarySteps (markers ss : List String) :
    (boundarySteps markers ss).Pairwise (· <+: ·) := by
  rw [boundarySteps, List.pairwise_append]
  refine ⟨pairwise_beforeMarked markers ss.dropLast, by split <;> simp, fun a ha b hb => ?_⟩
  split at hb
  · rw [List.mem_singleton.1 hb]
    exact prefix_of_mem_beforeMarked ha
  · exact absurd hb List.not_mem_nil

theorem lead_of_deepest? (h : deepest? markers ss = some b) : b <+: ss.dropLast := by
  rw [← getLast?_boundarySteps] at h
  rcases List.mem_append.1 (List.mem_of_getLast? h) with h | h
  · exact prefix_of_mem_beforeMarked h
  · split at h
    · obtain rfl := List.mem_singleton.1 h
      exact List.prefix_rfl
    · exact absurd h List.not_mem_nil

theorem boundaries_eq (hss : ∀ s ∈ ss, Path.IsStep s) :
    boundaries markers ⟨"", ss⟩ = (boundarySteps markers ss).map (Path.mk "") := by
  have hparts : (Path.mk "" ss).parts = ss := rfl
  have hmarked : ((List.range (ss.length - 1)).filter fun i => ss[i]?.any markers.contains) =
      (List.range ss.dropLast.length).filter fun i => ss.dropLast[i]?.any markers.contains := by
    rw [List.length_dropLast]
    refine List.filter_congr fun i hi => ?_
    rw [List.getElem?_dropLast, if_pos (List.mem_range.1 hi)]
  rw [boundaries, boundarySteps, hparts, hmarked, ← map_take_eq_beforeMarked, List.map_append,
    List.map_map]
  congr 1
  · refine List.map_congr_left fun i hi => ?_
    have hlt := List.mem_range.1 (List.mem_filter.1 hi).1
    have htake : ss.dropLast.take i = ss.take i := by
      rw [List.dropLast_eq_take, List.take_take]
      rw [List.length_dropLast] at hlt
      rw [Nat.min_eq_left (Nat.le_of_lt hlt)]
    rw [ofParts_eq fun s hs => hss s (List.mem_of_mem_take hs), Function.comp_apply, htake]
  · split <;> rfl

/-- What holds from some member of a list on is found in it exactly if it holds of the last one. -/
theorem find?_isSome_iff_getLast? {α : Type} {r : α → α → Prop} {q : α → Bool} {l : List α}
    (hl : l.Pairwise r) (hq : ∀ a b, r a b → q a = true → q b = true) :
    (l.find? q).isSome = true ↔ ∃ a, l.getLast? = some a ∧ q a = true := by
  rw [List.find?_isSome]
  constructor
  · rintro ⟨a, ha, hqa⟩
    obtain ⟨front, last, rfl⟩ : ∃ front last, l = front ++ [last] :=
      ⟨_, _, (List.dropLast_concat_getLast (List.ne_nil_of_mem ha)).symm⟩
    refine ⟨last, List.getLast?_concat, ?_⟩
    rcases List.mem_append.1 ha with ha | ha
    · exact hq a last ((List.pairwise_append.1 hl).2.2 a ha last (List.mem_singleton_self last)) hqa
    · exact List.mem_singleton.1 ha ▸ hqa
  · rintro ⟨a, ha, hqa⟩
    exact ⟨a, List.mem_of_getLast? ha, hqa⟩

/-- A boundary is crossed if it is not the root and the steps to the importer do not start with
it. -/
theorem isCrossed_iff :
    (!(Path.mk "" b).parts.isEmpty && !(Path.mk "" ss).isWithin ⟨"", b⟩) = true ↔
      b ≠ [] ∧ ¬b <+: ss := by
  have hparts : (Path.mk "" b).parts = b := rfl
  have hwithin : (Path.mk "" ss).isWithin ⟨"", b⟩ = b.isPrefixOf ss := rfl
  rw [hparts, hwithin, Bool.and_eq_true, Bool.not_eq_true', Bool.not_eq_true',
    List.isEmpty_eq_false_iff, ← Bool.not_eq_true, List.isPrefixOf_iff_prefix]

/-- An import crosses a boundary exactly if it crosses the deepest one. -/
theorem crossed?_isSome_iff (hhere : ∀ s ∈ p.here, Path.IsStep s) (htarget : l.target ≠ "")
    (himporter : l.importer ≠ "") : (crossed? p markers l).isSome = true ↔
      ∃ b, deepest? markers (p.way l.target) = some b ∧ b ≠ [] ∧ ¬b <+: p.way l.importer := by
  rw [crossed?, Project.parse_relative hhere htarget, Project.parse_relative hhere himporter,
    boundaries_eq (Project.isStep_of_mem_way hhere), List.find?_map, Option.isSome_map,
    find?_isSome_iff_getLast? (pairwise_boundarySteps markers (p.way l.target)),
    getLast?_boundarySteps]
  · exact exists_congr fun b => and_congr_right fun _ => isCrossed_iff
  · intro a b hab ha
    obtain ⟨hne, hout⟩ := isCrossed_iff.1 ha
    refine isCrossed_iff.2 ⟨?_, fun hb => hout (hab.trans hb)⟩
    rintro rfl
    exact hne (List.prefix_nil.1 hab)

/-- The finding on an import that crosses a boundary. -/
def accessFinding (c : Context) (l : Project.Link) (boundary : Path) : Finding :=
  let specifier := l.statement.specifier
  { c.finding .accessViolation l.importer ("'" ++ specifier ++ "' is internal to " ++
      boundary.text) with
    suggestion := some "Import from the public entry point of that module instead"
    relatedFiles := [l.importer, l.target]
    location := some l.statement.location
    metadata := [("moduleSpecifier", .str specifier), ("scope", .str "project")] }

/-- The names that mark internal modules, unless an option gives others. -/
def defaultMarkers : List String := ["internal", "_internal", "private"]

theorem boundariesAreKept_eq {c : Context}
    (h : c.names "internalMarkers" defaultMarkers = .ok markers) : boundariesAreKept c p =
      .ok (p.links.filterMap fun l => (crossed? p markers l).map (accessFinding c l)) :=
  bind_eq_ok_iff.2 ⟨markers, h, rfl⟩

/-- The directory that a module may only be imported from: the place of its deepest boundary. -/
def innermost? (p : Project) (markers : List String) (file : String) : Option Place :=
  (deepest? markers (p.way file)).map (Path.arrive p.rootPlace)

/-- An import crosses the deepest boundary of its target: that is not the root, and the importer is
not below it. -/
def Crosses (p : Project) (markers : List String) (l : Project.Link) : Prop :=
  ∃ d, innermost? p markers l.target = some d ∧ d ≠ p.rootPlace ∧
    ¬Path.Holds d (p.placeOf l.importer)

/-- The steps from the root do not tell whether an importer is below the deepest boundary: it has
the very place of that directory, or the directory is around the root and the way to the importer
does not turn there. -/
def Misjudged (p : Project) (markers : List String) (l : Project.Link) : Prop :=
  ∃ d, innermost? p markers l.target = some d ∧ d ≠ p.rootPlace ∧
    (p.placeOf l.importer = d ∨ (d <+: p.rootPlace ∧
      Path.commonLead p.rootPlace (p.placeOf l.importer) ≠ d.length))

section Judged

variable (hhere : ∀ s ∈ p.here, Path.IsStep s)
include hhere

/-- Steps tell whether an import crosses the deepest boundary unless it is misjudged. -/
theorem crosses_iff_of_steps :
    ((∃ b, deepest? markers (p.way l.target) = some b ∧ b ≠ [] ∧ ¬b <+: p.way l.importer) ↔
      Crosses p markers l) ↔ ¬Misjudged p markers l := by
  have hroot := Project.not_mem_placeOf hhere p.root
  have htarget := Project.not_mem_placeOf hhere l.target
  have himporter := Project.not_mem_placeOf hhere l.importer
  cases hb : deepest? markers (p.way l.target) with
  | none => simp [Crosses, Misjudged, innermost?, hb]
  | some b =>
    have hway : b <+: p.way l.target := (lead_of_deepest? hb).trans (List.dropLast_prefix _)
    have hne : Path.arrive p.rootPlace b ≠ p.rootPlace ↔ b ≠ [] :=
      not_congr (Path.arrive_eq_start_iff hroot htarget hway)
    simp only [Crosses, Misjudged, innermost?, hb, Option.map_some, Option.some.injEq,
      exists_eq_left', hne]
    by_cases hnil : b = []
    · simp [hnil]
    · simp only [ne_eq, hnil, not_false_iff, true_and, not_iff_not]
      exact Path.prefix_iff_holds hroot htarget hway himporter hnil

/-- An importer in the directory of the target, or below it, crosses no boundary. -/
theorem not_crosses_of_holds (hjudged : ¬Misjudged p markers l)
    (hin : Path.Holds (p.placeOf l.target).dropLast (p.placeOf l.importer)) :
    ¬Crosses p markers l := by
  rintro ⟨d, hd, hne, hout⟩
  obtain ⟨b, hb, rfl⟩ := Option.map_eq_some_iff.1 hd
  have hway : b <+: p.way l.target := (lead_of_deepest? hb).trans (List.dropLast_prefix _)
  have hroot : ".." ∉ p.rootPlace := Project.not_mem_placeOf hhere p.root
  have htarget : ".." ∉ p.placeOf l.target := Project.not_mem_placeOf hhere l.target
  rcases Path.arrive_prefix_or hroot htarget hway (lead_of_deepest? hb) with habove | habove
  · -- Around the root, the importer is below where its way turns.
    have hself : p.placeOf l.importer ≠ Path.arrive p.rootPlace b :=
      fun he => hjudged ⟨_, hd, hne, .inl he⟩
    have hturn : Path.commonLead p.rootPlace (p.placeOf l.importer) =
        (Path.arrive p.rootPlace b).length :=
      not_not.1 fun he => hjudged ⟨_, hd, hne, .inr ⟨habove, he⟩⟩
    have hlead := (Path.le_commonLead_iff.1 (Nat.le_of_eq hturn.symm)).2
    rw [← List.prefix_iff_eq_take.1 habove] at hlead
    exact hout ⟨hlead, hself.symm⟩
  · exact hout (hin.of_lead habove)

end Judged

/-- Where an import crosses no boundary, none is crossed from below the directory of its file. -/
theorem not_crosses_of_below {l' : Project.Link} (hsame : l'.target = l.target)
    (hbelow : Path.Holds (p.placeOf l.importer).dropLast (p.placeOf l'.importer))
    (h : ¬Crosses p markers l) : ¬Crosses p markers l' := by
  rintro ⟨d, hd, hne, hout⟩
  rw [hsame] at hd
  have hin : Path.Holds d (p.placeOf l.importer) := by_contra fun hno => h ⟨d, hd, hne, hno⟩
  exact hout (hbelow.of_lead hin.prefix_dropLast)

theorem filterMap_map_eq {α β γ : Type} (f : α → Option β) (g : α → β → γ) (b : β) (l : List α) :
    l.filterMap (fun a => (f a).map (g a)) =
      (l.filter fun a => (f a).isSome).map fun a => g a ((f a).getD b) := by
  induction l with
  | nil => rfl
  | cons a l ih =>
    cases hf : f a with
    | none => simp [hf, ih]
    | some b => simp [hf, ih]

/-- Each import that resolves to a file of the project is reported at most once: exactly if, by the
steps from the root, its importer is not within the deepest boundary of its target, which is not the
root. That is so exactly if the importer is not below that boundary unless the steps misjudge it.
Where they do not, no importer in the directory of the target or below it is reported, and none
below an importer that is not. -/
theorem boundary_crossings_reported_iff {c : Context} (hhere : ∀ s ∈ p.here, Path.IsStep s)
    (hnamed : "" ∉ p.files) (hmarkers : c.names "internalMarkers" defaultMarkers = .ok markers) :
    ∃ (reported : Project.Link → Bool) (boundary : Project.Link → Path),
      boundariesAreKept c p =
        .ok ((p.links.filter reported).map fun l => accessFinding c l (boundary l)) ∧
      ∀ l ∈ p.links,
        (reported l = true ↔ ∃ b, deepest? markers (p.way l.target) = some b ∧ b ≠ [] ∧
          ¬b <+: p.way l.importer) ∧
        ((reported l = true ↔ Crosses p markers l) ↔ ¬Misjudged p markers l) ∧
        (¬Misjudged p markers l →
          Path.Holds (p.placeOf l.target).dropLast (p.placeOf l.importer) → reported l = false) ∧
        ∀ l' ∈ p.links, l'.target = l.target → ¬Misjudged p markers l →
          ¬Misjudged p markers l' →
          Path.Holds (p.placeOf l.importer).dropLast (p.placeOf l'.importer) →
          reported l = false → reported l' = false := by
  refine ⟨fun l => (crossed? p markers l).isSome, fun l => (crossed? p markers l).getD ⟨"", []⟩,
    ?_, ?_⟩
  · rw [boundariesAreKept_eq hmarkers, filterMap_map_eq _ _ ⟨"", []⟩]
  have hsteps {l : Project.Link} (hl : l ∈ p.links) : (crossed? p markers l).isSome = true ↔
      ∃ b, deepest? markers (p.way l.target) = some b ∧ b ≠ [] ∧ ¬b <+: p.way l.importer := by
    obtain ⟨hi, ht⟩ := Project.mem_links_iff.1 hl
    have hi := Project.mem_files_of_mem_importsOf hi
    have ht : l.target ∈ p.files := Resolver.mem_files_of_resolve? ht
    exact crossed?_isSome_iff hhere (fun he => hnamed (he ▸ ht)) fun he => hnamed (he ▸ hi)
  have hcrosses {l : Project.Link} (hl : l ∈ p.links) :
      ((crossed? p markers l).isSome = true ↔ Crosses p markers l) ↔ ¬Misjudged p markers l := by
    rw [hsteps hl]
    exact crosses_iff_of_steps hhere
  intro l hl
  refine ⟨hsteps hl, hcrosses hl, ?_, ?_⟩
  · intro hjudged hin
    rw [← Bool.not_eq_true, (hcrosses hl).2 hjudged]
    exact not_crosses_of_holds hhere hjudged hin
  · intro l' hl' hsame hjudged hjudged' hbelow hno
    rw [← Bool.not_eq_true, (hcrosses hl).2 hjudged] at hno
    rw [← Bool.not_eq_true, (hcrosses hl').2 hjudged']
    exact not_crosses_of_below hsame hbelow hno

def importFrom (file specifier : String) : Import where
  file
  specifier
  location := ⟨file, 1, 1, 1, 30⟩

/-- An internal module around the root, imported from inside and from outside its directory. -/
def outerProject : Project where
  here := ["work"]
  root := "app/web"
  exports := [("app/internal.ts", []), ("app/web/b.ts", []), ("c.ts", [])]
  imports := [("app/web/b.ts", [importFrom "app/web/b.ts" "../internal"]),
    ("c.ts", [importFrom "c.ts" "./app/internal"])]

/-- The import from inside is reported, and the one from outside is not. -/
theorem outer_module_misjudged :
    (∀ s ∈ outerProject.here, Path.IsStep s) ∧ "" ∉ outerProject.files ∧
    appContext.names "internalMarkers" defaultMarkers = .ok defaultMarkers ∧
    ∃ (inside outside : Project.Link) (reported : Project.Link → Bool)
        (boundary : Project.Link → Path),
      outerProject.links = [inside, outside] ∧
      boundariesAreKept appContext outerProject =
        .ok ((outerProject.links.filter reported).map fun l =>
          accessFinding appContext l (boundary l)) ∧
      Path.Holds (outerProject.placeOf inside.target).dropLast
        (outerProject.placeOf inside.importer) ∧
      reported inside = true ∧ Misjudged outerProject defaultMarkers inside ∧
      Crosses outerProject defaultMarkers outside ∧ reported outside = false := by
  have hhere : ∀ s ∈ outerProject.here, Path.IsStep s := by
    intro s hs
    cases List.mem_singleton.1 hs
    constructor <;> decide
  have hnamed : "" ∉ outerProject.files := by decide
  have hmarkers : appContext.names "internalMarkers" defaultMarkers = .ok defaultMarkers := rfl
  let inside : Project.Link :=
    ⟨"app/web/b.ts", importFrom "app/web/b.ts" "../internal", "app/internal.ts"⟩
  let outside : Project.Link := ⟨"c.ts", importFrom "c.ts" "./app/internal", "app/internal.ts"⟩
  have hlinks : outerProject.links = [inside, outside] := by decide +kernel
  obtain ⟨reported, boundary, hfound, hreported⟩ :=
    boundary_crossings_reported_iff hhere hnamed hmarkers
  obtain ⟨hinside, hjudged, -⟩ := hreported inside (hlinks ▸ List.mem_cons_self)
  obtain ⟨houtside, -⟩ := hreported outside (hlinks ▸ List.mem_cons_of_mem _ List.mem_cons_self)
  have hboundary : innermost? outerProject defaultMarkers "app/internal.ts" =
      some ["work", "app"] := by decide +kernel
  have hsteps : deepest? defaultMarkers (outerProject.way "app/internal.ts") = some [".."] := by
    decide +kernel
  have hholds : Path.Holds ["work", "app"] (outerProject.placeOf "app/web/b.ts") := by
    constructor <;> decide +kernel
  have hyes : reported inside = true :=
    hinside.2 ⟨[".."], hsteps, by decide, by decide +kernel⟩
  have hplace : (outerProject.placeOf "app/internal.ts").dropLast = ["work", "app"] := by
    decide +kernel
  refine ⟨hhere, hnamed, hmarkers, inside, outside, reported, boundary, hlinks, hfound, ?_, hyes,
    ?_, ?_, ?_⟩
  · rwa [← hplace] at hholds
  · by_contra hno
    obtain ⟨d, hd, -, hout⟩ := (hjudged.2 hno).1 hyes
    cases hboundary.symm.trans hd
    exact hout hholds
  · refine ⟨["work", "app"], hboundary, by decide +kernel, fun hin => ?_⟩
    exact absurd hin.1 (by decide +kernel)
  · rw [← Bool.not_eq_true, houtside]
    rintro ⟨b, hb, -, hout⟩
    cases hsteps.symm.trans hb
    exact hout (by decide +kernel)

end Rule

end ExportLint
