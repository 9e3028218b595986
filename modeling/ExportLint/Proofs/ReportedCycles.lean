import ExportLint.Proofs.ClosedWalks
import ExportLint.Proofs.RelativePaths
import ExportLint.Proofs.Repetitions
import ExportLint.Proofs.WantedNames
import ExportLint.Rule.Cycle

/-!
# The cycles that are reported

Each component of a project is reported with a shortest closed walk through its first file. The walk
goes through another file exactly if the first file does not import itself: where it does, the way
from the file to itself is the shortest one, and no other file of the component is named on it.
-/
namespace ExportLint

namespace Graph

variable {g : Graph} {start : String} {between : List String}

/-- Each node of a closed walk leads on. -/
theorem IsWalk.exists_next {n : String} (h : g.IsWalk (start :: (between ++ [start])))
    (hn : n ∈ start :: between) : ∃ m, m ∈ g.next n := by
  obtain ⟨r, hrest⟩ := h.exists_rest hn
  cases r with
  | nil => exact ⟨start, (isWalk_cons_cons_iff.1 hrest).1⟩
  | cons m r => exact ⟨m, (isWalk_cons_cons_iff.1 hrest).1⟩

/-- A shortest closed walk goes through another node unless its start has an edge to itself. -/
theorem exists_between_iff (hwalk : g.IsWalk (start :: (between ++ [start])))
    (hnodup : (start :: between).Nodup)
    (hshortest : ∀ w, g.IsClosedWalk w → start ∈ w → between.length + 2 ≤ w.length) :
    (∃ n ∈ between, n ≠ start) ↔ start ∉ g.next start := by
  constructor
  · rintro ⟨n, hn, -⟩ hself
    have hloop : g.IsWalk (start :: ([] ++ [start])) :=
      isWalk_cons_cons_iff.2 ⟨hself, List.isChain_singleton start⟩
    have hle := hshortest _ (isClosedWalk_of_isWalk hloop) List.mem_cons_self
    have hpos := List.length_pos_of_mem hn
    simp only [List.nil_append, List.length_cons, List.length_nil] at hle
    omega
  · intro hself
    cases between with
    | nil => exact absurd (isWalk_cons_cons_iff.1 hwalk).1 hself
    | cons n rest =>
      have hne := List.ne_of_not_mem_cons (List.nodup_cons.1 hnodup).1
      exact ⟨n, List.mem_cons_self, hne.symm⟩

end Graph

namespace Project

variable {p : Project} {a b : String}

/-- A file of a project leads to what it imports or re-exports from, and nothing else leads on. -/
theorem mem_next_graph_iff : b ∈ p.graph.next a ↔ a ∈ p.files ∧ b ∈ p.targets a := by
  rw [Graph.next, graph, lookup_map_key]
  split
  · rename_i ha
    simp [ha]
  · rename_i ha
    simp [ha]

/-- The files of a project are at places of their own. -/
structure LiesApart (p : Project) : Prop where
  here : ∀ s ∈ p.here, Path.IsStep s
  named : "" ∉ p.files
  apart : ∀ a ∈ p.files, ∀ b ∈ p.files,
    Path.absolute p.here a = Path.absolute p.here b → a = b

theorem LiesApart.eq_of_relative_eq (h : p.LiesApart) (ha : a ∈ p.files) (hb : b ∈ p.files)
    (he : p.relative a = p.relative b) : a = b :=
  h.apart a ha b hb (absolute_eq_of_relative_eq h.here (fun hn => h.named (hn ▸ ha))
    (fun hn => h.named (hn ▸ hb)) he)

end Project

namespace Rule

open ExportLint.Graph

/-- Each component is reported with a closed walk that starts and ends with its first file. The walk
goes through another file exactly if the first file does not import itself, and so do the paths that
are shown, where the files are at places of their own. -/
theorem reported_cycle_names_another_iff (c : Context) (p : Project) :
    ∃ found, filesFormNoCycles c p = .ok found ∧
      found.map (·.relatedFiles) = p.graph.cycles p.files ∧
      ∀ f ∈ found, ∃ first between, f.relatedFiles.head? = some first ∧
        f.metadata.get? "cycle" =
          some (Json.strings ((first :: (between ++ [first])).map p.relative)) ∧
        p.graph.IsClosedWalk (first :: (between ++ [first])) ∧
        ((∃ n ∈ between, n ≠ first) ↔ first ∉ p.targets first) ∧
        (p.LiesApart → ((∃ shown ∈ between.map p.relative, shown ≠ p.relative first) ↔
          first ∉ p.targets first)) := by
  refine ⟨_, rfl, by simp [Function.comp_def], fun f hf => ?_⟩
  obtain ⟨members, hmembers, rfl⟩ := List.mem_map.1 hf
  obtain ⟨first, between, hhead, hclose, hwalk, hnodup, -, hshortest⟩ :=
    exists_closeFrom_of_mem_cycles hmembers
  have hfile {n : String} (hn : n ∈ first :: between) : n ∈ p.files := by
    obtain ⟨m, hm⟩ := hwalk.exists_next hn
    exact (Project.mem_next_graph_iff.1 hm).1
  have hother : (∃ n ∈ between, n ≠ first) ↔ first ∉ p.targets first := by
    rw [exists_between_iff hwalk hnodup hshortest, Project.mem_next_graph_iff,
      and_iff_right (hfile List.mem_cons_self)]
  refine ⟨first, between, hhead, ?_, isClosedWalk_of_isWalk hwalk, hother, fun happart => ?_⟩
  · rw [closedWalk_eq_of_closeFrom hhead hclose]
    rfl
  · rw [← hother]
    constructor
    · rintro ⟨_, hshown, hne⟩
      obtain ⟨n, hn, rfl⟩ := List.mem_map.1 hshown
      exact ⟨n, hn, fun he => hne (he ▸ rfl)⟩
    · rintro ⟨n, hn, hne⟩
      refine ⟨_, List.mem_map_of_mem hn, fun he => hne ?_⟩
      exact happart.eq_of_relative_eq (hfile (List.mem_cons_of_mem _ hn))
        (hfile List.mem_cons_self) he

/-- An import for its effect. -/
def loopImport (file specifier : String) : Import where
  file
  specifier
  location := ⟨file, 1, 1, 1, 13⟩

/-- Two files that import each other. The first one imports itself as well. -/
def loopProject : Project where
  here := ["work"]
  root := "proj"
  exports := [("proj/a.ts", []), ("proj/b.ts", [])]
  imports := [("proj/a.ts", [loopImport "proj/a.ts" "./a", loopImport "proj/a.ts" "./b"]),
    ("proj/b.ts", [loopImport "proj/b.ts" "./a"])]

/-- Two files are reported as a cycle, and only one of them is named on the way around it. -/
theorem loopProject_hides_other :
    ∃ found f shown, filesFormNoCycles appContext loopProject = .ok found ∧ f ∈ found ∧
      f.relatedFiles = ["proj/a.ts", "proj/b.ts"] ∧
      f.metadata.get? "cycle" = some (Json.strings shown) ∧ ∀ path ∈ shown, path = "a.ts" := by
  have htargets : loopProject.targets "proj/a.ts" = ["proj/a.ts", "proj/b.ts"] := by
    decide +kernel
  have hcycles : loopProject.graph.cycles loopProject.files = [["proj/a.ts", "proj/b.ts"]] := by
    have hcomponents : (loopProject.graph.search loopProject.files).components =
        [["proj/b.ts", "proj/a.ts"]] := by decide +kernel
    rw [cycles, hcomponents]
    simp [sortByPosition, List.mergeSort, position, loopProject, Project.files, Project.hasExports,
      List.idxOf_cons]
  have happart : loopProject.LiesApart := by
    refine ⟨fun s hs => ?_, by decide +kernel, by decide +kernel⟩
    rw [List.mem_singleton.1 hs]
    exact ⟨by decide, by decide, by decide⟩
  obtain ⟨found, hfound, hrelated, hwalks⟩ :=
    reported_cycle_names_another_iff appContext loopProject
  rw [hcycles] at hrelated
  obtain ⟨f, hf, hfiles⟩ := List.mem_map.1 (hrelated ▸ List.mem_singleton_self _)
  obtain ⟨first, between, hhead, hshown, -, -, hiff⟩ := hwalks f hf
  rw [hfiles] at hhead
  obtain rfl := Option.some.inj hhead
  have hpath : loopProject.relative "proj/a.ts" = "a.ts" := by decide +kernel
  rw [hpath] at hiff
  have hnone := mt (hiff happart).1 (not_not.2 (by rw [htargets]; decide))
  refine ⟨found, f, _, hfound, hf, hfiles, hshown, fun path hmem => ?_⟩
  rw [List.map_cons, List.map_append, hpath, List.mem_cons, List.mem_append] at hmem
  rcases hmem with rfl | hmem | hmem
  · rfl
  · by_contra hne
    exact hnone ⟨path, hmem, hne⟩
  · exact (List.mem_singleton.1 hmem).trans hpath

end Rule

end ExportLint
