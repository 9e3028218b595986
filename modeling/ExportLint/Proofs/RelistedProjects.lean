import ExportLint.Proofs.ReachableNodes
import ExportLint.Proofs.Repetitions
import ExportLint.Rule.Link
import ExportLint.Rule.TypeLevel
import Mathlib.Data.List.Nodup
import Mathlib.Data.List.Perm.Lattice

/-!
# Projects that list the same files

A project lists its files in some order. If it has one entry for each file, and no two files have a
normal form in common, then what a file exports, imports and declares, and where its specifiers
lead, does not depend on that order. What files take from each other is then the same up to order.
-/
namespace ExportLint

variable {p q : Project} {file name : String}

namespace Project

/-- Every file has one entry, and a normal form of its own. -/
structure Listed (p : Project) : Prop where
  exports : (p.exports.map (·.1)).Nodup
  imports : (p.imports.map (·.1)).Nodup
  declarations : (p.declarations.map (·.1)).Nodup
  normal : (p.files.map Path.normal).Nodup

/-- Two projects list the same files, each with the same entries. -/
structure Relists (p q : Project) : Prop where
  here : p.here = q.here
  root : p.root = q.root
  exports : p.exports.Perm q.exports
  imports : p.imports.Perm q.imports
  declarations : p.declarations.Perm q.declarations

/-- What rules see of a project, but for the order of its files. -/
structure Alike (p q : Project) : Prop where
  here : p.here = q.here
  root : p.root = q.root
  files : p.files.Perm q.files
  exportsOf : p.exportsOf = q.exportsOf
  importsOf : p.importsOf = q.importsOf
  declarationsOf : p.declarationsOf = q.declarationsOf
  resolve? : p.resolve? = q.resolve?

theorem hasExports_eq (h : p.Relists q) (hl : p.Listed) : p.hasExports = q.hasExports := by
  funext f
  rw [hasExports, hasExports, lookup_eq_of_perm h.exports hl.exports]

theorem perm_files (h : p.Relists q) (hl : p.Listed) : p.files.Perm q.files := by
  rw [files, files, hasExports_eq h hl]
  exact (h.exports.map _).append ((h.imports.map _).filter _)

/-- With normal forms of their own, files are found by them whatever their order is. -/
theorem file?_eq_some_iff {r : Resolver} (h : (r.files.map Path.normal).Nodup) {path f : String} :
    r.file? path = some f ↔ f ∈ r.files ∧ Path.normal f = path := by
  constructor
  · intro hf
    have hp := List.find?_some hf
    exact ⟨Resolver.file?_mem hf, by simpa using hp⟩
  · rintro ⟨hf, rfl⟩
    cases hg : r.file? (Path.normal f) with
    | none =>
      have hnone := List.find?_eq_none.1 hg f (List.mem_reverse.2 hf)
      simp at hnone
    | some g =>
      have hp := List.find?_some hg
      have hsame : Path.normal g = Path.normal f := by simpa using hp
      rw [List.inj_on_of_nodup_map h (Resolver.file?_mem hg) hf hsame]

theorem resolve?_eq (h : p.Relists q) (hl : p.Listed) : p.resolve? = q.resolve? := by
  have hfiles := perm_files h hl
  have hnormal : (q.files.map Path.normal).Nodup := (hfiles.map _).nodup_iff.1 hl.normal
  have hfile : p.resolver.file? = q.resolver.file? := by
    funext path
    apply Option.ext
    intro f
    rw [file?_eq_some_iff (r := p.resolver) hl.normal, file?_eq_some_iff (r := q.resolver) hnormal]
    exact and_congr_left' hfiles.mem_iff
  have htarget : p.resolver.target? = q.resolver.target? := by
    funext importer specifier
    simp only [Resolver.target?, resolver, h.root]
  funext importer specifier
  simp only [resolve?, Resolver.resolve?, hfile, htarget]

theorem alike_of_relists (h : p.Relists q) (hl : p.Listed) : p.Alike q where
  here := h.here
  root := h.root
  files := perm_files h hl
  exportsOf := by
    funext f
    rw [exportsOf, exportsOf, lookup_eq_of_perm h.exports hl.exports]
  importsOf := by
    funext f
    rw [importsOf, importsOf, lookup_eq_of_perm h.imports hl.imports]
  declarationsOf := by
    funext f
    rw [declarationsOf, declarationsOf, lookup_eq_of_perm h.declarations hl.declarations]
  resolve? := resolve?_eq h hl

namespace Alike

variable (h : p.Alike q)
include h

theorem relative : p.relative = q.relative := by
  funext f
  simp only [Project.relative, h.here, h.root]

theorem targets : p.targets = q.targets := by
  funext f
  simp only [Project.targets, h.importsOf, h.exportsOf, h.resolve?]

theorem exportedNames : p.exportedNames = q.exportedNames := by
  funext f
  rw [Project.exportedNames, Project.exportedNames, h.exportsOf]

theorem kindOf? : p.kindOf? = q.kindOf? := by
  funext f n
  simp only [Project.kindOf?, Project.findExport?, h.exportsOf, h.declarationsOf]

theorem links : p.links.Perm q.links := by
  simp only [Project.links, h.importsOf, h.resolve?]
  exact h.files.flatMap_right _

theorem uses : p.uses.Perm q.uses := by
  refine (h.links.map _).append ?_
  simp only [h.exportsOf, h.resolve?]
  exact h.files.flatMap_right _

theorem mem_usedNames_iff : name ∈ p.usedNames file ↔ name ∈ q.usedNames file :=
  ((h.uses.filter _).flatMap_right _).mem_iff

theorem provides : Rule.provides p = Rule.provides q := by
  funext f n
  simp only [Rule.provides, exportsStar, h.exportedNames]

theorem unmet : (Rule.unmet p).Perm (Rule.unmet q) := by
  simp only [Rule.unmet, h.provides]
  exact h.links.flatMap_right _

theorem missingExport? : Rule.missingExport? p = Rule.missingExport? q := by
  funext w
  simp only [Rule.missingExport?, h.declarationsOf]

theorem mem_importersOf_iff (m : Rule.Missing) (f : String) :
    f ∈ Rule.importersOf p m ↔ f ∈ Rule.importersOf q m := by
  simp only [Rule.importersOf, List.mem_eraseDups, h.missingExport?]
  exact ((h.unmet.filter _).map _).mem_iff

theorem isTypeExport : Rule.isTypeExport p = Rule.isTypeExport q := by
  funext f e
  simp only [Rule.isTypeExport, h.resolve?, h.kindOf?]

theorem plainTypeExports (c : Rule.Context) :
    Rule.plainTypeExports c p = Rule.plainTypeExports c q := by
  funext f
  simp only [Rule.plainTypeExports, h.exportsOf, h.isTypeExport]

theorem plainTypeImports (c : Rule.Context) :
    Rule.plainTypeImports c p = Rule.plainTypeImports c q := by
  funext l
  simp only [Rule.plainTypeImports, h.kindOf?]

/-- The names that are taken from a file come in another order, but the same ones are unused. -/
theorem unusedIn (c : Rule.Context) : Rule.unusedIn c p = Rule.unusedIn c q := by
  funext f
  have hused (n : String) : (p.usedNames f).contains n = (q.usedNames f).contains n := by
    rw [Bool.eq_iff_iff, List.contains_iff_mem, List.contains_iff_mem, h.mem_usedNames_iff]
  simp only [Rule.unusedIn, hused, h.exportsOf]

theorem crossed? (markers : List String) : Rule.crossed? p markers = Rule.crossed? q markers := by
  funext l
  simp only [Rule.crossed?, h.relative]

/-- The edges between files are the same. -/
theorem next : p.graph.next = q.graph.next := by
  funext f
  simp only [Graph.next, graph, lookup_map_key, h.targets, h.files.mem_iff]

end Alike

end Project

end ExportLint
