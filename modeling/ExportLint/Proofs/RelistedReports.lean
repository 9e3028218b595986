import ExportLint.Proofs.Components
import ExportLint.Proofs.IssueNumbers
import ExportLint.Proofs.RelistedProjects
import ExportLint.Proofs.UnusedExports
import ExportLint.Rule.Table

/-!
# Reports on the same files in another order

A report lists its findings in the order of the files. Two listings of the same files lead to the
same findings, but for that order and for the texts that follow it. The way around a cycle depends
on where it starts, so a cycle is known by its files: the component that they form.
-/
namespace ExportLint

/-- What a finding is known by, whatever the order of the files. -/
structure FindingKey where
  rule : Option String
  kind : IssueKind
  severity : Severity
  file : String
  location : Option Location
  exportName : Option String
  autoFixable : Bool
  related : Finset String

namespace Finding

def key (x : Finding) : FindingKey where
  rule := x.rule
  kind := x.kind
  severity := x.severity
  file := x.file
  location := x.location
  exportName := x.exportName?
  autoFixable := x.autoFixable
  related := x.relatedFiles.toFinset

/-- A finding is one on a cycle. -/
def isCycle (x : Finding) : Bool := x.rule == some "no-circular-dependencies"

end Finding

variable {fs gs fs' gs' : List Finding} {α : Type}

/-- The sets of files that some findings report as cycles. -/
def cycleSets (fs : List Finding) : Set (Finset String) :=
  {s | ∃ x ∈ fs, x.isCycle = true ∧ x.relatedFiles.toFinset = s}

/-- Findings are the same up to order, and cycles are so as sets of files. -/
structure SameFindings (fs gs : List Finding) : Prop where
  outside : ((fs.filter fun x => !x.isCycle).map (·.key)).Perm
    ((gs.filter fun x => !x.isCycle).map (·.key))
  cycles : cycleSets fs = cycleSets gs

theorem mem_cycleSets_iff {s : Finset String} : s ∈ cycleSets fs ↔
    ∃ k ∈ fs.map (·.key), k.rule = some "no-circular-dependencies" ∧ k.related = s := by
  simp [cycleSets, Finding.isCycle, Finding.key]

theorem cycleSets_append (fs gs : List Finding) :
    cycleSets (fs ++ gs) = cycleSets fs ∪ cycleSets gs := by
  ext s
  simp only [cycleSets, List.mem_append, or_and_right, exists_or, Set.mem_ofPred_eq, Set.mem_union]

namespace SameFindings

theorem of_keys (h : (fs.map (·.key)).Perm (gs.map (·.key))) : SameFindings fs gs where
  outside := by
    have houtside (xs : List Finding) : (xs.filter fun x => !x.isCycle).map (·.key) =
        (xs.map (·.key)).filter fun k => !(k.rule == some "no-circular-dependencies") := by
      rw [List.filter_map]
      rfl
    rw [houtside, houtside]
    exact h.filter _
  cycles := by
    ext s
    simp only [mem_cycleSets_iff, h.mem_iff]

theorem refl (fs : List Finding) : SameFindings fs fs := of_keys (.refl _)

theorem trans {hs : List Finding} (h : SameFindings fs gs) (h' : SameFindings gs hs) :
    SameFindings fs hs := ⟨h.outside.trans h'.outside, h.cycles.trans h'.cycles⟩

theorem append (h : SameFindings fs gs) (h' : SameFindings fs' gs') :
    SameFindings (fs ++ fs') (gs ++ gs') where
  outside := by
    simp only [List.filter_append, List.map_append]
    exact h.outside.append h'.outside
  cycles := by
    rw [cycleSets_append, cycleSets_append, h.cycles, h'.cycles]

theorem flatMap {xs ys : List α} {f f' : α → List Finding} (hp : xs.Perm ys)
    (h : ∀ x ∈ xs, SameFindings (f x) (f' x)) :
    SameFindings (xs.flatMap f) (ys.flatMap f') := by
  have hsame : SameFindings (xs.flatMap f) (xs.flatMap f') := by
    clear hp
    induction xs with
    | nil => exact refl _
    | cons x xs ih =>
      exact (h x List.mem_cons_self).append (ih fun y hy => h y (List.mem_cons_of_mem x hy))
  exact hsame.trans (of_keys ((hp.flatMap_right f').map _))

end SameFindings

/-- Two attempts at a report: both succeed with related reports, or both fail. -/
inductive Comparable (R : α → α → Prop) : Except Failure α → Except Failure α → Prop where
  | reported {a b : α} (related : R a b) : Comparable R (.ok a) (.ok b)
  | failed {e f : Failure} : Comparable R (.error e) (.error f)

namespace Comparable

theorem refl {R : α → α → Prop} (hR : ∀ a, R a a) (x : Except Failure α) : Comparable R x x := by
  cases x with
  | error e => exact failed
  | ok a => exact reported (hR a)

end Comparable

/-- The findings of a report, none if it fails. -/
def foundBy (x : Rule.Findings) : List Finding := x.toOption.getD []

theorem mapM_eq_ok_map {xs : List α} {f : α → Rule.Findings}
    (h : ∀ x ∈ xs, ∃ fs, f x = .ok fs) : xs.mapM f = .ok (xs.map fun x => foundBy (f x)) := by
  induction xs with
  | nil => rfl
  | cons x xs ih =>
    obtain ⟨fs, hx⟩ := h x List.mem_cons_self
    rw [List.mapM_cons, hx, ih fun y hy => h y (List.mem_cons_of_mem x hy), List.map_cons, hx]
    rfl

theorem exists_mapM_eq_error {xs : List α} {f : α → Rule.Findings} {x : α} (hx : x ∈ xs)
    (h : ∀ fs, f x ≠ .ok fs) : ∃ e, xs.mapM f = .error e := by
  cases hm : xs.mapM f with
  | error e => exact ⟨e, rfl⟩
  | ok bs =>
    obtain ⟨fs, hfs⟩ := exists_of_mapM_eq_ok hm hx
    exact absurd hfs (h fs)

namespace Comparable

variable {R : α → α → Prop} {x y : Except Failure α}

theorem bind {β : Type} {S : β → β → Prop} {f g : α → Except Failure β} (h : Comparable R x y)
    (hf : ∀ a b, R a b → Comparable S (f a) (g b)) : Comparable S (x >>= f) (y >>= g) := by
  cases h with
  | failed => exact failed
  | reported related => exact hf _ _ related

theorem exists_ok_iff (h : Comparable R x y) : (∃ a, x = .ok a) ↔ ∃ b, y = .ok b := by
  cases h <;> simp

/-- Reports on the parts of a whole put together. -/
theorem flatten {xs ys : List α} {f f' : α → Rule.Findings} (hp : xs.Perm ys)
    (h : ∀ x ∈ xs, Comparable SameFindings (f x) (f' x)) :
    Comparable SameFindings (do return (← xs.mapM f).flatten)
      (do return (← ys.mapM f').flatten) := by
  by_cases hall : ∀ x ∈ xs, ∃ fs, f x = .ok fs
  · have hall' : ∀ x ∈ ys, ∃ fs, f' x = .ok fs := fun x hx =>
      (h x (hp.mem_iff.2 hx)).exists_ok_iff.1 (hall x (hp.mem_iff.2 hx))
    rw [mapM_eq_ok_map hall, mapM_eq_ok_map hall']
    refine reported ?_
    simp only [← List.flatMap_def]
    refine SameFindings.flatMap hp fun x hx => ?_
    have hx' := h x hx
    obtain ⟨fs, hfs⟩ := hall x hx
    obtain ⟨gs, hgs⟩ := hall' x (hp.mem_iff.1 hx)
    rw [hfs, hgs] at hx' ⊢
    cases hx' with
    | reported related => exact related
  · obtain ⟨x, hx, hfails⟩ : ∃ x ∈ xs, ¬∃ fs, f x = .ok fs := by simpa using hall
    have hfails' : ¬∃ gs, f' x = .ok gs := fun hgs => hfails ((h x hx).exists_ok_iff.2 hgs)
    obtain ⟨e, he⟩ := exists_mapM_eq_error hx (not_exists.1 hfails)
    obtain ⟨e', he'⟩ := exists_mapM_eq_error (hp.mem_iff.1 hx) (not_exists.1 hfails')
    rw [he, he']
    exact failed

end Comparable

namespace Rule

variable {p q : Project} {k : Context}

theorem comparable_namesAreUnique (h : p.Alike q) :
    Comparable SameFindings (namesAreUnique k p) (namesAreUnique k q) := by
  simp only [namesAreUnique]
  cases k.names "ignoreNames" [] with
  | error e => exact .failed
  | ok ignored =>
    refine .reported (.flatMap h.files fun file _ => .of_keys ?_)
    rw [List.map_filterMap, List.map_filterMap, h.exportsOf]
    refine .of_eq (List.filterMap_congr fun e _ => ?_)
    have hfiles : (filesExporting p (participates ignored (k.flag "ignoreReexports" false))
        e.name).Perm (filesExporting q (participates ignored (k.flag "ignoreReexports" false))
          e.name) := by
      simp only [filesExporting, h.exportsOf]
      exact h.files.filter _
    rw [hfiles.length_eq]
    split
    · rfl
    · simp only [Option.map_some, Finding.key, Finding.exportName?, Context.finding,
        List.toFinset_eq_of_perm _ _ hfiles]

theorem comparable_importsMatchExports (h : p.Alike q) :
    Comparable SameFindings (importsMatchExports k p) (importsMatchExports k q) := by
  have hmismatch : mismatch k p = mismatch k q := by
    funext w
    simp only [mismatch, h.relative]
  refine .reported (.of_keys ?_)
  rw [hmismatch, h.missingExport?]
  exact ((h.unmet.filter _).map _).map _

theorem comparable_importedNamesAreExported (h : p.Alike q) :
    Comparable SameFindings (importedNamesAreExported k p) (importedNamesAreExported k q) := by
  have hmissing : ((unmet p).filterMap (missingExport? p)).eraseDups.Perm
      ((unmet q).filterMap (missingExport? q)).eraseDups := by
    rw [List.perm_ext_iff_of_nodup (nodup_eraseDups _) (nodup_eraseDups _)]
    intro m
    rw [List.mem_eraseDups, List.mem_eraseDups, h.missingExport?]
    exact (h.unmet.filterMap _).mem_iff
  have hkey (m : Missing) : (m.target :: importersOf p m).toFinset =
      (m.target :: importersOf q m).toFinset := by
    ext f
    simp only [List.mem_toFinset, List.mem_cons, h.mem_importersOf_iff]
  refine .reported (.of_keys ?_)
  rw [List.map_map, List.map_map]
  refine (hmissing.map _).trans (.of_eq (List.map_congr_left fun m _ => ?_))
  simp only [Function.comp_apply, Finding.key, Finding.exportName?, Context.finding, hkey]

theorem comparable_typesTravelAsTypes (h : p.Alike q) :
    Comparable SameFindings (typesTravelAsTypes k p) (typesTravelAsTypes k q) := by
  refine .reported (.append ?_ ?_)
  · rw [h.plainTypeExports]
    exact .flatMap h.files fun f _ => .refl _
  · split
    · rw [h.plainTypeImports]
      exact .flatMap h.links fun l _ => .refl _
    · exact .refl _

theorem comparable_exportsAreUsed (h : p.Alike q) :
    Comparable SameFindings (exportsAreUsed k p) (exportsAreUsed k q) := by
  simp only [exportsAreUsed]
  cases k.values "entryPoints" [] with
  | error e => exact .failed
  | ok entryPoints =>
    refine .flatten h.files fun file _ => ?_
    rw [h.relative, h.unusedIn]
    exact .refl SameFindings.refl _

theorem comparable_boundariesAreKept (h : p.Alike q) :
    Comparable SameFindings (boundariesAreKept k p) (boundariesAreKept k q) := by
  simp only [boundariesAreKept]
  cases k.names "internalMarkers" ["internal", "_internal", "private"] with
  | error e => exact .failed
  | ok markers =>
    refine .reported (.of_keys ?_)
    rw [h.crossed?]
    exact (h.links.filterMap _).map _

/-- The cycles that the rule reports are the components of the files with two members or more. -/
theorem mem_cycleSets_filesFormNoCycles {found : List Finding}
    (hk : k.setting.name = "no-circular-dependencies") (h : filesFormNoCycles k p = .ok found)
    (s : Finset String) : s ∈ cycleSets found ↔ 1 < s.card ∧
      ∃ n, (∃ r ∈ p.files, p.graph.Leads r n) ∧ ∀ m, m ∈ s ↔ p.graph.Mutual n m := by
  rw [← Graph.exists_mem_cycles_iff]
  cases h
  simp [cycleSets, Finding.isCycle, Context.finding, hk]

theorem comparable_filesFormNoCycles (h : p.Alike q)
    (hk : k.setting.name = "no-circular-dependencies") :
    Comparable SameFindings (filesFormNoCycles k p) (filesFormNoCycles k q) := by
  have hleads : p.graph.Leads = q.graph.Leads := by
    simp only [Graph.Leads, h.next]
  have hnone {r : Project} {found : List Finding} (hr : filesFormNoCycles k r = .ok found) :
      found.filter (fun x => !x.isCycle) = [] := by
    cases hr
    simp [Finding.isCycle, Context.finding, hk]
  obtain ⟨found, hp⟩ : ∃ found, filesFormNoCycles k p = .ok found := ⟨_, rfl⟩
  obtain ⟨found', hq⟩ : ∃ found, filesFormNoCycles k q = .ok found := ⟨_, rfl⟩
  rw [hp, hq]
  refine .reported ⟨?_, ?_⟩
  · rw [hnone hp, hnone hq]
  · ext s
    rw [mem_cycleSets_filesFormNoCycles hk hp, mem_cycleSets_filesFormNoCycles hk hq]
    simp only [Graph.Mutual, hleads, h.files.mem_iff]

end Rule

namespace RuleTable

open Rule

variable {p q : Project} {c : Config}

/-- A rule runs under its own name. -/
theorem name_of_active? {name : String} {s : RuleSetting} (h : active? c name = some s) :
    s.name = name := by
  simp only [active?] at h
  split at h
  · cases h
    rfl
  · have hfound := List.find?_some (Option.filter_eq_some_iff.1 h).1
    simpa using hfound

theorem comparable_projectFindings (h : p.Alike q) :
    Comparable SameFindings (standard.projectFindings c p) (standard.projectFindings c q) := by
  refine .flatten (.refl _) fun rule hrule => ?_
  obtain ⟨name, r⟩ := rule
  dsimp only
  cases hactive : active? c name with
  | none => exact .refl SameFindings.refl _
  | some s =>
    have hname := name_of_active? hactive
    simp only [standard, List.mem_cons, Prod.mk.injEq, List.not_mem_nil, or_false] at hrule
    rcases hrule with ⟨rfl, rfl⟩ | ⟨rfl, rfl⟩ | ⟨rfl, rfl⟩ | ⟨rfl, rfl⟩ | ⟨rfl, rfl⟩ | ⟨rfl, rfl⟩ |
      ⟨rfl, rfl⟩
    · exact comparable_namesAreUnique h
    · exact comparable_importsMatchExports h
    · exact comparable_importedNamesAreExported h
    · exact comparable_typesTravelAsTypes h
    · exact comparable_exportsAreUsed h
    · exact comparable_filesFormNoCycles h hname
    · exact comparable_boundariesAreKept h

theorem check_eq (t : RuleTable) (c : Config) (p : Project) :
    t.check c p = (do
      let onFiles ← (do return (← p.exports.mapM fun f => t.fileFindings c f.1 f.2).flatten)
      let onProject ← t.projectFindings c p
      return Issue.numbered (onFiles ++ onProject)) := by
  simp only [check, bind_assoc, pure_bind]

/-- A project that lists the same files in another order has the same issues, but for the texts that
follow the order, and the same sets of files form cycles. Both analyses fail or neither does. -/
theorem relisted_issues_alike (h : p.Relists q) (hl : p.Listed) (c : Config) :
    Comparable (fun is js => SameFindings (is.map (·.toFinding)) (js.map (·.toFinding)))
      (standard.check c p) (standard.check c q) := by
  have halike := Project.alike_of_relists h hl
  have hfiles : Comparable SameFindings
      (do return (← p.exports.mapM fun f => standard.fileFindings c f.1 f.2).flatten)
      (do return (← q.exports.mapM fun f => standard.fileFindings c f.1 f.2).flatten) :=
    .flatten h.exports fun f _ => .refl SameFindings.refl _
  have hproject := comparable_projectFindings (c := c) halike
  rw [check_eq, check_eq]
  refine hfiles.bind fun fs gs hfs => hproject.bind fun fs' gs' hfs' => .reported ?_
  rw [Issue.map_toFinding_numbered, Issue.map_toFinding_numbered]
  exact hfs.append hfs'

/-- Two files that export one name, of which one imports it from the other. -/
def namesakeExports (file : String) : String × List Export :=
  (file, [{ file, name := "load", form := .named, location := ⟨file, 1, 1, 1, 20⟩ }])

def loadImport : Import where
  file := "proj/b.ts"
  specifier := "./a"
  names := [{ name := "load" }]
  location := ⟨"proj/b.ts", 2, 1, 2, 30⟩

def namesakeProject (files : List String) : Project where
  here := ["work"]
  root := "proj"
  exports := files.map namesakeExports
  imports := [("proj/b.ts", [loadImport])]

def crossFileConfig : Config where
  rootPath := "proj"
  scan := .standard
  rules := [{ name := "no-global-conflicts" }, { name := "no-unused-exports" },
    { name := "no-circular-dependencies" }]
  conventions := .standard

/-- Either order of the files shows both conflicts and the unused export, in its own order. -/
theorem namesakeProject_alike :
    (namesakeProject ["proj/a.ts", "proj/b.ts"]).Relists
        (namesakeProject ["proj/b.ts", "proj/a.ts"]) ∧
      (namesakeProject ["proj/a.ts", "proj/b.ts"]).Listed ∧
      ∃ is js, standard.check crossFileConfig (namesakeProject ["proj/a.ts", "proj/b.ts"]) =
          .ok is ∧
        standard.check crossFileConfig (namesakeProject ["proj/b.ts", "proj/a.ts"]) = .ok js ∧
        SameFindings (is.map (·.toFinding)) (js.map (·.toFinding)) ∧
        is.map (·.file) = ["proj/a.ts", "proj/b.ts", "proj/b.ts"] ∧
        js.map (·.file) = ["proj/b.ts", "proj/a.ts", "proj/b.ts"] := by
  have hr : (namesakeProject ["proj/a.ts", "proj/b.ts"]).Relists
      (namesakeProject ["proj/b.ts", "proj/a.ts"]) :=
    ⟨rfl, rfl, .swap _ _ _, .refl _, .refl _⟩
  have hl : (namesakeProject ["proj/a.ts", "proj/b.ts"]).Listed :=
    ⟨by decide, by decide, by decide, by decide +kernel⟩
  have hp : (standard.check crossFileConfig (namesakeProject ["proj/a.ts", "proj/b.ts"])).toOption.map
      (·.map (·.file)) = some ["proj/a.ts", "proj/b.ts", "proj/b.ts"] := by decide +kernel
  have hq : (standard.check crossFileConfig (namesakeProject ["proj/b.ts", "proj/a.ts"])).toOption.map
      (·.map (·.file)) = some ["proj/b.ts", "proj/a.ts", "proj/b.ts"] := by decide +kernel
  have halike := relisted_issues_alike hr hl crossFileConfig
  refine ⟨hr, hl, ?_⟩
  generalize standard.check crossFileConfig _ = x at hp halike ⊢
  generalize standard.check crossFileConfig _ = y at hq halike ⊢
  cases halike with
  | failed => cases hp
  | @reported is js related =>
    exact ⟨is, js, rfl, rfl, related, Option.some.inj hp, Option.some.inj hq⟩

end RuleTable

end ExportLint
