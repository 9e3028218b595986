import ExportLint.Proofs.BatchFiles
import ExportLint.Proofs.FileCopies
import ExportLint.Proofs.ProposedEdits

/-!
# What becomes of the edits of a batch

A batch takes the edits of all files together, sets aside the risky ones, drops repetitions and
those that conflict, and sorts the rest by their files. On the way no edit is lost and none is
counted twice. What is not made has no part in what the batch leaves on the disk: the edits with
results would have done the same by themselves.
-/
namespace ExportLint.Fix

variable {d : Disk} {now : Moment} {c : Config} {o : Options} {edits skipped : List Edit}

/-- The edits without repetitions that conflict with another one. -/
def conflicting (edits : List Edit) : List Edit :=
  edits.eraseDups.filter (conflictsWith edits.eraseDups)

/-- The edits without repetitions that conflict with none. -/
def applicable (edits : List Edit) : List Edit :=
  edits.eraseDups.filter fun e => !conflictsWith edits.eraseDups e

/-- Edit files, with backups if they are asked for. The directory for backups is given if it could
be made. -/
def applyFiles (d : Disk) (now : Moment) (c : Config) (o : Options)
    (files : List (String × List Edit)) : List Outcome × Option String × Disk :=
  if (o.createBackup.getD c.fixing.createBackup) && !files.isEmpty then
    let directory := backupDirectory c o.backupDirectory now
    match d.makeDirectories directory with
    | .error e => (files.flatMap fun f => failed f.2 ("Backup failed: " ++ e.message) none, none, d)
    | .ok made =>
      let (results, d') := editFiles made c.rootPath (some directory) files
      (results, some directory.text, d')
  else
    let (results, d') := editFiles d c.rootPath none files
    (results, none, d')

/-- Edits that conflict are reported, and the files of the others are edited. -/
theorem applyAll_eq (d : Disk) (now : Moment) (c : Config) (o : Options)
    (edits skipped : List Edit) :
    applyAll d now c o edits skipped =
      (.ofResults (applyFiles d now c o (byFile (applicable edits))).1
          ((conflicting edits).map conflictOutcome) skipped
          (applyFiles d now c o (byFile (applicable edits))).2.1 false,
        (applyFiles d now c o (byFile (applicable edits))).2.2) := by
  have happlicable : (edits.eraseDups.filter fun e => !conflictsWith edits.eraseDups e) =
      applicable edits := rfl
  have hconflicting : edits.eraseDups.filter (conflictsWith edits.eraseDups) =
      conflicting edits := rfl
  delta applyAll
  dsimp only
  rw [happlicable, hconflicting]
  generalize byFile (applicable edits) = files
  simp only [applyFiles]
  split
  · generalize d.makeDirectories (backupDirectory c o.backupDirectory now) = made
    cases made <;> rfl
  · rfl

theorem map_edit_editFile (d : Disk) (root : String) (directory : Option Path) (file : String)
    (edits : List Edit) : (editFile d root directory file edits).1.map (·.edit) = edits := by
  delta editFile
  dsimp only
  split
  · exact map_edit_failed _ _ _
  · split
    · exact map_edit_editLines _ _ _ _ _
    · split
      · exact map_edit_failed _ _ _
      · exact map_edit_editLines _ _ _ _ _

/-- Every edit of some files has one outcome. -/
theorem map_edit_editFiles (d : Disk) (root : String) (directory : Option Path)
    (files : List (String × List Edit)) :
    (editFiles d root directory files).1.map (·.edit) = files.flatMap (·.2) := by
  induction files generalizing d with
  | nil => rfl
  | cons g rest ih =>
    simp only [editFiles, List.map_append, map_edit_editFile, ih, List.flatMap_cons]

theorem map_edit_applyFiles (d : Disk) (now : Moment) (c : Config) (o : Options)
    (files : List (String × List Edit)) :
    (applyFiles d now c o files).1.map (·.edit) = files.flatMap (·.2) := by
  simp only [applyFiles]
  split
  · split
    · simp only [List.map_flatMap, map_edit_failed]
    · exact map_edit_editFiles _ _ _ _
  · exact map_edit_editFiles _ _ _ _

/-- The edits of a batch in the order of its results: file by file. -/
def inFileOrder (edits : List Edit) : List Edit := (byFile edits).flatMap (·.2)

theorem inFileOrder_eq (edits : List Edit) :
    inFileOrder edits =
      (edits.map (·.file)).eraseDups.flatMap fun f => edits.filter fun e => e.file == f := by
  rw [inFileOrder, byFile, List.flatMap_map]

theorem perm_inFileOrder (edits : List Edit) : (inFileOrder edits).Perm edits := by
  rw [inFileOrder_eq]
  exact perm_flatMap_filter (nodup_eraseDups _) fun e he =>
    List.mem_eraseDups.2 (List.mem_map_of_mem he)

/-- Edits that are sorted by their files already stay in their order. -/
theorem byFile_inFileOrder (edits : List Edit) : byFile (inFileOrder edits) = byFile edits := by
  have hnodup := nodup_eraseDups (edits.map (·.file))
  have hfiles : ((inFileOrder edits).map (·.file)).eraseDups = (edits.map (·.file)).eraseDups := by
    have hown : ∀ f ∈ (edits.map (·.file)).eraseDups,
        ∀ x ∈ (edits.filter fun e => e.file == f).map (·.file), x = f := by
      intro f _ x hx
      obtain ⟨e, he, rfl⟩ := List.mem_map.1 hx
      simpa using (List.mem_filter.1 he).2
    have hkeep : (((edits.map (·.file)).eraseDups.filter fun f =>
        !((edits.filter fun e => e.file == f).map (·.file)).isEmpty)) =
          (edits.map (·.file)).eraseDups := by
      rw [List.filter_eq_self]
      intro f hf
      obtain ⟨e, he, rfl⟩ := List.mem_map.1 (List.mem_eraseDups.1 hf)
      simpa using ⟨e, he, rfl⟩
    rw [inFileOrder_eq, List.map_flatMap, eraseDups_flatMap hown, hkeep,
      eraseDups_eq_self hnodup]
  rw [byFile, byFile, hfiles]
  apply List.map_congr_left
  intro f hf
  rw [inFileOrder_eq, filter_flatMap_filter hnodup hf]

theorem mem_applicable_iff {e : Edit} :
    e ∈ applicable edits ↔ e ∈ edits ∧ conflictsWith edits.eraseDups e = false := by
  simp only [applicable, List.mem_filter, List.mem_eraseDups, Bool.not_eq_true']

/-- Edits that were applicable among others are so by themselves. -/
theorem applicable_eq_self {es : List Edit} (hn : es.Nodup)
    (hs : ∀ e ∈ es, e ∈ applicable edits) : applicable es = es := by
  rw [applicable, eraseDups_eq_self hn, List.filter_eq_self]
  intro e he
  have hfree := (mem_applicable_iff.1 (hs e he)).2
  rw [conflictsWith, List.any_eq_false] at hfree
  rw [Bool.not_eq_true', conflictsWith, List.any_eq_false]
  intro x hx
  exact hfree x (List.mem_eraseDups.2 (mem_applicable_iff.1 (hs x hx)).1)

theorem map_edit_results (d : Disk) (now : Moment) (c : Config) (o : Options)
    (edits skipped : List Edit) :
    (applyAll d now c o edits skipped).1.results.map (·.edit) = inFileOrder (applicable edits) := by
  rw [applyAll_eq]
  exact map_edit_applyFiles _ _ _ _ _

/-- The edits with results do by themselves what all edits did. -/
theorem applyAll_results (d : Disk) (now : Moment) (c : Config) (o : Options)
    (edits skipped skipped' : List Edit) :
    (applyAll d now c o ((applyAll d now c o edits skipped).1.results.map (·.edit)) skipped').2 =
      (applyAll d now c o edits skipped).2 := by
  have hperm := perm_inFileOrder (applicable edits)
  have hnodup : (inFileOrder (applicable edits)).Nodup :=
    hperm.nodup_iff.2 ((nodup_eraseDups edits).filter _)
  have hself := applicable_eq_self hnodup fun e he => hperm.mem_iff.1 he
  rw [map_edit_results, applyAll_eq, applyAll_eq, hself, byFile_inFileOrder]

theorem map_edit_conflicts (d : Disk) (now : Moment) (c : Config) (o : Options)
    (edits skipped : List Edit) :
    (applyAll d now c o edits skipped).1.conflicts.map (·.edit) = conflicting edits := by
  rw [applyAll_eq]
  have hedit : ((·.edit) : Outcome → Edit) ∘ conflictOutcome = id := rfl
  simp only [Batch.ofResults, List.map_map, hedit, List.map_id]

/-- Results and conflicts share out the edits of a batch. -/
theorem perm_outcomes (d : Disk) (now : Moment) (c : Config) (o : Options)
    (edits skipped : List Edit) :
    (((applyAll d now c o edits skipped).1.results ++
      (applyAll d now c o edits skipped).1.conflicts).map (·.edit)).Perm edits.eraseDups := by
  rw [List.map_append, map_edit_results, map_edit_conflicts]
  refine ((perm_inFileOrder _).append_right _).trans (List.perm_append_comm.trans ?_)
  exact List.filter_append_perm _ _

/-- An edit is riskier than is allowed. -/
def isRisky (c : Config) (o : Options) (e : Edit) : Bool :=
  (o.maxRisk.getD c.fixing.maxRisk).rank < e.risk.rank

/-- Two edits replace the same line of a file by different texts. -/
def Clash (a b : Edit) : Prop :=
  a.kind.replacesLine = true ∧ b.kind.replacesLine = true ∧ a.file = b.file ∧ a.line = b.line ∧
    a.text ≠ b.text

theorem conflict_iff {a b : Edit} (h : a.line.isSome = true) :
    conflict a b = true ↔ Clash a b := by
  simp only [conflict, Clash, Bool.and_eq_true, beq_iff_eq, bne_iff_ne, h, and_true, and_assoc]

/-- A batch accounts for some edits: the risky ones are skipped, and every other one has one
outcome, which is a conflict exactly if it clashes with one of them. -/
structure Accounts (c : Config) (o : Options) (edits : List Edit) (b : Batch) : Prop where
  skipped : b.skipped.eraseDups = edits.filter (isRisky c o)
  once : ∀ e ∈ edits, isRisky c o e = false →
    ((b.results ++ b.conflicts).map (·.edit)).count e = 1
  own : ∀ r ∈ b.results ++ b.conflicts, r.edit ∈ edits ∧ isRisky c o r.edit = false
  conflict : ∀ e ∈ edits, isRisky c o e = false → (e ∈ b.conflicts.map (·.edit) ↔
    ∃ x ∈ edits, isRisky c o x = false ∧ Clash e x)
  sum : b.total = b.successful + b.failed
  total : b.total = (edits.filter fun e => !isRisky c o e).length

/-- A batch accounts for the edits that are proposed, if they all have a line. -/
theorem accounts_applyAll (d : Disk) (now : Moment) (c : Config) (o : Options)
    {proposed : List Edit} (hl : ∀ e ∈ proposed, e.line.isSome = true) :
    Accounts c o proposed.eraseDups (applyAll d now c o
      (proposed.filter fun e => !isRisky c o e) (proposed.filter (isRisky c o))).1 := by
  have hallowed : (proposed.filter fun e => !isRisky c o e).eraseDups =
      proposed.eraseDups.filter fun e => !isRisky c o e := eraseDups_filter _ _
  have hperm := perm_outcomes d now c o (proposed.filter fun e => !isRisky c o e)
    (proposed.filter (isRisky c o))
  have hmem {e : Edit} : e ∈ (proposed.filter fun e => !isRisky c o e).eraseDups ↔
      e ∈ proposed.eraseDups ∧ isRisky c o e = false := by
    rw [hallowed, List.mem_filter, Bool.not_eq_true']
  refine ⟨?_, ?_, ?_, ?_, ?_, ?_⟩
  · rw [applyAll_eq]
    exact eraseDups_filter _ _
  · intro e he hr
    rw [hperm.count_eq, (nodup_eraseDups _).count, if_pos (hmem.2 ⟨he, hr⟩)]
  · intro r hr
    exact hmem.1 (hperm.mem_iff.1 (List.mem_map_of_mem hr))
  · intro e he hr
    have hline := hl e (List.mem_eraseDups.1 he)
    rw [map_edit_conflicts, conflicting, List.mem_filter, and_iff_right (hmem.2 ⟨he, hr⟩),
      conflictsWith, List.any_eq_true]
    simp only [hmem, conflict_iff hline, and_assoc]
  · rw [applyAll_eq, Batch.ofResults_total]
  · have hlen := hperm.length_eq
    rw [List.length_map, List.length_append, hallowed] at hlen
    rw [applyAll_eq] at hlen ⊢
    simp only [Batch.ofResults] at hlen ⊢
    omega

/-- Make the edits that are allowed, or take them for successes in a dry run. -/
def makeAllowed (d : Disk) (now : Moment) (c : Config) (o : Options) (proposed : List Edit) :
    Batch × Disk :=
  let allowed := proposed.filter fun e => !isRisky c o e
  let skipped := proposed.filter (isRisky c o)
  if o.dryRun then
    (.ofResults (allowed.map fun e => ⟨true, e, none, none⟩) [] skipped none true, d)
  else applyAll d now c o allowed skipped

/-- A run for whose issues there are edits makes those that are allowed. -/
theorem run_eq (now : Moment) {issues : List (String × List Issue)} {groups : List (List Edit)}
    (h : (issues.mapM fun f => Fix.edits d c.conventions o.categories f.1 f.2) = .ok groups) :
    run d now c o issues = .ok (makeAllowed d now c o groups.flatten) := by
  rw [run]
  change (issues.mapM (fun f => Fix.edits d c.conventions o.categories f.1 f.2) >>= _) = _
  rw [h, makeAllowed]
  by_cases hdry : o.dryRun = true <;> simp only [hdry] <;> rfl

/-- Issues of an analysis are fixed without failing, and the batch accounts for their edits. The
edits with results leave the same disk if they are made by themselves. -/
theorem analyzed_edits_accounted {issues : List (String × List Issue)}
    (h : ∀ f ∈ issues, ∀ i ∈ f.2, i.Analyzed) (hdry : o.dryRun = false) (d : Disk)
    (now : Moment) (c : Config) :
    ∃ groups, (issues.mapM fun f => Fix.edits d c.conventions o.categories f.1 f.2) =
        .ok groups ∧
      ∃ b d', run d now c o issues = .ok (b, d') ∧ Accounts c o groups.flatten.eraseDups b ∧
        ∀ skipped, (applyAll d now c o (b.results.map (·.edit)) skipped).2 = d' := by
  obtain ⟨groups, hgroups⟩ := exists_edits d c.conventions o.categories h
  have hline : ∀ e ∈ groups.flatten, e.line.isSome = true := by
    intro e he
    obtain ⟨group, hg, he⟩ := List.mem_flatten.1 he
    obtain ⟨f, -, hf⟩ := (mem_of_mapM_eq_ok hgroups).1 hg
    obtain ⟨-, lines, -, i, -, hfor⟩ := exists_editFor hf he
    rcases hfor.aim with ⟨-, hl⟩ | ⟨-, n, x, hl, -⟩ <;> rw [hl] <;> rfl
  refine ⟨groups, hgroups, _, _, ?_, accounts_applyAll d now c o hline, fun skipped =>
    applyAll_results _ _ _ _ _ _ _⟩
  rw [run_eq now hgroups, makeAllowed, hdry]
  rfl

/-- A name that two clauses export, both of them spaced unevenly. -/
def spacedExports : List Export :=
  [1, 2].map fun line =>
    { file := "a.ts", name := "a", form := .named, shape := .clause,
      location := ⟨"a.ts", line, 9, line, 10⟩ }

def spacedConfig : Config where
  rootPath := "proj"
  scan := .standard
  rules := [{ name := "no-duplicate-exports" }, { name := "no-unused-exports" }]
  conventions := .standard

/-- What the rules say about them. -/
def spacedIssues : List (String × List Issue) :=
  let project : Project := ⟨["work"], "proj", [("a.ts", spacedExports)], [], []⟩
  [("a.ts", (RuleTable.standard.check spacedConfig project).toOption.getD [])]

def spacedDisk : Disk where
  here := ["work"]
  entries := [(["work", "a.ts"], .file (.ordinary (bytesOf ["export {a};", "export {a};"])))]

theorem analyzed_of_mem_spacedIssues : ∀ f ∈ spacedIssues, ∀ i ∈ f.2, i.Analyzed := by
  intro f hf i hi
  obtain rfl := List.mem_singleton.1 hf
  cases h : RuleTable.standard.check spacedConfig
      ⟨["work"], "proj", [("a.ts", spacedExports)], [], []⟩ with
  | error e => simp [h, Except.toOption] at hi
  | ok is => exact .ofProject h (by simpa [h, Except.toOption] using hi)

/-- The second clause is to be dropped as a duplicate and tidied as unused. Of the four issues three
lead to edits, and all of them are accounted for. -/
theorem spacedIssues_accounted :
    spacedIssues.map (·.2.length) = [4] ∧
      ∃ groups, (spacedIssues.mapM fun f =>
          Fix.edits spacedDisk spacedConfig.conventions none f.1 f.2) = .ok groups ∧
        groups.map (·.length) = [3] ∧
        ∃ b d', run spacedDisk ⟨2024, 1, 2, 3, 4, 5, 0, some 0⟩ spacedConfig {} spacedIssues =
            .ok (b, d') ∧
          Accounts spacedConfig {} groups.flatten.eraseDups b ∧
          ∀ skipped, (applyAll spacedDisk ⟨2024, 1, 2, 3, 4, 5, 0, some 0⟩ spacedConfig {}
            (b.results.map (·.edit)) skipped).2 = d' := by
  have hcount : (spacedIssues.mapM fun f =>
      Fix.edits spacedDisk spacedConfig.conventions none f.1 f.2).map
        (·.map (·.length)) = .ok [3] := by
    decide +kernel
  obtain ⟨groups, hgroups, h⟩ := analyzed_edits_accounted (o := {}) analyzed_of_mem_spacedIssues
    rfl spacedDisk ⟨2024, 1, 2, 3, 4, 5, 0, some 0⟩ spacedConfig
  refine ⟨by decide +kernel, groups, hgroups, ?_, h⟩
  rw [hgroups] at hcount
  exact Except.ok.inj hcount

end ExportLint.Fix
