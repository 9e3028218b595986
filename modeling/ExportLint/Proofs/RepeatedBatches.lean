import ExportLint.Proofs.BatchFiles
import ExportLint.Proofs.FileCopies
import ExportLint.Proofs.RepeatedEdits

/-!
# Batches of edits that say the same

In a batch, edits that are the same in everything are made once. Edits of one line that say the same
but come from different issues are not: they do not conflict, so both of them are applied.
-/
namespace ExportLint.Fix

open Disk

variable {d d' : Disk} {now : Moment} {c : Config} {o : Options} {file : String}
  {lines : List String} {edits skipped : List Edit}

/-- The backup of a file is made, if backups are asked for. -/
def BacksUp (d : Disk) (now : Moment) (c : Config) (o : Options) (file : String) : Prop :=
  o.createBackup.getD c.fixing.createBackup = true → ∃ made t copied,
    d.makeDirectories (backupDirectory c o.backupDirectory now) = .ok made ∧
      backUp made c.rootPath (backupDirectory c o.backupDirectory now) (Path.parse file) =
        (.ok t, copied)

theorem conflictsWith_eq_false (h : Agree lines edits) {e : Edit} (he : e ∈ edits) :
    conflictsWith edits e = false := by
  rw [conflictsWith, List.any_eq_false]
  intro x hx hc
  simp only [conflict, Bool.and_eq_true, beq_iff_eq, bne_iff_ne] at hc
  obtain ⟨⟨⟨⟨⟨hek, hxk⟩, hl⟩, -⟩, hlx⟩, ht⟩ := hc
  exact ht (h.text e he x hx ⟨hek, hl⟩ ⟨hxk, hlx ▸ hl⟩ hlx)

theorem readLines_of_readBytes_eq {p : String} (h : d.readLines p = .ok lines)
    (hb : d'.readBytes p = d.readBytes p) : d'.readLines p = .ok lines := by
  rw [Disk.readLines, hb]
  exact h

/-- A file whose backup is made is edited after that. -/
theorem editFile_of_backUp {directory : Path} {root t : String} {made copied : Disk}
    (hr : made.readLines (Path.parse file).text = .ok lines)
    (hb : backUp made root directory (Path.parse file) = (.ok t, copied)) :
    editFile made root (some directory) file edits =
      editLines copied (Path.parse file).text lines (some t) edits := by
  delta editFile
  dsimp only
  rw [hr]
  dsimp only
  rw [hb]

/-- The edits of an ordinary file that agree are applied to its lines in one go, without
repetitions. -/
theorem applyAll_of_agree (skipped : List Edit)
    (hr : d.readLines (Path.parse file).text = .ok lines)
    (ho : d.IsOrdinary (Path.parse file).text) (hf : ∀ e ∈ edits, e.file = file)
    (hg : Agree lines edits.eraseDups) (hb : BacksUp d now c o file) :
    ∃ before backup directory, before.IsOrdinary (Path.parse file).text ∧
      applyAll d now c o edits skipped =
        (.ofResults (editLines before (Path.parse file).text lines backup edits.eraseDups).1 []
            skipped directory false,
          (editLines before (Path.parse file).text lines backup edits.eraseDups).2) := by
  obtain ⟨bytes, hopen⟩ := ho
  have hbytes := readBytes_of_openFile hopen
  have hfiles : ∀ e ∈ edits.eraseDups, e.file = file := fun e he => hf e (List.mem_eraseDups.1 he)
  delta applyAll
  generalize edits.eraseDups = unique at hg hfiles
  have hnone : unique.filter (conflictsWith unique) = [] :=
    List.filter_eq_nil_iff.2 fun e he => by simp [conflictsWith_eq_false hg he]
  have hall : (unique.filter fun e => !conflictsWith unique e) = unique :=
    List.filter_eq_self.2 fun e he => by simp [conflictsWith_eq_false hg he]
  dsimp only
  rw [hnone, hall, List.map_nil]
  by_cases hne : unique = []
  · refine ⟨d, none, none, ⟨bytes, hopen⟩, ?_⟩
    rw [hne, editLines_of_isOrdinary ⟨bytes, hopen⟩]
    simp [byFile, editFiles, outcomesOf, applyEdits, runOrder]
  · rw [byFile_of_one_file hne hfiles]
    by_cases hbk : o.createBackup.getD c.fixing.createBackup = true
    · obtain ⟨made, t, copied, hm, hcopied⟩ := hb hbk
      have hmade := (addsDirectories_of_makeDirectories hm).openFile hopen
      have hread := readBytes_of_openFile hmade
      obtain ⟨-, hcopy⟩ := backUp_ok hread hcopied
      refine ⟨copied, some t, some (backupDirectory c o.backupDirectory now).text,
        ⟨bytes, hcopy.openFile_source hmade⟩, ?_⟩
      have hlines := readLines_of_readBytes_eq hr (hread.trans hbytes.symm)
      rw [hbk, hm]
      dsimp only [editFiles]
      rw [editFile_of_backUp hlines hcopied]
      simp
    · refine ⟨d, none, none, ⟨bytes, hopen⟩, ?_⟩
      rw [Bool.not_eq_true] at hbk
      rw [hbk]
      dsimp only [editFiles]
      rw [editFile_of_readLines hr]
      simp

/-- Outcomes report every edit that is aimed at a line as a success, and the lines are each changed
once. -/
structure ReportsOnce (lines : List String) (edits : List Edit) (os : List Outcome)
    (final : List String) : Prop where
  success : ∀ r ∈ os, Aimed r.edit → r.success = true
  once : MadeOnce lines edits final

theorem success_editLines_iff {p : String} (ho : d.IsOrdinary p) (backup : Option String) :
    (∀ r ∈ (editLines d p lines backup edits).1, Aimed r.edit → r.success = true) ↔
      AllMade lines edits := by
  rw [editLines_of_isOrdinary ho]
  simp only [outcomesOf, List.forall_mem_map, AllMade, Option.isNone_iff_eq_none]

/-- Edits that agree are reported and made once exactly if they can be repeated. -/
theorem reportsOnce_editLines_iff {p : String} (ho : d.IsOrdinary p) (backup : Option String)
    (hg : Agree lines edits) (hd : edits.Nodup) :
    (Repeatable edits → ReportsOnce lines edits (editLines d p lines backup edits).1
        (applyEdits lines edits).2) ∧
      (RemoveAlike edits → ReportsOnce lines edits (editLines d p lines backup edits).1
        (applyEdits lines edits).2 → Repeatable edits) := by
  constructor
  · intro hrep
    obtain ⟨final, ha, hm⟩ := hg.applyEdits hd hrep
    refine ⟨(success_editLines_iff ho backup).2 fun x hx haim => ?_, by rwa [ha]⟩
    rw [ha] at hx
    obtain ⟨e, he, rfl⟩ := List.mem_map.1 hx
    exact faultOn_eq_none_iff.2 (hg.suits he haim)
  · intro hl h
    exact ((success_editLines_iff ho backup).1 h.success).repeatable hg hl h.once

/-- A batch of edits of one ordinary file that agree on its lines. Repetitions apart, every edit has an
outcome, and none conflicts with another one. If edits of one line are one edit, or leave the line
as it is, then all of them are reported as successes and the line is changed once. Otherwise some
of them fail, or another line goes. -/
theorem agreeing_edits_made_once {batch : Batch}
    (h : applyAll d now c o edits skipped = (batch, d'))
    (hr : d.readLines (Path.parse file).text = .ok lines)
    (ho : d.IsOrdinary (Path.parse file).text) (hf : ∀ e ∈ edits, e.file = file)
    (hg : Agree lines edits) (hb : BacksUp d now c o file) :
    let unique := edits.eraseDups
    let final := (applyEdits lines unique).2
    batch.conflicts = [] ∧ batch.results.map (·.edit) = unique ∧
      ((∃ r ∈ batch.results, r.success = true) →
        d'.readBytes (Path.parse file).text = .ok (bytesOf final)) ∧
      (Repeatable edits → ReportsOnce lines unique batch.results final) ∧
      (RemoveAlike edits → ReportsOnce lines unique batch.results final → Repeatable edits) := by
  intro unique final
  have hmem {e : Edit} : e ∈ unique ↔ e ∈ edits := List.mem_eraseDups
  have hg' : Agree lines unique :=
    ⟨fun e he => hg.current e (hmem.1 he), fun a ha b hb => hg.text a (hmem.1 ha) b (hmem.1 hb)⟩
  obtain ⟨before, backup, directory, hbefore, happly⟩ :=
    applyAll_of_agree skipped hr ho hf hg' hb
  rw [h] at happly
  cases happly
  have hiff := reportsOnce_editLines_iff hbefore backup hg' (nodup_eraseDups edits)
  have hrep : Repeatable unique ↔ Repeatable edits := by
    simp only [Repeatable, hmem]
  have halike : RemoveAlike unique ↔ RemoveAlike edits := by
    simp only [RemoveAlike, hmem]
  rw [hrep, halike] at hiff
  refine ⟨rfl, map_edit_editLines _ _ _ _ _, ?_, hiff⟩
  rintro ⟨r, hr', hs⟩
  simp only [Batch.ofResults] at hr'
  rw [editLines_of_isOrdinary hbefore] at hr' ⊢
  obtain ⟨x, hx, rfl⟩ := List.mem_map.1 hr'
  rw [if_pos (List.any_eq_true.2 ⟨x, hx, hs⟩)]
  obtain ⟨bytes, hopen⟩ := hbefore
  exact readBytes_of_openFile (writes_put hopen _).openFile

/-- A file with one line. -/
def clause : Disk where
  here := ["work"]
  entries := [(["work", "a.ts"], .file (.ordinary (bytesOf ["export { A };"])))]

/-- The same change of that line, for two issues. -/
def twinEdits : List Edit :=
  ["EXP-0001", "EXP-0002"].map fun issue =>
    { kind := .format, file := "a.ts", line := some 1, expected := some "export { A };",
      text := "export type { A };", description := "", issue := some issue }

/-- Both of them applied, without backups. -/
def twinRun : Batch × Disk :=
  applyAll clause ⟨2024, 1, 2, 3, 4, 5, 0, some 0⟩
    { rootPath := "proj", scan := .standard, conventions := .standard }
    { createBackup := some false } twinEdits []

/-- Both have an outcome and none conflicts, but one of them fails or another line goes. -/
theorem twinEdits_not_both_made :
    twinRun.1.conflicts = [] ∧ twinRun.1.results.map (·.edit) = twinEdits ∧
      ¬ReportsOnce ["export { A };"] twinEdits.eraseDups twinRun.1.results
        (applyEdits ["export { A };"] twinEdits.eraseDups).2 := by
  have hr : clause.readLines (Path.parse "a.ts").text = .ok ["export { A };"] := by
    decide +kernel
  have hg : Agree ["export { A };"] twinEdits := by
    refine ⟨fun e he _ n hn => ?_, by unfold Aimed; decide⟩
    obtain ⟨issue, -, rfl⟩ := List.mem_map.1 he
    cases hn
    exact ⟨by decide, _, rfl, rfl⟩
  obtain ⟨hconf, hres, -, -, honly⟩ := agreeing_edits_made_once (Prod.eta twinRun).symm hr
    ⟨_, rfl⟩ (by decide) hg fun hb => by cases hb
  refine ⟨hconf, hres.trans (by decide), fun h => ?_⟩
  have hrep := honly (by unfold RemoveAlike Aimed; decide) h
  revert hrep
  unfold Repeatable Aimed
  decide

end ExportLint.Fix
