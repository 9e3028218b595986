import ExportLint.Audit.Run
import ExportLint.Proofs.BatchAccounts
import ExportLint.Proofs.IssueNumbers
import ExportLint.Proofs.NearestDoubles

/-!
# Issues that were fixed

Every outcome of a batch names the issue that its edit was proposed for, and only fixable issues
lead to edits. Issues of a run have identities of their own, so the issues that an audit reports as
fixed are fixable ones whose edits were all made. What it counts follows from that.
-/
namespace ExportLint

namespace Fix

variable {d d' : Disk} {now : Moment} {c : Config} {o : Options} {b : Batch}
  {file : String} {lines : List String} {i : Issue} {e : Edit}

theorem issue_of_renameEdit {k : Conventions} (h : renameEdit k file lines i = .ok (some e)) :
    e.issue = some i.id := by
  simp only [renameEdit] at h
  split at h
  · obtain ⟨new, -, h⟩ := bind_eq_ok_iff.1 h
    split at h
    · cases h
    · split at h
      · obtain ⟨text, -, h⟩ := bind_eq_ok_iff.1 h
        split at h
        · cases h
        · cases h
          rfl
      · cases h
  · cases h

theorem issue_of_reorderEdit (h : reorderEdit file lines i = some e) : e.issue = some i.id := by
  simp only [reorderEdit, Option.bind_eq_bind, Option.bind_eq_some_iff,
    Option.pure_def, Option.some.injEq] at h
  obtain ⟨at_, -, updated, -, _, -, rfl⟩ := h
  rfl

theorem issue_of_formatEdit (h : formatEdit file lines i = .ok (some e)) :
    e.issue = some i.id := by
  simp only [formatEdit] at h
  split at h
  · cases h
  · split at h
    · simp only [Option.bind_eq_bind, Option.bind_eq_some_iff, Option.pure_def,
        Option.some.injEq, Except.ok.injEq] at h
      obtain ⟨_, -, updated, -, _, -, rfl⟩ := h
      rfl
    · cases h

/-- An edit names the issue that leads to it. -/
theorem issue_of_edit? {k : Conventions} (h : edit? k file lines i = .ok (some e)) :
    e.issue = some i.id := by
  simp only [edit?] at h
  split at h
  · exact issue_of_renameEdit h
  · obtain ⟨at_, -, rfl⟩ := Option.map_eq_some_iff.1 (Except.ok.inj h)
    rfl
  · obtain ⟨name, -, rfl⟩ := Option.map_eq_some_iff.1 (Except.ok.inj h)
    rfl
  · exact issue_of_reorderEdit (Except.ok.inj h)
  · exact issue_of_formatEdit h
  · cases h

/-- An edit is for a fixable issue among some. -/
def ForFixable (is : List Issue) (e : Edit) : Prop :=
  ∃ i ∈ is, i.autoFixable = true ∧ e.issue = some i.id

theorem forFixable_of_edits {categories : Option (List Category)} {is : List Issue}
    {proposed : List Edit} (h : edits d c.conventions categories file is = .ok proposed)
    (he : e ∈ proposed) : ForFixable is e := by
  simp only [edits] at h
  split at h
  · cases h
    cases he
  · split at h
    · rename_i lines hlines
      obtain ⟨found, hfound, h⟩ := bind_eq_ok_iff.1 h
      cases h
      obtain ⟨x, hx, rfl⟩ := List.mem_filterMap.1 he
      obtain ⟨i, hi, hedit⟩ := (mem_of_mapM_eq_ok hfound).1 hx
      obtain ⟨hi, hchosen⟩ := List.mem_filter.1 hi
      rw [isChosen, Bool.and_eq_true] at hchosen
      exact ⟨i, hi, hchosen.1, issue_of_edit? hedit⟩
    · cases h
      cases he

/-- What becomes of edits becomes of allowed ones, and a dry run is one that is asked for. -/
theorem edit_mem_of_makeAllowed {proposed : List Edit} {r : Outcome}
    (hr : r ∈ (makeAllowed d now c o proposed).1.results ++
      (makeAllowed d now c o proposed).1.conflicts) : r.edit ∈ proposed := by
  simp only [makeAllowed] at hr
  split at hr
  · simp only [Batch.ofResults, List.append_nil, List.mem_map] at hr
    obtain ⟨e, he, rfl⟩ := hr
    exact List.mem_of_mem_filter he
  · have hedit := (perm_outcomes _ _ _ _ _ _).mem_iff.1 (List.mem_map_of_mem hr)
    exact List.mem_of_mem_filter (List.mem_eraseDups.1 hedit)

theorem dryRun_makeAllowed (d : Disk) (now : Moment) (c : Config) (o : Options)
    (proposed : List Edit) : (makeAllowed d now c o proposed).1.dryRun = o.dryRun := by
  by_cases h : o.dryRun = true
  · rw [makeAllowed, if_pos h, h]
    rfl
  · rw [makeAllowed, if_neg h, applyAll_eq, (Bool.not_eq_true _).mp h]
    rfl

variable {groups : List (String × List Issue)}

theorem exists_makeAllowed_of_run (h : run d now c o groups = .ok (b, d')) :
    ∃ proposed, (groups.mapM fun g => edits d c.conventions o.categories g.1 g.2) = .ok proposed ∧
      makeAllowed d now c o proposed.flatten = (b, d') := by
  obtain ⟨proposed, hproposed, -⟩ := bind_eq_ok_iff.1 h
  have heq := run_eq (d := d) now hproposed
  rw [h] at heq
  exact ⟨proposed, hproposed, (Except.ok.inj heq).symm⟩

/-- Every outcome of a run is for a fixable issue. -/
theorem forFixable_of_run (h : run d now c o groups = .ok (b, d')) {r : Outcome}
    (hr : r ∈ b.results ++ b.conflicts) : ForFixable (groups.flatMap (·.2)) r.edit := by
  obtain ⟨proposed, hproposed, hmade⟩ := exists_makeAllowed_of_run h
  obtain rfl : (makeAllowed d now c o proposed.flatten).1 = b := by rw [hmade]
  obtain ⟨edits, hedits, he⟩ := List.mem_flatten.1 (edit_mem_of_makeAllowed hr)
  obtain ⟨g, hg, hfile⟩ := (mem_of_mapM_eq_ok hproposed).1 hedits
  obtain ⟨i, hi, hfix⟩ := forFixable_of_edits hfile he
  exact ⟨i, List.mem_flatMap.2 ⟨g, hg, hi⟩, hfix⟩

theorem dryRun_of_run (h : run d now c o groups = .ok (b, d')) : b.dryRun = o.dryRun := by
  obtain ⟨proposed, -, hmade⟩ := exists_makeAllowed_of_run h
  rw [← dryRun_makeAllowed d now c o proposed.flatten, hmade]

/-- A batch fixes an issue: some edit was made for it, and none for it failed or conflicted. -/
structure Batch.Fixes (b : Batch) (i : Issue) : Prop where
  real : b.dryRun = false
  made : ∃ r ∈ b.results, r.edit.issue = some i.id
  success : ∀ r ∈ b.results, r.edit.issue = some i.id → r.success = true
  free : ∀ r ∈ b.conflicts, r.edit.issue ≠ some i.id

theorem mem_fixedIssues_iff {is : List Issue} (hid : i.id ≠ "") :
    i ∈ fixedIssues is b ↔ i ∈ is ∧ b.Fixes i := by
  have hempty : i.id.isEmpty = false := by simpa using hid
  by_cases hdry : b.dryRun = true
  · have hnone : ¬b.Fixes i := fun h => absurd (hdry.symm.trans h.real) Bool.noConfusion
    simp [fixedIssues, hdry, hnone]
  · simp only [fixedIssues, hdry, hempty, Bool.false_eq_true, if_false, List.mem_filter]
    refine and_congr_right fun _ => ?_
    simp only [Bool.and_eq_true, Bool.not_eq_true', List.all_append, List.all_map,
      List.all_eq_true, List.mem_filter, beq_iff_eq, Function.comp_apply, id, and_imp,
      Bool.false_eq_true, List.isEmpty_eq_false_iff_exists_mem, List.mem_append, List.mem_map]
    constructor
    · rintro ⟨⟨x, hx⟩, hsuccess, hfree⟩
      refine ⟨by simpa using hdry, ?_, hsuccess, fun r hr he => hfree r hr he⟩
      rcases hx with ⟨r, ⟨hr, he⟩, -⟩ | ⟨r, ⟨hr, he⟩, -⟩
      · exact ⟨r, hr, he⟩
      · exact (hfree r hr he).elim
    · rintro ⟨-, ⟨r, hr, he⟩, hsuccess, hfree⟩
      exact ⟨⟨r.success, .inl ⟨r, ⟨hr, he⟩, rfl⟩⟩, hsuccess, hfree⟩

theorem fixedIssues_sublist (is : List Issue) (b : Batch) : (fixedIssues is b).Sublist is := by
  simp only [fixedIssues]
  split
  · exact List.nil_sublist is
  · exact List.filter_sublist

end Fix

namespace Issue

/-- Grouping takes issues from the list only. -/
theorem mem_of_mem_groups {key : Issue → String} {is : List Issue} {i : Issue}
    (h : i ∈ (groups key is).flatMap (·.2)) : i ∈ is := by
  simp only [groups, List.flatMap_map, List.mem_flatMap, List.mem_filter] at h
  obtain ⟨-, -, hi, -⟩ := h
  exact hi

end Issue

theorem RuleTable.exists_numbered_of_check {t : RuleTable} {c : Config} {p : Project}
    {is : List Issue} (h : t.check c p = .ok is) : ∃ fs, is = Issue.numbered fs := by
  obtain ⟨onFiles, -, h⟩ := bind_eq_ok_iff.1 h
  obtain ⟨onProject, -, h⟩ := bind_eq_ok_iff.1 h
  exact ⟨_, (Except.ok.inj h).symm⟩

namespace Audit

variable {s : Setting} {d : Disk} {now : Moment} {files : Option (List String)}
  {fixing : Option Fix.Options} {o : Outcome}

/-- What an audit does after its rules have run: it fixes what it may, and sums up. -/
structure Outcome.Made (o : Outcome) (is : List Issue) (batch : Option (Fix.Batch × Disk)) :
    Prop where
  issues : o.result.issues = is
  fix : o.fix = batch.map (·.1)
  fixed : o.result.fixed = batch.elim [] fun b => Fix.fixedIssues is b.1
  summary : o.result.summary = .ofIssues is o.result.fixed

namespace Outcome.Made

variable {fs : List Finding} {batch : Option (Fix.Batch × Disk)}

theorem fixed_sublist {is : List Issue} (h : o.Made is batch) : o.result.fixed.Sublist is := by
  rw [h.fixed]
  cases batch with
  | none => exact List.nil_sublist _
  | some b => exact Fix.fixedIssues_sublist _ _

theorem mem_fixed_iff (h : o.Made (Issue.numbered fs) batch) (i : Issue) :
    i ∈ o.result.fixed ↔ i ∈ Issue.numbered fs ∧ ∃ b, o.fix = some b ∧ b.Fixes i := by
  rw [h.fixed, h.fix]
  cases batch with
  | none => simp
  | some b =>
    simp only [Option.elim_some, Option.map_some, Option.some.injEq, exists_eq_left']
    by_cases hi : i ∈ Issue.numbered fs
    · exact Fix.mem_fixedIssues_iff (Issue.id_ne_empty hi)
    · simp only [hi, false_and, iff_false]
      exact fun hm => hi ((Fix.fixedIssues_sublist _ _).subset hm)

/-- An edit for a fixed issue was proposed for a fixable one with its identity, and that is it. -/
theorem fixable {options : Fix.Options} {c : Config} (h : o.Made (Issue.numbered fs) batch)
    (hrun : ∀ b, batch = some b → Fix.run d now c options
      (Issue.groups (·.place) (Issue.numbered fs)) = .ok b) :
    ∀ i ∈ o.result.fixed, i.autoFixable = true := by
  intro i hi
  obtain ⟨hi, b, hb, hfixes⟩ := (h.mem_fixed_iff i).1 hi
  rw [h.fix] at hb
  obtain ⟨⟨b, d'⟩, hbatch, rfl⟩ := Option.map_eq_some_iff.1 hb
  obtain ⟨r, hr, hissue⟩ := hfixes.made
  obtain ⟨j, hj, hfix, hsame⟩ :=
    Fix.forFixable_of_run (hrun _ hbatch) (List.mem_append_left _ hr)
  have hid : i.id = j.id := Option.some.inj (hissue.symm.trans hsame)
  rwa [Issue.eq_of_id_eq hi (Issue.mem_of_mem_groups hj) hid]

end Outcome.Made

/-- A run numbers its findings, and the batch is one for them, with the options that are given. -/
theorem exists_made_of_run (h : run s d now files fixing = .ok o) :
    ∃ fs batch, o.Made (Issue.numbered fs) batch ∧ ∀ b, batch = some b →
      Fix.run d now s.config (fixing.getD {}) (Issue.groups (·.place) (Issue.numbered fs)) =
        .ok b := by
  obtain ⟨verdict, -, h⟩ := bind_eq_ok_iff.1 h
  cases hv : verdict.isValid with
  | false =>
    simp only [hv, Bool.not_false, if_true] at h
    cases h
  | true =>
    simp only [hv, Bool.not_true, Bool.false_eq_true, if_false] at h
    obtain ⟨issues, hissues, h⟩ := bind_eq_ok_iff.1 h
    obtain ⟨fs, rfl⟩ := RuleTable.exists_numbered_of_check hissues
    refine ⟨fs, ?_⟩
    -- The three ways to fix end in the same outcome.
    split at h
    · obtain ⟨batch, hbatch, h⟩ := bind_eq_ok_iff.1 h
      cases h
      obtain ⟨b, hb, rfl⟩ := map_eq_ok_iff.1 hbatch
      exact ⟨some b, ⟨rfl, rfl, rfl, rfl⟩, fun _ hsome => Option.some.inj hsome ▸ hb⟩
    · obtain ⟨batch, hbatch, h⟩ := bind_eq_ok_iff.1 h
      cases h
      obtain ⟨b, hb, rfl⟩ := map_eq_ok_iff.1 hbatch
      exact ⟨some b, ⟨rfl, rfl, rfl, rfl⟩, fun _ hsome => Option.some.inj hsome ▸ hb⟩
    · cases h
      exact ⟨none, ⟨rfl, rfl, rfl, rfl⟩, fun _ hnone => by cases hnone⟩

/-- An outcome accounts for the issues that were fixed. -/
structure Outcome.AccountsForFixes (o : Outcome) : Prop where
  numbered : ∀ k i, o.result.issues[k]? = some i → i.id = "EXP-" ++ Text.padZero 4 (k + 1)
  distinct : (o.result.issues.map (·.id)).Nodup
  sublist : o.result.fixed.Sublist o.result.issues
  fixed : ∀ i, i ∈ o.result.fixed ↔ i ∈ o.result.issues ∧ ∃ b, o.fix = some b ∧ b.Fixes i
  fixable : ∀ i ∈ o.result.fixed, i.autoFixable = true
  fixedCount : o.result.summary.fixed = o.result.fixed.length
  fixableCount : o.result.summary.fixable = o.result.issues.countP (·.autoFixable)
  count_le : o.result.summary.fixed ≤ o.result.summary.fixable
  rate : ∃ q, o.result.summary.successRate.value? = some q ∧ 0 ≤ q ∧ q ≤ 1

/-- The share of fixable issues that were fixed is at most one. -/
theorem exists_successRate {is fixed : List Issue}
    (h : fixed.length ≤ is.countP (·.autoFixable)) :
    ∃ q, (Summary.ofIssues is fixed).successRate.value? = some q ∧ 0 ≤ q ∧ q ≤ 1 := by
  simp only [Summary.ofIssues]
  split
  · exact Decimal.Binary64.exists_value?_ofRatio Nat.one_ne_zero (Nat.le_refl 1)
  · rename_i hne
    exact Decimal.Binary64.exists_value?_ofRatio hne h

/-- Every outcome of an audit accounts for the issues that were fixed, and a dry run fixes none. -/
theorem fixes_accounted (h : run s d now files fixing = .ok o) :
    o.AccountsForFixes ∧ (∀ options, fixing = some options → options.dryRun = true →
      o.result.fixed = []) := by
  obtain ⟨fs, batch, hmade, hrun⟩ := exists_made_of_run h
  have hfixable := hmade.fixable hrun
  have hcount : o.result.fixed.length ≤ (Issue.numbered fs).countP (·.autoFixable) := by
    rw [← List.countP_eq_length.2 hfixable]
    exact hmade.fixed_sublist.countP_le
  constructor
  · constructor
    case numbered =>
      rw [hmade.issues]
      exact fun k i => Issue.id_of_getElem?_numbered
    case distinct =>
      rw [hmade.issues]
      exact Issue.nodup_numbered fs
    case sublist =>
      rw [hmade.issues]
      exact hmade.fixed_sublist
    case fixed =>
      rw [hmade.issues]
      exact hmade.mem_fixed_iff
    case fixable => exact hfixable
    case fixedCount =>
      rw [hmade.summary]
      rfl
    case fixableCount =>
      rw [hmade.summary, hmade.issues]
      rfl
    case count_le =>
      rw [hmade.summary]
      exact Int.ofNat_le.2 hcount
    case rate =>
      rw [hmade.summary]
      exact exists_successRate hcount
  · intro options hgiven hdry
    rw [hmade.fixed]
    cases batch with
    | none => rfl
    | some b =>
      have hb := Fix.dryRun_of_run (hrun b rfl)
      rw [hgiven, Option.getD_some, hdry] at hb
      simp [Fix.fixedIssues, hb]

/-- A clause with an unused name that is spaced unevenly, beside a type that nothing imports. -/
def unevenDisk : Disk where
  here := ["work"]
  entries := [(["work"], .directory), (["work", "proj"], .directory),
    (["work", "proj", "a.ts"],
      .file (.ordinary (Text.Utf8.encode "const a = 1;\nexport \x7ba\x7d;\n"))),
    (["work", "proj", "m.ts"],
      .file (.ordinary (Text.Utf8.encode "export type T = string;\n")))]

def tidyingConfig : Config where
  rootPath := "proj"
  scan := .standard
  rules := [{ name := "no-unused-exports" }]
  conventions := .standard
  fixing := { enabled := true, createBackup := false }

/-- The audit finds two unused names, of which one can be fixed and is. -/
theorem unevenClause_accounted :
    ∃ o, run { config := tidyingConfig } unevenDisk ⟨2024, 1, 2, 3, 4, 5, 0, some 0⟩
        (some ["proj/a.ts", "proj/m.ts"]) none = .ok o ∧
      o.result.issues.map (·.id) = ["EXP-0001", "EXP-0002"] ∧
      o.result.fixed.map (·.id) = ["EXP-0001"] ∧ o.AccountsForFixes := by
  have hfound : ((run { config := tidyingConfig } unevenDisk ⟨2024, 1, 2, 3, 4, 5, 0, some 0⟩
      (some ["proj/a.ts", "proj/m.ts"]) none).toOption.map fun o =>
        (o.result.issues.map (·.id), o.result.fixed.map (·.id))) =
          some (["EXP-0001", "EXP-0002"], ["EXP-0001"]) := by
    decide +kernel
  cases hrun : run { config := tidyingConfig } unevenDisk ⟨2024, 1, 2, 3, 4, 5, 0, some 0⟩
      (some ["proj/a.ts", "proj/m.ts"]) none with
  | error e =>
    rw [hrun] at hfound
    cases hfound
  | ok o =>
    rw [hrun] at hfound
    obtain ⟨hissues, hfixed⟩ := Prod.mk.inj (Option.some.inj hfound)
    exact ⟨o, rfl, hissues, hfixed, (fixes_accounted hrun).1⟩

end Audit

end ExportLint
