import ExportLint.Fix.Run
import ExportLint.Proofs.AnalyzedIssues
import ExportLint.Proofs.StyledNames
import Mathlib.Data.Option.Basic

/-!
# The edits that issues propose

An edit for an issue is of one of four shapes, and all but insertions are aimed at a line of the
file that holds what the edit expects. An issue of an analysis always leads to an edit or to none:
the name that it suggests holds no backslash, so it stands for itself where it replaces another one.
-/
namespace ExportLint.Fix

variable {c : Conventions} {file : String} {lines : List String} {i : Issue} {e : Edit}

namespace Replacement

/-- A text without backslashes stands for itself. -/
theorem expandFrom_eq {whole : List Char} {fuel : Nat} {template : List Char}
    (hf : template.length ≤ fuel) (h : '\\' ∉ template) :
    expandFrom whole fuel template = .ok template := by
  induction template generalizing fuel with
  | nil => cases fuel <;> rfl
  | cons d ds ih =>
    cases fuel with
    | zero => simp at hf
    | succ fuel =>
      have hd : d ≠ '\\' := fun hd => h (hd ▸ List.mem_cons_self)
      have hds := ih (Nat.le_of_succ_le_succ hf) fun hm => h (List.mem_cons_of_mem d hm)
      rw [expandFrom.eq_4 _ _ _ _ hd, hds]
      rfl

theorem expand_eq {whole template : List Char} (h : '\\' ∉ template) :
    expand whole template = .ok template :=
  expandFrom_eq (Nat.le_succ _) h

end Replacement

/-- The line of an issue is a line of the file. -/
theorem lineOf?_eq_some {n : Int} {x : String} (h : lineOf? lines i = some (n, x)) :
    1 ≤ n ∧ lines[(n - 1).toNat]? = some x := by
  simp only [lineOf?, Option.bind_eq_bind, Option.bind_eq_some_iff, Option.guard_eq_some',
    Option.pure_def, Option.some.injEq, Prod.mk.injEq] at h
  obtain ⟨m, -, _, hm, y, hy, rfl, rfl⟩ := h
  exact ⟨hm, hy⟩

/-- What an edit for an issue of a file is: the name of its line changed, its line dropped, a
statement put behind the last line, or the clause of its line tidied. -/
inductive EditFor (c : Conventions) (lines : List String) (i : Issue) (e : Edit) : Prop where
  | rename {n : Int} {x old new : String} {text : List Char} (at_ : lineOf? lines i = some (n, x))
      (tells : given? i "exportName" = some (.str old))
      (suggests : newName c i (.str old) = .ok (.str new)) (changes : new ≠ old)
      (expands : Replacement.expand old.toList new.toList = .ok text)
      (kind : e.kind = .rename) (line : e.line = some n) (expected : e.expected = some x)
      (replaces : e.text = String.ofList (Replacement.replaceFirst old.toList text none x.toList))
  | remove {n : Int} {x : String} (at_ : lineOf? lines i = some (n, x))
      (kind : e.kind = .remove) (line : e.line = some n) (expected : e.expected = some x)
  | add {name : Json} {statement : String} (tells : given? i "exportName" = some name)
      (names : statement = "export default " ++ name.display ++ ";" ∨
        statement = "export \x7b " ++ name.display ++ " \x7d;")
      (kind : e.kind = .add) (line : e.line = some (lastLine lines)) (expected : e.expected = none)
      (inserts : e.text = withEndingOf lines statement)
  | tidy {n : Int} {x : String} {sort : Bool} {typeOnly : Option Bool}
      (at_ : lineOf? lines i = some (n, x)) (kind : e.kind = .reorder ∨ e.kind = .format)
      (line : e.line = some n) (expected : e.expected = some x)
      (tidies : tidyClause sort typeOnly x = some e.text)

theorem editFor_of_renameEdit (h : renameEdit c file lines i = .ok (some e)) :
    EditFor c lines i e ∧ e.file = file := by
  simp only [renameEdit] at h
  split at h
  · rename_i n x old hat htells
    obtain ⟨new, hnew, h⟩ := bind_eq_ok_iff.1 h
    split at h
    · cases h
    · rename_i hequal
      split at h
      · rename_i old new _
        obtain ⟨text, htext, h⟩ := bind_eq_ok_iff.1 h
        split at h
        · cases h
        · cases h
          have hchanges : new ≠ old := by simpa [Json.equal] using hequal
          exact ⟨.rename hat htells hnew hchanges htext rfl rfl rfl rfl, rfl⟩
      · cases h
  · cases h

theorem editFor_of_removeEdit (h : removeEdit file lines i = some e) :
    EditFor c lines i e ∧ e.file = file := by
  obtain ⟨⟨n, x⟩, hat, rfl⟩ := Option.map_eq_some_iff.1 h
  exact ⟨.remove hat rfl rfl rfl, rfl⟩

theorem editFor_of_addEdit (h : addEdit file lines i = some e) :
    EditFor c lines i e ∧ e.file = file := by
  obtain ⟨v, htells, rfl⟩ := Option.map_eq_some_iff.1 h
  refine ⟨.add htells ?_ rfl rfl rfl rfl, rfl⟩
  exact (Decidable.em _).imp (fun h => if_pos h) fun h => if_neg h

theorem editFor_of_reorderEdit (h : reorderEdit file lines i = some e) :
    EditFor c lines i e ∧ e.file = file := by
  simp only [reorderEdit, Option.bind_eq_bind, Option.bind_eq_some_iff,
    Option.pure_def, Option.some.injEq] at h
  obtain ⟨⟨n, x⟩, hat, updated, htidy, _, -, rfl⟩ := h
  exact ⟨.tidy hat (.inl rfl) rfl rfl htidy, rfl⟩

theorem editFor_of_formatEdit (h : formatEdit file lines i = .ok (some e)) :
    EditFor c lines i e ∧ e.file = file := by
  simp only [formatEdit] at h
  split at h
  · cases h
  · rename_i n x hat
    split at h
    · simp only [Option.bind_eq_bind, Option.bind_eq_some_iff, Option.pure_def,
        Option.some.injEq, Except.ok.injEq] at h
      obtain ⟨_, -, updated, htidy, _, -, rfl⟩ := h
      exact ⟨.tidy hat (.inr rfl) rfl rfl htidy, rfl⟩
    · cases h

/-- An edit that an issue leads to is one for the issue, in its file. -/
theorem editFor_of_edit? (h : edit? c file lines i = .ok (some e)) :
    EditFor c lines i e ∧ e.file = file := by
  simp only [edit?] at h
  split at h
  · exact editFor_of_renameEdit h
  · exact editFor_of_removeEdit (Except.ok.inj h)
  · exact editFor_of_addEdit (Except.ok.inj h)
  · exact editFor_of_reorderEdit (Except.ok.inj h)
  · exact editFor_of_formatEdit h
  · cases h

/-- What an edit is aimed at. An insertion goes behind the last line, and any other edit expects
what its line holds. -/
theorem EditFor.aim (h : EditFor c lines i e) :
    e.kind = .add ∧ e.line = some (lastLine lines) ∨
      e.kind ≠ .add ∧ ∃ n x, e.line = some n ∧ 1 ≤ n ∧ lines[(n - 1).toNat]? = some x ∧
        e.expected = some x := by
  cases h with
  | rename at_ tells suggests changes expands kind line expected replaces =>
    obtain ⟨hn, hx⟩ := lineOf?_eq_some at_
    exact .inr ⟨by simp [kind], _, _, line, hn, hx, expected⟩
  | remove at_ kind line expected =>
    obtain ⟨hn, hx⟩ := lineOf?_eq_some at_
    exact .inr ⟨by simp [kind], _, _, line, hn, hx, expected⟩
  | add tells names kind line expected inserts => exact .inl ⟨kind, line⟩
  | tidy at_ kind line expected tidies =>
    obtain ⟨hn, hx⟩ := lineOf?_eq_some at_
    refine .inr ⟨?_, _, _, line, hn, hx, expected⟩
    rcases kind with kind | kind <;> simp [kind]

/-- The edits for a file come from its issues, and its lines have been read. -/
theorem exists_editFor {d : Disk} {categories : Option (List Category)} {is : List Issue}
    {proposed : List Edit} (h : edits d c categories file is = .ok proposed) (he : e ∈ proposed) :
    e.file = file ∧ ∃ lines, d.readLines (Path.tidy file) = .ok lines ∧
      ∃ i ∈ is, EditFor c lines i e := by
  simp only [edits] at h
  split at h
  · cases h
    cases he
  · rename_i chosen _
    split at h
    · rename_i lines hlines
      obtain ⟨found, hfound, h⟩ := bind_eq_ok_iff.1 h
      cases h
      obtain ⟨x, hx, rfl⟩ := List.mem_filterMap.1 he
      obtain ⟨i, hi, hedit⟩ := (mem_of_mapM_eq_ok hfound).1 hx
      obtain ⟨hfor, hfile⟩ := editFor_of_edit? hedit
      exact ⟨hfile, lines, hlines, i, (List.mem_filter.1 hi).1, hfor⟩
    · cases h
      cases he

/-- The name that an issue suggests is the old one in its style. -/
theorem newName_eq {old : String} {style : CaseStyle}
    (hs : i.metadata.get? "caseStyle" = some (.str (Named.name style)))
    (hn : i.metadata.get? "suggestedName" = some (.str (style.apply old))) :
    newName c i (.str old) = .ok (.str (style.apply old)) := by
  have hstyle : given? i "caseStyle" = some (.str (Named.name style)) := by
    rw [given?, hs]
    cases style <;> rfl
  have hnamed : styleOf (.str (Named.name style)) = .ok style := by
    cases style <;> rfl
  rw [newName, given?, hn]
  cases hg : Option.filter Json.isTruthy (some (.str (style.apply old))) with
  | some v =>
    obtain ⟨rfl, -⟩ := by simpa [Option.filter_eq_some_iff] using hg
    rfl
  | none =>
    rw [hstyle]
    dsimp only
    rw [hnamed]
    rfl

/-- An issue on a name that tells its style leads to an edit or to none. -/
theorem exists_renameEdit (h : i.TellsName) : ∃ e?, renameEdit c file lines i = .ok e? := by
  obtain ⟨old, style, hold, hs, hn⟩ := h
  simp only [renameEdit]
  split
  · rename_i n x old' hat htells
    rw [given?, hold, Option.filter_eq_some_iff] at htells
    cases htells.1
    rw [newName_eq hs hn]
    simp only [bind, Except.bind]
    split
    · exact ⟨none, rfl⟩
    · rename_i hne
      have hstyled : '\\' ∉ (style.apply old).toList := by
        rcases style.apply_eq_or_isStyled old with he | hall
        · exact absurd (by simp [he, Json.equal]) hne
        · intro hm
          exact absurd (hall _ hm) (by decide)
      rw [Replacement.expand_eq hstyled]
      dsimp only
      split
      · exact ⟨none, rfl⟩
      · exact ⟨_, rfl⟩
  · exact ⟨none, rfl⟩

/-- An issue that tells what a fix of it takes leads to an edit or to none. -/
theorem exists_edit? (h : i.TellsFix) (hf : i.autoFixable = true) :
    ∃ e?, edit? c file lines i = .ok e? := by
  have hformat (hk : i.kind = .typeMismatch) : ∃ e?, formatEdit file lines i = .ok e? := by
    obtain ⟨s, hs⟩ := h.typeMismatch hk
    simp only [formatEdit, hs, Option.getD_some]
    split <;> exact ⟨_, rfl⟩
  cases hk : i.kind with
  | naming =>
    simp only [edit?, hk, Category.ofIssue?]
    exact exists_renameEdit (h.naming hf hk)
  | typeMismatch =>
    simp only [edit?, hk, Category.ofIssue?]
    exact hformat hk
  | duplicateExport | missingExport | unusedExport | cycle | importMismatch | accessViolation =>
    simp only [edit?, hk, Category.ofIssue?]
    exact ⟨_, rfl⟩

/-- Issues of an analysis lead to edits. -/
theorem exists_edits (d : Disk) (c : Conventions) (categories : Option (List Category))
    {issues : List (String × List Issue)} (h : ∀ f ∈ issues, ∀ i ∈ f.2, i.Analyzed) :
    ∃ groups, (issues.mapM fun f => edits d c categories f.1 f.2) = .ok groups := by
  apply exists_mapM_eq_ok
  intro f hf
  simp only [edits]
  split
  · exact ⟨[], rfl⟩
  · split
    · rename_i lines _
      have hall : ∀ i ∈ f.2.filter (isChosen categories),
          ∃ e?, edit? c f.1 lines i = .ok e? := by
        intro i hi
        obtain ⟨hi, hchosen⟩ := List.mem_filter.1 hi
        rw [isChosen, Bool.and_eq_true] at hchosen
        exact exists_edit? (h f hf i hi).tellsFix hchosen.1
      obtain ⟨found, hfound⟩ := exists_mapM_eq_ok hall
      exact ⟨found.filterMap id, by rw [editsFor, hfound]; rfl⟩
    · exact ⟨[], rfl⟩

end ExportLint.Fix
