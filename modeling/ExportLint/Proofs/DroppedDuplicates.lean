import ExportLint.Fix.Proposal
import ExportLint.Module.Sources
import ExportLint.Proofs.LineEdits
import ExportLint.Proofs.UnusedExports
import ExportLint.Rule.Duplicate

/-!
# Duplicates that are dropped

An export that repeats one before it, and that starts on a line where no other export starts, is
offered to be dropped. The fix drops that line. Of an export that goes on below it, all further
lines stay, so the offers take whole exports exactly if each export that qualifies ends on its line.
-/
namespace ExportLint.Rule

variable {c : Context} {file : String} {es : List Export} {e : Export} {x : Finding}
  {found : List Finding}

/-- An export that counts repeats one before it, and no other export starts on its line. -/
def Droppable (es : List Export) (e : Export) : Prop :=
  ∃ before after, es = before ++ e :: after ∧ countsAsNamed e = true ∧
    (∃ d ∈ before, countsAsNamed d = true ∧ sameSymbol e d = true) ∧
    ∀ other ∈ before ++ after, other.location.startLine ≠ e.location.startLine

/-- Exports that count and export what this one does. -/
def duplicatesOf (es : List Export) (e : Export) : List Export :=
  (es.filter countsAsNamed).filter (sameSymbol e)

theorem mem_duplicatesOf_iff {d : Export} :
    d ∈ duplicatesOf es e ↔ d ∈ es ∧ countsAsNamed d = true ∧ sameSymbol e d = true := by
  rw [duplicatesOf, List.mem_filter, List.mem_filter, and_assoc]

theorem sameSymbol_iff {a b : Export} :
    sameSymbol a b = true ↔ a.name = b.name ∧ a.kind.isTypeLevel = b.kind.isTypeLevel := by
  rw [sameSymbol, Bool.and_eq_true, beq_iff_eq, beq_iff_eq]

theorem sameSymbol_self (e : Export) : sameSymbol e e = true :=
  sameSymbol_iff.2 ⟨rfl, rfl⟩

/-- One export starts on the line of an export if none of the others does. -/
theorem startingOn_split {before after : List Export} (hes : es = before ++ e :: after) :
    startingOn es e.location.startLine = 1 ↔
      ∀ other ∈ before ++ after, other.location.startLine ≠ e.location.startLine := by
  have hself : (e.location.startLine == e.location.startLine) = true := beq_self_eq_true _
  rw [hes, startingOn, List.countP_append, List.countP_cons, if_pos hself, ← Nat.add_assoc,
    ← List.countP_append, Nat.add_eq_right, List.countP_eq_zero]
  simp only [beq_iff_eq, ne_eq]

/-- An export is not the first of its duplicates if one of them stands before it. -/
theorem idxOf_pos_iff {before after : List Export} (hes : es = before ++ e :: after)
    (hbefore : e ∉ before) (hc : countsAsNamed e = true) :
    0 < (duplicatesOf es e).idxOf e ↔
      ∃ d ∈ before, countsAsNamed d = true ∧ sameSymbol e d = true := by
  have hsplit : duplicatesOf es e = duplicatesOf before e ++ e :: duplicatesOf after e := by
    rw [hes, duplicatesOf, List.filter_append, List.filter_append, List.filter_cons_of_pos hc,
      List.filter_cons_of_pos (sameSymbol_self e)]
    rfl
  have hnot : e ∉ duplicatesOf before e := fun h => hbefore (mem_duplicatesOf_iff.1 h).1
  rw [hsplit, List.idxOf_append, if_neg hnot, List.idxOf_cons_self, Nat.zero_add,
    List.length_pos_iff_exists_mem]
  exact exists_congr fun d => mem_duplicatesOf_iff

/-- What is said on an export is on it, and the export is to be dropped if it is not the first of
its duplicates and is alone on its line. -/
theorem duplicateFinding?_spec (h : duplicateFinding? c file es e = some x) :
    x.IsOn file e ∧ x.kind = .duplicateExport ∧ (x.autoFixable = true ↔
      0 < (duplicatesOf es e).idxOf e ∧ startingOn es e.location.startLine = 1) := by
  simp only [duplicateFinding?] at h
  split at h
  · cases h
  · cases h
    refine ⟨⟨rfl, rfl, rfl⟩, rfl, ?_⟩
    rw [Bool.and_eq_true, decide_eq_true_iff, beq_iff_eq, Nat.lt_add_left_iff_pos]
    rfl

/-- Something is said on an export that is not the first of its duplicates. -/
theorem exists_duplicateFinding? (he : e ∈ es) (hc : countsAsNamed e = true)
    (hpos : 0 < (duplicatesOf es e).idxOf e) : ∃ x, duplicateFinding? c file es e = some x := by
  have hmem : e ∈ duplicatesOf es e := mem_duplicatesOf_iff.2 ⟨he, hc, sameSymbol_self e⟩
  have hlt := List.idxOf_lt_length_of_mem hmem
  have htwo : ¬(duplicatesOf es e).length < 2 := by omega
  exact ⟨_, if_neg htwo⟩

/-- An export is offered to be dropped exactly if it is droppable. -/
theorem exists_fixable_iff (he : e ∈ es) (hc : countsAsNamed e = true) :
    (∃ x, duplicateFinding? c file es e = some x ∧ x.autoFixable = true) ↔ Droppable es e := by
  constructor
  · rintro ⟨x, hx, hfix⟩
    obtain ⟨hpos, hone⟩ := (duplicateFinding?_spec hx).2.2.1 hfix
    obtain ⟨before, after, hes⟩ := List.append_of_mem he
    have halone := (startingOn_split hes).1 hone
    have hbefore : e ∉ before := fun h => halone e (List.mem_append_left after h) rfl
    exact ⟨before, after, hes, hc, (idxOf_pos_iff hes hbefore hc).1 hpos, halone⟩
  · rintro ⟨before, after, hes, -, hdup, halone⟩
    have hbefore : e ∉ before := fun h => halone e (List.mem_append_left after h) rfl
    have hpos := (idxOf_pos_iff hes hbefore hc).2 hdup
    obtain ⟨x, hx⟩ := exists_duplicateFinding? he hc hpos
    exact ⟨x, hx, (duplicateFinding?_spec hx).2.2.2 ⟨hpos, (startingOn_split hes).2 halone⟩⟩

theorem mem_namesAreExportedOnce_iff (h : namesAreExportedOnce c file es = .ok found) :
    x ∈ found ↔ ∃ e ∈ es, countsAsNamed e = true ∧ duplicateFinding? c file es e = some x := by
  cases h
  simp only [List.mem_filterMap, List.mem_filter, and_assoc]

theorem Droppable.mem (h : Droppable es e) : e ∈ es := by
  obtain ⟨before, after, rfl, -⟩ := h
  exact List.mem_append_right before List.mem_cons_self

/-- An offer to drop an export is for a droppable one, and each of these has an offer. -/
theorem fixable_iff_of_isOn (h : namesAreExportedOnce c file es = .ok found) :
    (∀ x ∈ found, x.autoFixable = true → ∃ e, Droppable es e ∧ x.IsOn file e) ∧
      ∀ e, Droppable es e → ∃ x ∈ found, x.autoFixable = true ∧ x.IsOn file e := by
  constructor
  · intro x hx hfix
    obtain ⟨e, he, hc, hfinding⟩ := (mem_namesAreExportedOnce_iff h).1 hx
    exact ⟨e, (exists_fixable_iff he hc).1 ⟨x, hfinding, hfix⟩, (duplicateFinding?_spec hfinding).1⟩
  · intro e hdrop
    have hc : countsAsNamed e = true := by
      obtain ⟨-, -, -, hc, -⟩ := hdrop
      exact hc
    obtain ⟨x, hx, hfix⟩ := (exists_fixable_iff hdrop.mem hc).2 hdrop
    exact ⟨x, (mem_namesAreExportedOnce_iff h).2 ⟨e, hdrop.mem, hc, hx⟩, hfix,
      (duplicateFinding?_spec hx).1⟩

/-- The edit for a duplicate drops the line where it starts. -/
theorem exists_edit?_duplicate (k : Conventions) {i : Issue} {l : Location}
    (hkind : i.kind = .duplicateExport) (hl : i.location = some l) {before : List String}
    (first : String) (behind : List String) (hstart : l.startLine = before.length + 1) :
    ∃ edit, Fix.edit? k file (before ++ first :: behind) i = .ok (some edit) ∧
      Fix.applyEdit (before ++ first :: behind) edit = .ok (before ++ behind) := by
  have hline : i.line = some l.startLine := by rw [Issue.line, hl, Option.map_some]
  have hget : (before ++ first :: behind)[(l.startLine - 1).toNat]? = some first := by
    have hat : (l.startLine - 1).toNat = before.length := by omega
    rw [hat, List.getElem?_append_right (Nat.le_refl _), Nat.sub_self, List.getElem?_cons_zero]
  have hat : Fix.lineOf? (before ++ first :: behind) i = some (l.startLine, first) := by
    have hpos : 1 ≤ l.startLine := by omega
    simp only [Fix.lineOf?, hline, guard, if_pos hpos, hget, Option.bind_eq_bind, Option.bind_some,
      Option.pure_def]
  have hedit : Fix.edit? k file (before ++ first :: behind) i =
      .ok (Fix.removeEdit file (before ++ first :: behind) i) := by
    rw [Fix.edit?, hkind]
    rfl
  rw [hedit, Fix.removeEdit, hat]
  refine ⟨_, rfl, ?_⟩
  rw [Fix.applyEdit_replace behind (n := l.startLine) rfl rfl hstart]
  simp [Fix.replaced]

/-- The offers to drop an export are for those that are droppable, so all of them are for exports on
one line exactly if every droppable export is on one line. The edit for a duplicate drops its first
line and leaves the rest of its lines, and there is no rest exactly if it starts and ends on the
same line. -/
theorem dropped_exports_whole_iff (c : Context) (file : String) (es : List Export) :
    ∃ found, namesAreExportedOnce c file es = .ok found ∧
      (∀ x ∈ found, x.autoFixable = true → ∃ e, Droppable es e ∧ x.IsOn file e) ∧
      (∀ e, Droppable es e → ∃ x ∈ found, x.autoFixable = true ∧ x.IsOn file e) ∧
      ((∀ x ∈ found, x.autoFixable = true →
          ∀ l, x.location = some l → l.startLine = l.endLine) ↔
        ∀ e, Droppable es e → e.location.startLine = e.location.endLine) ∧
      ∀ x ∈ found, ∀ e, x.IsOn file e →
        ∀ (k : Conventions) (id : String) (before : List String) (first : String)
          (rest behind : List String), e.location.startLine = before.length + 1 →
          e.location.endLine = e.location.startLine + rest.length →
          (∃ edit, Fix.edit? k file (before ++ first :: (rest ++ behind)) ⟨x, id⟩ =
              .ok (some edit) ∧
            Fix.applyEdit (before ++ first :: (rest ++ behind)) edit =
              .ok (before ++ (rest ++ behind))) ∧
          (rest = [] ↔ e.location.startLine = e.location.endLine) := by
  obtain ⟨hsound, hcomplete⟩ := fixable_iff_of_isOn (rfl : namesAreExportedOnce c file es = .ok _)
  refine ⟨_, rfl, hsound, hcomplete, ⟨fun h e he => ?_, fun h x hx hfix l hl => ?_⟩, ?_⟩
  · obtain ⟨x, hx, hfix, hon⟩ := hcomplete e he
    exact h x hx hfix e.location hon.location
  · obtain ⟨e, he, hon⟩ := hsound x hx hfix
    obtain rfl : e.location = l := Option.some.inj (hon.location.symm.trans hl)
    exact h e he
  · intro x hx e hon k id before first rest behind hstart hend
    obtain ⟨d, -, -, hfinding⟩ := (mem_namesAreExportedOnce_iff rfl).1 hx
    have hkind := (duplicateFinding?_spec hfinding).2.1
    refine ⟨exists_edit?_duplicate k hkind hon.location first (rest ++ behind) hstart, ?_⟩
    rw [← List.length_eq_zero_iff]
    omega

/-- A file that exports a name twice, the second time over three lines. -/
def settingsText : String :=
  "export const settings = 1;\nexport const settings = \x7b\n  depth: 1,\n\x7d;\n"

/-- The second export is offered to be dropped, and two of its three lines stay. -/
theorem settings_left_behind :
    let es := (Inventory.ofText {} "a.ts" settingsText.toList).exports
    ∃ found, namesAreExportedOnce appContext "a.ts" es = .ok found ∧
      ∃ x ∈ found, x.autoFixable = true ∧ ∃ e, Droppable es e ∧ x.IsOn "a.ts" e ∧
        e.location.startLine = 2 ∧ e.location.endLine = 4 ∧
        ∃ edit, Fix.edit? appContext.conventions "a.ts" (Text.lines settingsText) ⟨x, "EXP-0002"⟩ =
            .ok (some edit) ∧
          Fix.applyEdit (Text.lines settingsText) edit =
            .ok ["export const settings = 1;", "  depth: 1,", "\x7d;", ""] := by
  have hfacts : (namesAreExportedOnce appContext "a.ts"
      (Inventory.ofText {} "a.ts" settingsText.toList).exports).toOption.any (fun found =>
      ∃ x ∈ found, x.autoFixable = true ∧
        x.location.map (fun l => (l.startLine, l.endLine)) = some (2, 4)) = true := by
    decide +kernel
  have hlines : Text.lines settingsText = ["export const settings = 1;"] ++
      "export const settings = \x7b" :: (["  depth: 1,", "\x7d;"] ++ [""]) := by decide +kernel
  obtain ⟨found, hfound, hsound, -, -, hdrops⟩ := dropped_exports_whole_iff appContext "a.ts"
    (Inventory.ofText {} "a.ts" settingsText.toList).exports
  rw [hfound] at hfacts
  obtain ⟨x, hx, hfix, hplace⟩ := of_decide_eq_true hfacts
  obtain ⟨e, he, hon⟩ := hsound x hx hfix
  rw [hon.location] at hplace
  obtain ⟨hstart, hend⟩ := Prod.mk.inj (Option.some.inj hplace)
  obtain ⟨hedit, -⟩ := hdrops x hx e hon appContext.conventions "EXP-0002"
    ["export const settings = 1;"] "export const settings = \x7b" ["  depth: 1,", "\x7d;"] [""]
    (by rw [hstart]; rfl) (by rw [hstart, hend]; rfl)
  rw [← hlines] at hedit
  exact ⟨found, hfound, x, hx, hfix, e, he, hon, hstart, hend, hedit⟩

end ExportLint.Rule
