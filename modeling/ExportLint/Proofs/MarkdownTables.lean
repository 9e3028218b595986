import ExportLint.Proofs.ArrangedIssues
import ExportLint.Proofs.NumberTexts
import ExportLint.Proofs.TableRows
import ExportLint.Report.Delivery

/-!
# Tables in Markdown reports

Each issue has a row of five cells in the table of its group. Its file stands there as it is. In its
message bars are escaped and line feeds become blanks, while backslashes and other line ends stay.
So the row is broken by a bar or a line end in the file and by a line end other than a line feed in
the message, and where backslashes can be escaped also by a bar of the message behind one.
-/
namespace ExportLint.Report.Markdown

/-- What a report with details says in front of its groups. -/
def opening (c : Content) : List String :=
  title c ++ (if c.options.statistics then statistics c.statistics else []) ++
    c.fix.elim [] fixes ++ ["## Issues", ""] ++
    if c.groups.isEmpty then ["No issues found.", ""] else []

/-- The heading of a group and the head of its table. -/
def tableHead (g : String × List Issue) : List String :=
  ["### " ++ code g.1 ++ " (" ++ toString g.2.length ++ ")", "",
    "| Severity | Type | File | Line | Message |",
    "|----------|------|------|------|---------|"]

theorem group_eq (c : Content) (g : String × List Issue) :
    group c g.1 g.2 = tableHead g ++ g.2.map issueRow ++ "" :: suggestions c g.2 :=
  List.append_assoc _ _ _

theorem lines_eq {c : Content} (h : c.options.details = true) :
    lines c = opening c ++ c.groups.flatMap fun g => group c g.1 g.2 := by
  rw [lines, if_pos h, issues, opening]
  simp only [List.append_assoc]

/-- The texts of the cells in the row of an issue. -/
def issueCells (i : Issue) : List String :=
  [icon i.severity ++ " " ++ i.severityName, i.kindName, code i.file, (lineText? i).getD "-",
    cell i.message]

theorem issueRow_eq (i : Issue) : issueRow i = row (issueCells i) := rfl

theorem isPlain_of_isDigit {c : Char} (h : Json.isDigit c = true) : isPlain c = true := by
  rw [Json.isDigit, Bool.and_eq_true, decide_eq_true_iff, decide_eq_true_iff] at h
  have hlow : 48 ≤ c.toNat := h.1
  have hhigh : c.toNat ≤ 57 := h.2
  rw [isPlain, Bool.and_eq_true, bne_iff_ne, Bool.not_eq_true', Text.isLineBoundary,
    List.contains_eq_mem, decide_eq_false_iff_not]
  refine ⟨?_, ?_⟩
  · rintro rfl
    exact absurd hhigh (by decide)
  · simp only [List.mem_cons, List.not_mem_nil, or_false]
    omega

theorem isPlain_int (n : Int) : (toString n).toList.all isPlain = true := by
  have hdigits (n : Nat) : (Decimal.digitsOf n).all isPlain = true :=
    List.all_eq_true.2 fun c hc => isPlain_of_isDigit (Json.allDigits_digitsOf n c hc)
  rw [Int.toString_eq_repr, Int.repr_eq_if]
  split
  · rw [Nat.toList_repr]
    exact hdigits _
  · rw [String.toList_append, Nat.toList_repr, List.all_append, Bool.and_eq_true]
    exact ⟨by decide, hdigits _⟩

theorem isPlain_severity (i : Issue) :
    (icon i.severity ++ " " ++ i.severityName).toList.all isPlain = true := by
  rw [Issue.severityName]
  cases i.severity <;> decide

theorem isPlain_kind (i : Issue) : i.kindName.toList.all isPlain = true := by
  rw [Issue.kindName]
  cases i.kind <;> decide

theorem isPlain_line (i : Issue) : ((lineText? i).getD "-").toList.all isPlain = true := by
  rw [lineText?]
  cases i.line.filter (· ≠ 0) with
  | none => decide
  | some n => exact isPlain_int n

namespace Dialect

variable (d : Dialect)

theorem isCell_code_iff {text : String} : d.IsCell (code text).toList ↔ d.IsCell text.toList := by
  have hcode : (code text).toList = '\x60' :: text.toList ++ ['\x60'] := by
    simp [code]
  rw [hcode, d.isCell_between_iff (by decide) (by decide)]

/-- Each bar of a cell's text has a backslash of its own, and that escapes it unless it is escaped
itself. -/
theorem bars_cell (text : String) : d.bars false (cell text).toList =
    (d.bars false text.toList).map fun escaped => !(d.pairs && escaped) := by
  rw [cell, String.toList_ofList]
  generalize false = escaped
  induction text.toList generalizing escaped with
  | nil => rfl
  | cons c cs ih =>
    rw [List.flatMap_cons, bars]
    split
    · rename_i hc
      have hslash : d.escapes escaped '\\' = !(d.pairs && escaped) := Bool.true_and _
      have hbar (e : Bool) : d.escapes e '|' = false := d.escapes_eq_false (by decide)
      rw [hc, hbar, List.cons_append, List.singleton_append, bars, bars, hbar, hslash, ih]
      rfl
    · rw [List.nil_append]
      split
      · rename_i hc
        have hblank : d.escapes escaped ' ' = false := d.escapes_eq_false (by decide)
        have hfeed : d.escapes escaped '\n' = false := d.escapes_eq_false (by decide)
        rw [hc, hfeed, List.singleton_append, bars, hblank, ih]
        rfl
      · rename_i hbar _
        rw [List.singleton_append, bars, if_neg hbar, ih, List.nil_append]

theorem cell_keeps_line_iff (text : String) : (∀ c ∈ (cell text).toList, d.endsLine c = false) ↔
    ∀ c ∈ text.toList, d.endsLine c = true → c = '\n' := by
  have hslash : d.endsLine '\\' = false := d.endsLine_eq_false (by decide)
  have hbar : d.endsLine '|' = false := d.endsLine_eq_false (by decide)
  have hblank : d.endsLine ' ' = false := d.endsLine_eq_false (by decide)
  rw [cell, String.toList_ofList, List.forall_mem_flatMap]
  refine forall₂_congr fun c _ => ?_
  split
  · rename_i hc
    simp [hc, hslash, hbar]
  · split
    · rename_i hc
      simp [hc, hblank]
    · rename_i hc
      simp [hc]

/-- The text of a cell stays there if its line ends are line feeds and no bar is escaped already,
where that counts. -/
theorem isCell_cell_iff {text : String} : d.IsCell (cell text).toList ↔
    (∀ c ∈ text.toList, d.endsLine c = true → c = '\n') ∧
      (d.pairs = true → true ∉ d.bars false text.toList) := by
  have hbars : false ∉ d.bars false (cell text).toList ↔
      (d.pairs = true → true ∉ d.bars false text.toList) := by
    rw [bars_cell]
    cases d.pairs <;> simp
  rw [← cell_keeps_line_iff, ← hbars]
  exact ⟨fun h => ⟨h.line, h.bars⟩, fun h => ⟨h.1, h.2⟩⟩

/-- The file of an issue stays in its cell, and so does its message: there all line ends are line
feeds, and no bar is escaped already. -/
structure Fits (i : Issue) : Prop where
  file : d.IsCell i.file.toList
  message_lines : ∀ c ∈ i.message.toList, d.endsLine c = true → c = '\n'
  /-- This matters only where a backslash can be escaped. -/
  message_bars : d.pairs = true → true ∉ d.bars false i.message.toList

theorem issueCells_iff_fits (i : Issue) :
    (∀ t ∈ issueCells i, d.IsCell t.toList) ↔ d.Fits i := by
  rw [issueCells, List.forall_mem_cons, List.forall_mem_cons, List.forall_mem_cons,
    List.forall_mem_cons, List.forall_mem_singleton, isCell_code_iff, isCell_cell_iff,
    and_iff_right (d.isCell_of_plain (isPlain_severity i)),
    and_iff_right (d.isCell_of_plain (isPlain_kind i)),
    and_iff_right (d.isCell_of_plain (isPlain_line i))]
  exact ⟨fun ⟨hfile, hlines, hbars⟩ => ⟨hfile, hlines, hbars⟩,
    fun h => ⟨h.file, h.message_lines, h.message_bars⟩⟩

/-- The row of an issue that fits is one line, a row of its cells. -/
theorem Fits.reads_issueRow {d : Dialect} {i : Issue} (h : d.Fits i) :
    d.lines (issueRow i) = [(issueRow i).toList] ∧
      d.IsRow (issueRow i).toList ((issueCells i).map padded) := by
  rw [issueRow_eq]
  exact d.reads_row (List.cons_ne_nil _ _) ((d.issueCells_iff_fits i).2 h)

/-- The row of an issue is one line with five cells exactly if the issue fits. -/
theorem reads_five_cells_iff (i : Issue) :
    (∃ line cells, d.lines (issueRow i) = [line] ∧ d.IsRow line cells ∧ cells.length = 5) ↔
      d.Fits i := by
  constructor
  · rintro ⟨line, cells, hline, hrow, hlength⟩
    rw [issueRow_eq] at hline
    rw [← issueCells_iff_fits]
    exact d.isCell_of_reads_row (List.cons_ne_nil _ _) hline hrow hlength
  · intro h
    obtain ⟨hline, hrow⟩ := h.reads_issueRow
    exact ⟨_, _, hline, hrow, rfl⟩

/-- The lines of a group with its heading, its table and its suggestions. -/
def groupLines (c : Content) (g : String × List Issue) : List (List Char) :=
  (tableHead g).flatMap d.lines ++ g.2.flatMap (fun i => d.lines (issueRow i)) ++
    ("" :: suggestions c g.2).flatMap d.lines

theorem lines_render {c : Content} (h : c.options.details = true) :
    d.lines (render c) = (opening c).flatMap d.lines ++ c.groups.flatMap (d.groupLines c) := by
  have hne : Markdown.lines c ≠ [] := by
    rw [lines_eq h, opening, title]
    exact List.cons_ne_nil _ _
  have hgroup (g : String × List Issue) : (group c g.1 g.2).flatMap d.lines = d.groupLines c g := by
    rw [group_eq, groupLines, List.flatMap_append, List.flatMap_append, List.flatMap_map]
  rw [lines, render, Text.splitWhere_unlines d.lineFeed hne]
  change (Markdown.lines c).flatMap d.lines = _
  rw [lines_eq h, List.flatMap_append, List.flatMap_assoc]
  exact congrArg _ (List.flatMap_congr fun g _ => hgroup g)

end Dialect

/-- A report with details has, for each issue that its options select, one row in the table of its
group, and that is read as one line of five cells exactly if the issue fits. Then they are its
severity, its kind, its file, its line and its message. -/
theorem issue_rows_read_iff (d : Dialect) (r : Audit.Result) (fix : Option Fix.Batch)
    (o : Options) :
    ∃ c : Content, (Report.render r fix { o with format := .markdown, details := true }).text =
        render c ∧
      StablySorted o.sortBy (r.issues.filter fun i => o.severities.all (·.contains i.severity))
        c.issues ∧
      Issue.Partitions o.groupBy.of c.issues c.groups ∧
      d.lines (render c) = (opening c).flatMap d.lines ++ c.groups.flatMap (d.groupLines c) ∧
      ∀ i ∈ c.issues,
        ((∃ line cells, d.lines (issueRow i) = [line] ∧ d.IsRow line cells ∧ cells.length = 5) ↔
          d.Fits i) ∧
        (d.Fits i → d.lines (issueRow i) = [(issueRow i).toList] ∧
          d.IsRow (issueRow i).toList ((issueCells i).map padded)) := by
  refine ⟨.of r fix { o with format := .markdown, details := true }, rfl,
    stablySorted_sortBy _ _, Issue.partitions_groups _ _, d.lines_render rfl, fun i _ => ?_⟩
  exact ⟨d.reads_five_cells_iff i, fun h => h.reads_issueRow⟩

/-- Lines end at line feeds only, and no backslash is escaped. -/
def lineFeeds : Dialect where
  endsLine := (· == '\n')
  pairs := false
  lineFeed := rfl
  boundary := by
    intro c hc
    rw [beq_iff_eq.1 hc]
    decide

def barredFile : Issue :=
  ⟨{ kind := .missingExport, severity := .error, file := "src/a|b.ts", message := "m" }, "EXP-0001"⟩

def barredMessage : Issue :=
  ⟨{ kind := .missingExport, severity := .error, file := "src/c.ts", message := "a|b\nc" },
    "EXP-0002"⟩

/-- An issue with a bar in its file and one with a bar in its message. -/
def barredResult : Audit.Result where
  projectPath := "/work/demo"
  time := ⟨2024, 1, 2, 3, 4, 5, 0, some 0⟩
  issues := [barredFile, barredMessage]

/-- The bar in the file breaks the row, and the one in the message does not. -/
theorem barred_file_breaks_row :
    ∃ c : Content, (Report.render barredResult none { format := .markdown }).text = render c ∧
      barredFile ∈ c.issues ∧ barredMessage ∈ c.issues ∧
      (¬∃ line cells, lineFeeds.lines (issueRow barredFile) = [line] ∧
        lineFeeds.IsRow line cells ∧ cells.length = 5) ∧
      lineFeeds.lines (issueRow barredMessage) = [(issueRow barredMessage).toList] ∧
      lineFeeds.IsRow (issueRow barredMessage).toList
        ((issueCells barredMessage).map padded) := by
  obtain ⟨c, htext, hsorted, -, -, hrows⟩ := issue_rows_read_iff lineFeeds barredResult none {}
  have hmem {i : Issue} (hi : i ∈ barredResult.issues) : i ∈ c.issues :=
    hsorted.perm.mem_iff.2 (List.mem_filter.2 ⟨hi, rfl⟩)
  have hfile : barredFile ∈ c.issues := hmem List.mem_cons_self
  have hmessage : barredMessage ∈ c.issues := hmem (List.mem_cons_of_mem _ List.mem_cons_self)
  have hfits : lineFeeds.Fits barredMessage :=
    { file := lineFeeds.isCell_of_plain (by decide)
      message_lines := fun c _ hc => beq_iff_eq.1 hc
      message_bars := fun h => absurd h (by decide) }
  refine ⟨c, htext, hfile, hmessage, fun hread => ?_, (hrows _ hmessage).2 hfits⟩
  have hbars := ((hrows _ hfile).1.1 hread).file.bars
  exact absurd hbars (by decide)

end ExportLint.Report.Markdown
