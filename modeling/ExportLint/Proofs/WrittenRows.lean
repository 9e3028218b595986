import ExportLint.Proofs.ArrangedIssues
import ExportLint.Report.Delivery

/-!
# Rows read back

A reader of rows goes through a text one character at a time. Outside of quotation marks a comma
ends a field and a line feed ends a row. Within them every character stands for itself, and a
quotation mark is written twice. A report as rows is read back as its header and one row for every
issue that it shows.
-/
namespace ExportLint.Report.Csv

/-- Where a reader is within a field. -/
inductive Within where
  /-- At its start. -/
  | fresh
  /-- Behind a character of an unquoted field. -/
  | plain
  /-- Between quotation marks. -/
  | quoted
  /-- Behind a quotation mark that ends the field, unless a second one follows. -/
  | closed
  deriving DecidableEq, Repr

/-- The state of a reader: the complete rows, the complete fields of the row that it is in, and what
it has of the next field. -/
structure RowReader where
  rows : List (List String)
  row : List String
  field : List Char
  within : Within
  deriving DecidableEq, Repr

namespace RowReader

/-- A reader at the start of a field. -/
def atField (rows : List (List String)) (row : List String) : RowReader :=
  ⟨rows, row, [], .fresh⟩

def push (r : RowReader) (c : Char) (within : Within) : RowReader :=
  { r with field := r.field ++ [c], within }

/-- The row with the field that is being read. -/
def cells (r : RowReader) : List String := r.row ++ [String.ofList r.field]

/-- Read one character. A quotation mark within an unquoted field is a fault, and so is anything
but a mark behind a field that was quoted. -/
def step (r : RowReader) (c : Char) : Option RowReader :=
  if r.within = .quoted then
    some (if c = '"' then { r with within := .closed } else r.push c .quoted)
  else if c = ',' then some (atField r.rows r.cells)
  else if c = '\n' then some (atField (r.rows ++ [r.cells]) [])
  else
    match r.within with
    | .fresh => some (if c = '"' then { r with within := .quoted } else r.push c .plain)
    | .closed => if c = '"' then some (r.push c .quoted) else none
    | _ => if c = '"' then none else some (r.push c .plain)

/-- The rows at the end of a text. The last row may lack its line feed. -/
def finish (r : RowReader) : Option (List (List String)) :=
  if r.within = .quoted then none
  else if r.within = .fresh ∧ r.row = [] then some r.rows
  else some (r.rows ++ [r.cells])

end RowReader

/-- The rows of a text. -/
def readRows (text : String) : Option (List (List String)) :=
  (text.toList.foldlM RowReader.step (.atField [] [])).bind RowReader.finish

namespace RowReader

variable {rows : List (List String)} {row : List String} {f : List Char} {w : Within}
  {r r' : RowReader}

theorem read_cons {c : Char} (h : step r c = some r') (cs : List Char) :
    (c :: cs).foldlM step r = cs.foldlM step r' := by
  rw [List.foldlM_cons, h]
  rfl

theorem read_append {cs : List Char} (h : cs.foldlM step r = some r') (ds : List Char) :
    (cs ++ ds).foldlM step r = ds.foldlM step r' := by
  rw [List.foldlM_append, h]
  rfl

/-- A mark behind a field ends it, quoted or not. -/
theorem step_comma (hw : w ≠ .quoted) :
    step ⟨rows, row, f, w⟩ ',' = some (atField rows (row ++ [String.ofList f])) := by
  simp [step, hw, cells]

theorem step_lineFeed (hw : w ≠ .quoted) :
    step ⟨rows, row, f, w⟩ '\n' = some (atField (rows ++ [row ++ [String.ofList f]]) []) := by
  simp [step, hw, cells]

/-- Characters without a meaning of their own stand for themselves. -/
theorem read_plain {cs : List Char} (hcs : ∀ c ∈ cs, isSpecial c = false)
    (hw : w = .fresh ∨ w = .plain) : ∃ w', w' ≠ .quoted ∧
      cs.foldlM step ⟨rows, row, f, w⟩ = some ⟨rows, row, f ++ cs, w'⟩ := by
  induction cs generalizing f w with
  | nil =>
    refine ⟨w, ?_, by simp⟩
    rcases hw with rfl | rfl <;> exact Within.noConfusion
  | cons c cs ih =>
    obtain ⟨hc, hcs⟩ := List.forall_mem_cons.1 hcs
    have hstep : step ⟨rows, row, f, w⟩ c = some ⟨rows, row, f ++ [c], .plain⟩ := by
      simp only [isSpecial, Bool.or_eq_false_iff, beq_eq_false_iff_ne] at hc
      rcases hw with rfl | rfl <;> simp [step, push, hc]
    obtain ⟨w', hw', hread⟩ := ih (f := f ++ [c]) hcs (.inr rfl)
    refine ⟨w', hw', ?_⟩
    rw [read_cons hstep, hread, List.append_assoc]
    rfl

/-- Between quotation marks a text with doubled marks is read as it was. -/
theorem read_doubled (cs : List Char) :
    (cs.flatMap fun c => if c = '"' then ['"', '"'] else [c]).foldlM step
        ⟨rows, row, f, .quoted⟩ = some ⟨rows, row, f ++ cs, .quoted⟩ := by
  induction cs generalizing f with
  | nil => simp
  | cons c cs ih =>
    have hread : (if c = '"' then ['"', '"'] else [c]).foldlM step ⟨rows, row, f, .quoted⟩ =
        some ⟨rows, row, f ++ [c], .quoted⟩ := by
      split
      · rename_i hc
        subst hc
        rfl
      · rename_i hc
        simp [step, push, hc]
    rw [List.flatMap_cons, read_append hread, ih, List.append_assoc]
    rfl

/-- A field is read up to the mark that ends it. -/
theorem read_field (s : String) : ∃ w, w ≠ .quoted ∧
    (Csv.field s).foldlM step (atField rows row) = some ⟨rows, row, s.toList, w⟩ := by
  rw [Csv.field]
  split
  · refine ⟨.closed, Within.noConfusion, ?_⟩
    have hopen : step (atField rows row) '"' = some ⟨rows, row, [], .quoted⟩ := rfl
    rw [quoted, List.cons_append, read_cons hopen, read_append (read_doubled s.toList)]
    rfl
  · rename_i h
    rw [List.any_eq_true] at h
    exact read_plain (fun c hc => Bool.eq_false_iff.2 fun hs => h ⟨c, hc, hs⟩) (.inl rfl)

/-- Fields with commas between them are read as the rest of a row. -/
theorem read_fields {fields : List String} (h : fields ≠ []) :
    ([','].intercalate (fields.map Csv.field) ++ ['\n']).foldlM step (atField rows row) =
      some (atField (rows ++ [row ++ fields]) []) := by
  induction fields generalizing row with
  | nil => exact absurd rfl h
  | cons s fields ih =>
    obtain ⟨w, hw, hread⟩ := @read_field rows row s
    cases fields with
    | nil =>
      rw [List.map_singleton, List.intercalate_singleton, read_append hread,
        read_cons (step_lineFeed hw), String.ofList_toList]
      rfl
    | cons t fields =>
      rw [List.map_cons, List.map_cons, List.intercalate_cons_cons, ← List.map_cons,
        List.append_assoc, List.append_assoc, read_append hread, List.singleton_append,
        read_cons (step_comma hw), ih (List.cons_ne_nil t fields), String.ofList_toList,
        List.append_assoc]
      rfl

/-- Rows are read one behind the other. -/
theorem read_rows {rs : List (List String)} (h : ∀ r ∈ rs, r ≠ []) :
    (rs.flatMap Csv.row).foldlM step (atField rows []) = some (atField (rows ++ rs) []) := by
  induction rs generalizing rows with
  | nil => simp
  | cons r rs ih =>
    obtain ⟨hr, hrs⟩ := List.forall_mem_cons.1 h
    rw [List.flatMap_cons, Csv.row, read_append (read_fields hr), ih hrs, List.append_assoc]
    rfl

end RowReader

theorem readRows_rows {rs : List (List String)} (h : ∀ r ∈ rs, r ≠ []) :
    readRows (String.ofList (rs.flatMap row)) = some rs := by
  rw [readRows, String.toList_ofList, RowReader.read_rows h]
  rfl

/-- What the row of an issue says: its file, its line if it has one, its kind, its severity, its
message, and its suggestion where suggestions are shown. -/
def issueCells (suggestions : Bool) (i : Issue) : List String :=
  [i.file, (i.location.map fun l => toString l.startLine).getD "", Named.name i.kind,
    Named.name i.severity, i.message, if suggestions then i.suggestion.getD "" else ""]

theorem fields_eq (c : Content) (i : Issue) :
    fields c i = issueCells c.options.suggestions i := by
  have hline : i.line.elim "" toString =
      (i.location.map fun l => toString l.startLine).getD "" := by
    rw [Issue.line]
    cases i.location <;> rfl
  have hsuggestion : (c.suggestion? i).getD "" =
      if c.options.suggestions then i.suggestion.getD "" else "" := by
    rw [Content.suggestion?]
    split
    · cases hs : i.suggestion with
      | none => rfl
      | some s =>
        -- An empty suggestion is left out, and its field is empty as well.
        by_cases he : s.isEmpty
        · rw [Option.filter_some_neg (by simp [he]), String.isEmpty_iff.1 he]
          rfl
        · rw [Option.filter_some_pos (by simp [he])]
    · rfl
  rw [fields, issueCells, hline, hsuggestion]
  rfl

theorem rows_eq (c : Content) :
    rows c = header :: c.issues.map (issueCells c.options.suggestions) := by
  rw [rows, List.map_congr_left fun i _ => fields_eq c i]

theorem row_ne_nil {c : Content} {row : List String} (h : row ∈ rows c) : row ≠ [] := by
  rcases List.mem_cons.1 h with rfl | h
  · exact List.cons_ne_nil _ _
  · obtain ⟨i, -, rfl⟩ := List.mem_map.1 h
    exact List.cons_ne_nil _ _

/-- A report as rows is read back as its header and one row of six fields for every issue that the
options select, in the order of the sort key and otherwise in their own. -/
theorem report_rows_read_back (r : Audit.Result) (fix : Option Fix.Batch) (o : Options) :
    ∃ shown, StablySorted o.sortBy
        (r.issues.filter fun i => o.severities.all (·.contains i.severity)) shown ∧
      readRows (Report.render r fix { o with format := .csv }).text =
        some (["File Path", "Line", "Type", "Severity", "Message", "Suggestion"] ::
          shown.map (issueCells o.suggestions)) := by
  refine ⟨_, stablySorted_sortBy _ _, ?_⟩
  have htext : (Report.render r fix { o with format := .csv }).text =
      render (.of r fix { o with format := .csv }) := rfl
  rw [htext, render, readRows_rows fun _ h => row_ne_nil h, rows_eq]
  rfl

/-- A field of one quotation mark is no empty field, and a quoted one may hold a line feed. -/
example : readRows "a,\"\"\"\",\"\"\n\"b,\nc\",," =
    some [["a", "\"", ""], ["b,\nc", "", ""]] := by decide +kernel

end ExportLint.Report.Csv
