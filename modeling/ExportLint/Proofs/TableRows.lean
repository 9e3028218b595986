import ExportLint.Proofs.PathTexts
import ExportLint.Report.Markdown

/-!
# Rows of tables

A row of a table has bars around and between its cells. A bar behind a backslash belongs to a cell,
unless the reader takes that backslash as escaped itself. Texts whose bars all belong to them and
which hold no line end are read back from their row, and with other texts the row is broken or has
more cells.
-/
namespace ExportLint

namespace Text

variable {p : Char → Bool}

theorem length_splitWhere (p : Char → Bool) (cs : List Char) :
    (splitWhere p cs).length = cs.countP p + 1 := by
  induction cs with
  | nil => rfl
  | cons c cs ih =>
    by_cases hc : p c = true
    · rw [splitWhere, if_pos hc, List.length_cons, ih, List.countP_cons_of_pos hc]
    · rw [splitWhere, if_neg hc, List.countP_cons_of_neg hc, ← ih]
      cases hs : splitWhere p cs with
      | nil => exact absurd hs (splitWhere_ne_nil p cs)
      | cons piece pieces => rfl

theorem splitWhere_eq_singleton_iff {cs line : List Char} :
    splitWhere p cs = [line] ↔ cs = line ∧ ∀ c ∈ cs, p c = false := by
  constructor
  · intro h
    have hlength := length_splitWhere p cs
    rw [h, List.length_singleton] at hlength
    have hnone : ∀ c ∈ cs, p c = false := by
      intro c hc
      have hcount := List.countP_eq_zero.1 (Nat.succ.inj hlength).symm c hc
      exact Bool.eq_false_iff.2 hcount
    rw [splitWhere_of_forall hnone] at h
    exact ⟨(List.cons.inj h).1, hnone⟩
  · rintro ⟨rfl, h⟩
    exact splitWhere_of_forall h

/-- The lines of texts that are put together are the lines of each of them. -/
theorem splitWhere_unlines (hp : p '\n' = true) {ls : List String} (h : ls ≠ []) :
    splitWhere p (unlines ls).toList = ls.flatMap fun l => splitWhere p l.toList := by
  induction ls with
  | nil => exact absurd rfl h
  | cons l ls ih =>
    cases ls with
    | nil => simp [unlines]
    | cons next ls =>
      have hchars : (unlines (l :: next :: ls)).toList =
          l.toList ++ '\n' :: (unlines (next :: ls)).toList := by
        simp [unlines, String.toList_intercalate]
      rw [hchars, splitWhere_append_cons hp, ih (List.cons_ne_nil next ls)]
      rfl

end Text

namespace Report.Markdown

/-- How a reader takes tables: where lines end, and whether a backslash can be escaped itself. -/
structure Dialect where
  endsLine : Char → Bool
  /-- A backslash that is escaped does not escape what follows. -/
  pairs : Bool
  lineFeed : endsLine '\n' = true
  boundary : ∀ c, endsLine c = true → Text.isLineBoundary c = true

/-- A character that is neither a bar nor ends a line. -/
def isPlain (c : Char) : Bool := c != '|' && !Text.isLineBoundary c

/-- A cell with the blanks around its text. -/
def padded (text : String) : List Char := ' ' :: text.toList ++ [' ']

/-- A row has a bar at its start and one behind each cell. -/
theorem toList_row {ts : List String} (h : ts ≠ []) :
    (row ts).toList = '|' :: ts.flatMap fun t => padded t ++ ['|'] := by
  have hbar : (" | " : String).toList = [' ', '|', ' '] := rfl
  have hcells : " | ".toList.intercalate (ts.map String.toList) ++ [' ', '|'] =
      (ts.flatMap fun t => padded t ++ ['|']).tail := by
    induction ts with
    | nil => exact absurd rfl h
    | cons t ts ih =>
      cases ts with
      | nil => simp [padded]
      | cons next ts =>
        have hnext := ih (List.cons_ne_nil next ts)
        rw [List.map_cons] at hnext
        rw [List.map_cons, List.map_cons, List.intercalate_cons_cons, List.append_assoc, hnext,
          hbar]
        simp [padded]
  cases ts with
  | nil => exact absurd rfl h
  | cons t ts =>
    have hrow : (row (t :: ts)).toList =
        '|' :: ' ' :: (" | ".toList.intercalate ((t :: ts).map String.toList) ++ [' ', '|']) := by
      simp [row, String.toList_intercalate]
    rw [hrow, hcells]
    simp [padded]

namespace Dialect

variable (d : Dialect) {escaped : Bool} {cs : List Char} {ts : List String}

/-- The lines of a text. -/
def lines (text : String) : List (List Char) := Text.splitWhere d.endsLine text.toList

/-- What follows a character is escaped by it. -/
def escapes (escaped : Bool) (c : Char) : Bool := c == '\\' && !(d.pairs && escaped)

/-- The pieces between the bars that are not escaped. The state tells whether the next character
is. -/
def pieces : Bool → List Char → List (List Char)
  | _, [] => [[]]
  | escaped, c :: cs =>
    let behind := pieces (d.escapes escaped c) cs
    if c = '|' ∧ escaped = false then [] :: behind else behind.modifyHead (c :: ·)

/-- Bars stand around and between the cells of a row. -/
def IsRow (line : List Char) (cells : List (List Char)) : Prop :=
  d.pieces false line = [] :: cells ++ [[]]

/-- For each bar of a text whether it is escaped. -/
def bars : Bool → List Char → List Bool
  | _, [] => []
  | escaped, c :: cs => (if c = '|' then [escaped] else []) ++ bars (d.escapes escaped c) cs

theorem endsLine_eq_false {c : Char} (h : Text.isLineBoundary c = false) : d.endsLine c = false :=
  Bool.eq_false_iff.2 fun hc => Bool.eq_false_iff.1 h (d.boundary c hc)

theorem escapes_eq_false {c : Char} (h : c ≠ '\\') : d.escapes escaped c = false := by
  rw [escapes, beq_eq_false_iff_ne.2 h, Bool.false_and]

theorem length_pieces (escaped : Bool) (cs : List Char) :
    (d.pieces escaped cs).length = (d.bars escaped cs).count false + 1 := by
  induction cs generalizing escaped with
  | nil => rfl
  | cons c cs ih =>
    by_cases hc : c = '|'
    · cases escaped <;> simp [pieces, bars, hc, ih]
    · simp [pieces, bars, hc, ih]

theorem bars_append (escaped : Bool) (cs rest : List Char) : d.bars escaped (cs ++ rest) =
    d.bars escaped cs ++ d.bars (cs.foldl d.escapes escaped) rest := by
  induction cs generalizing escaped with
  | nil => rfl
  | cons c cs ih => rw [List.cons_append, bars, ih, bars, List.append_assoc, List.foldl_cons]

/-- A text whose bars are all escaped belongs to one piece. -/
theorem pieces_append (h : false ∉ d.bars escaped cs) (rest : List Char) :
    d.pieces escaped (cs ++ rest) =
      (d.pieces (cs.foldl d.escapes escaped) rest).modifyHead (cs ++ ·) := by
  induction cs generalizing escaped with
  | nil =>
    cases hpieces : d.pieces escaped rest <;> simp [hpieces]
  | cons c cs ih =>
    obtain ⟨hc, hcs⟩ := not_or.1 (mt List.mem_append.2 h)
    have hbare : ¬(c = '|' ∧ escaped = false) := by
      rintro ⟨hc', rfl⟩
      exact hc (by simp [hc'])
    rw [List.cons_append, pieces, if_neg hbare, ih hcs, List.modifyHead_modifyHead]
    rfl

theorem bars_of_plain (h : cs.all isPlain = true) : d.bars escaped cs = [] := by
  induction cs generalizing escaped with
  | nil => rfl
  | cons c cs ih =>
    rw [List.all_cons, Bool.and_eq_true, isPlain, Bool.and_eq_true, bne_iff_ne] at h
    rw [bars, if_neg h.1.1, ih h.2, List.nil_append]

theorem bars_between {c : Char} (hbar : c ≠ '|') (hslash : c ≠ '\\') (cs : List Char) :
    d.bars false (c :: cs ++ [c]) = d.bars false cs := by
  rw [List.cons_append, bars, if_neg hbar, d.escapes_eq_false hslash, bars_append, bars,
    if_neg hbar, bars, List.append_nil, List.append_nil, List.nil_append]

theorem bars_padded (t : String) : d.bars false (padded t) = d.bars false t.toList :=
  d.bars_between (by decide) (by decide) t.toList

theorem foldl_padded (escaped : Bool) (t : String) :
    (padded t).foldl d.escapes escaped = false := by
  rw [padded, List.foldl_append, List.foldl_cons]
  exact d.escapes_eq_false (by decide)

theorem bars_row (h : ts ≠ []) : d.bars false (row ts).toList =
    false :: ts.flatMap fun t => d.bars false t.toList ++ [false] := by
  have hbar : d.escapes false '|' = false := d.escapes_eq_false (by decide)
  have hcells : d.bars false (ts.flatMap fun t => padded t ++ ['|']) =
      ts.flatMap fun t => d.bars false t.toList ++ [false] := by
    clear h
    induction ts with
    | nil => rfl
    | cons t ts ih =>
      rw [List.flatMap_cons, List.append_assoc, bars_append, foldl_padded, bars_padded,
        List.singleton_append, bars, hbar, ih, List.flatMap_cons, List.append_assoc]
      rfl
  rw [toList_row h, bars, hbar, hcells]
  rfl

/-- A row has one cell more for each bar in its texts that is not escaped. -/
theorem length_of_isRow {cells : List (List Char)} (h : ts ≠ [])
    (hrow : d.IsRow (row ts).toList cells) :
    cells.length = ts.length + (ts.flatMap fun t => d.bars false t.toList).count false := by
  have hcount : (ts.flatMap fun t => d.bars false t.toList ++ [false]).count false =
      ts.length + (ts.flatMap fun t => d.bars false t.toList).count false := by
    clear h hrow
    induction ts with
    | nil => rfl
    | cons t ts ih =>
      rw [List.flatMap_cons, List.count_append, List.count_append, ih, List.flatMap_cons,
        List.count_append, List.length_cons, List.count_singleton_self]
      omega
  have hlength := d.length_pieces false (row ts).toList
  rw [IsRow] at hrow
  rw [hrow, bars_row d h, List.count_cons_self, hcount, List.length_append, List.length_cons,
    List.length_singleton] at hlength
  omega

/-- Texts without bars that are not escaped are the cells of their row. -/
theorem isRow_row (h : ts ≠ []) (hts : ∀ t ∈ ts, false ∉ d.bars false t.toList) :
    d.IsRow (row ts).toList (ts.map padded) := by
  have hbar : d.escapes false '|' = false := d.escapes_eq_false (by decide)
  have hcells : d.pieces false (ts.flatMap fun t => padded t ++ ['|']) =
      ts.map padded ++ [[]] := by
    clear h
    induction ts with
    | nil => rfl
    | cons t ts ih =>
      obtain ⟨ht, hts⟩ := List.forall_mem_cons.1 hts
      rw [← bars_padded] at ht
      rw [List.flatMap_cons, List.append_assoc, pieces_append d ht, foldl_padded,
        List.singleton_append, pieces, hbar, if_pos ⟨rfl, rfl⟩, ih hts]
      simp
  rw [IsRow, toList_row h, pieces, hbar, if_pos ⟨rfl, rfl⟩, hcells]
  rfl

/-- A text that stays in one cell of one line. -/
structure IsCell (cs : List Char) : Prop where
  line : ∀ c ∈ cs, d.endsLine c = false
  bars : false ∉ d.bars false cs

theorem isCell_of_plain (h : cs.all isPlain = true) : d.IsCell cs where
  line c hc := by
    have hplain := List.all_eq_true.1 h c hc
    rw [isPlain, Bool.and_eq_true, Bool.not_eq_true'] at hplain
    exact d.endsLine_eq_false hplain.2
  bars := d.bars_of_plain h ▸ List.not_mem_nil

/-- Marks around a text do not matter. -/
theorem isCell_between_iff {c : Char} (hplain : isPlain c = true) (hslash : c ≠ '\\') :
    d.IsCell (c :: cs ++ [c]) ↔ d.IsCell cs := by
  rw [isPlain, Bool.and_eq_true, bne_iff_ne, Bool.not_eq_true'] at hplain
  have hends := d.endsLine_eq_false hplain.2
  have hbars := d.bars_between hplain.1 hslash cs
  constructor
  · intro h
    exact ⟨fun x hx => h.line x (List.mem_append_left _ (List.mem_cons_of_mem c hx)),
      hbars ▸ h.bars⟩
  · intro h
    refine ⟨?_, hbars ▸ h.bars⟩
    rw [List.cons_append, List.forall_mem_cons, List.forall_mem_append, List.forall_mem_singleton]
    exact ⟨hends, h.line, hends⟩

theorem row_keeps_line_iff (h : ts ≠ []) : (∀ c ∈ (row ts).toList, d.endsLine c = false) ↔
    ∀ t ∈ ts, ∀ c ∈ t.toList, d.endsLine c = false := by
  have hbar : d.endsLine '|' = false := d.endsLine_eq_false (by decide)
  have hblank : d.endsLine ' ' = false := d.endsLine_eq_false (by decide)
  rw [toList_row h]
  simp only [padded, List.forall_mem_cons, List.forall_mem_flatMap, List.forall_mem_append,
    hbar, hblank]
  simp

/-- Texts that stay in their cells make one line, which is the row of them. -/
theorem reads_row (h : ts ≠ []) (hts : ∀ t ∈ ts, d.IsCell t.toList) :
    d.lines (row ts) = [(row ts).toList] ∧ d.IsRow (row ts).toList (ts.map padded) := by
  have hline := (d.row_keeps_line_iff h).2 fun t ht => (hts t ht).line
  exact ⟨Text.splitWhere_of_forall hline, d.isRow_row h fun t ht => (hts t ht).bars⟩

/-- No other texts make one line that is a row of as many cells. -/
theorem isCell_of_reads_row (h : ts ≠ []) {line : List Char} {cells : List (List Char)}
    (hline : d.lines (row ts) = [line]) (hrow : d.IsRow line cells)
    (hlength : cells.length = ts.length) : ∀ t ∈ ts, d.IsCell t.toList := by
  intro t ht
  obtain ⟨rfl, hends⟩ := Text.splitWhere_eq_singleton_iff.1 hline
  have hnone := List.count_eq_zero.1
    (Nat.left_eq_add.1 (hlength.symm.trans (d.length_of_isRow h hrow)))
  exact ⟨(d.row_keeps_line_iff h).1 hends t ht,
    fun hbar => hnone (List.mem_flatMap.2 ⟨t, ht, hbar⟩)⟩

end Dialect

end Report.Markdown

end ExportLint
