import ExportLint.Proofs.LineNumbers
import ExportLint.Proofs.PathTexts

/-!
# Line ends of two characters

In a text whose line ends are a carriage return and a line feed each, every line but the last one
has a carriage return at its end, and the last one has none. Which of the two a line is can be said
from the line alone, so it can be followed through changes of single lines.
-/
namespace ExportLint.Text

/-- A carriage return stands before every line feed. -/
def FeedsPaired (cs : List Char) : Prop :=
  ∀ before behind, cs = before ++ '\n' :: behind → before.getLast? = some '\r'

/-- Carriage returns and line feeds come in pairs only. -/
def EndsPaired (cs : List Char) : Prop := ReturnsPaired cs ∧ FeedsPaired cs

/-- A line with one carriage return, at its end. -/
def IsEnded (line : List Char) : Prop := ∃ body, line = body ++ ['\r'] ∧ '\r' ∉ body

/-- All lines but the last one are ended, and that one holds no carriage return. -/
def LinesEnded : List (List Char) → Prop
  | [] => True
  | [line] => '\r' ∉ line
  | line :: next :: rest => IsEnded line ∧ LinesEnded (next :: rest)

variable {cs : List Char} {c : Char}

theorem not_isEnded_nil : ¬IsEnded [] := by
  rintro ⟨body, hbody, -⟩
  simp at hbody

theorem IsEnded.mem {line : List Char} (h : IsEnded line) : '\r' ∈ line := by
  obtain ⟨body, rfl, -⟩ := h
  simp

theorem isEnded_return_iff {line : List Char} : IsEnded ('\r' :: line) ↔ line = [] := by
  constructor
  · rintro ⟨body, he, hbody⟩
    cases body with
    | nil =>
      cases he
      rfl
    | cons d ds =>
      cases he
      exact absurd List.mem_cons_self hbody
  · rintro rfl
    exact ⟨[], rfl, List.not_mem_nil⟩

theorem isEnded_cons_iff (hc : c ≠ '\r') {line : List Char} :
    IsEnded (c :: line) ↔ IsEnded line := by
  constructor
  · rintro ⟨body, he, hbody⟩
    cases body with
    | nil =>
      cases he
      exact absurd rfl hc
    | cons d ds =>
      cases he
      exact ⟨ds, rfl, fun hm => hbody (List.mem_cons_of_mem _ hm)⟩
  · rintro ⟨body, rfl, hbody⟩
    refine ⟨c :: body, rfl, ?_⟩
    rw [List.mem_cons, not_or]
    exact ⟨hc.symm, hbody⟩

theorem linesEnded_cons_iff {line : List Char} {rest : List (List Char)} (h : rest ≠ []) :
    LinesEnded (line :: rest) ↔ IsEnded line ∧ LinesEnded rest := by
  cases rest with
  | nil => exact absurd rfl h
  | cons next rest => rfl

theorem linesEnded_concat_iff {lines : List (List Char)} {last : List Char} :
    LinesEnded (lines ++ [last]) ↔ (∀ line ∈ lines, IsEnded line) ∧ '\r' ∉ last := by
  induction lines with
  | nil => simp [LinesEnded]
  | cons line lines ih =>
    rw [List.cons_append, linesEnded_cons_iff (by simp), ih, List.forall_mem_cons, and_assoc]

/-- A character that ends no line does not change how the lines end. -/
theorem linesEnded_cons_char (hr : c ≠ '\r') (line : List Char) (rest : List (List Char)) :
    LinesEnded ((c :: line) :: rest) ↔ LinesEnded (line :: rest) := by
  cases rest with
  | nil =>
    simp only [LinesEnded, List.mem_cons, not_or]
    exact and_iff_right hr.symm
  | cons next rest =>
    exact and_congr_left fun _ => isEnded_cons_iff hr

theorem splitLines_ne_nil (cs : List Char) : splitLines cs ≠ [] := splitWhere_ne_nil _ cs

theorem feedsPaired_nil : FeedsPaired [] := by
  intro before behind h
  simp at h

theorem not_feedsPaired_feed (cs : List Char) : ¬FeedsPaired ('\n' :: cs) := by
  intro h
  have := h [] cs rfl
  cases this

theorem feedsPaired_cons_iff (hn : c ≠ '\n') (hnext : c = '\r' → ∀ rest, cs ≠ '\n' :: rest) :
    FeedsPaired (c :: cs) ↔ FeedsPaired cs := by
  constructor
  · intro h before behind he
    have hlast := h (c :: before) behind (by rw [he, List.cons_append])
    cases before with
    | nil =>
      rw [List.getLast?_singleton, Option.some.injEq] at hlast
      exact absurd he (hnext hlast behind)
    | cons d ds => rwa [List.getLast?_cons_cons] at hlast
  · intro h before behind he
    cases before with
    | nil =>
      cases he
      exact absurd rfl hn
    | cons d ds =>
      cases he
      have hlast := h ds behind rfl
      cases ds with
      | nil => cases hlast
      | cons d ds => rwa [List.getLast?_cons_cons]

theorem feedsPaired_pair_iff : FeedsPaired ('\r' :: '\n' :: cs) ↔ FeedsPaired cs := by
  constructor
  · intro h before behind he
    have hlast := h ('\r' :: '\n' :: before) behind (by rw [he]; rfl)
    cases before with
    | nil => cases hlast
    | cons d ds => rwa [List.getLast?_cons_cons, List.getLast?_cons_cons] at hlast
  · intro h before behind he
    match before, he with
    | ['\r'], _ => rfl
    | d :: e :: ds, he =>
      cases he
      have hlast := h ds behind rfl
      cases ds with
      | nil => cases hlast
      | cons d ds => rwa [List.getLast?_cons_cons, List.getLast?_cons_cons]

/-- A line that begins with a carriage return is ended only if a line feed follows at once. -/
theorem not_linesEnded_lone (hne : ∀ rest, cs ≠ '\n' :: rest) :
    ¬LinesEnded (splitLines ('\r' :: cs)) := by
  obtain ⟨line, rest, hs, hs'⟩ := splitLines_cons (c := '\r') (by decide) cs
  rw [hs']
  intro h
  cases rest with
  | nil => exact h List.mem_cons_self
  | cons next rest =>
    have hline := isEnded_return_iff.1 ((linesEnded_cons_iff (by simp)).1 h).1
    subst hline
    cases cs with
    | nil => simp [splitLines, splitWhere] at hs
    | cons d ds =>
      have hd : d ≠ '\n' := fun hd => hne ds (by rw [hd])
      obtain ⟨line, rest', -, hs''⟩ := splitLines_cons hd ds
      rw [hs''] at hs
      cases hs

/-- Line ends are pairs exactly if the lines between the line feeds are ended. -/
theorem endsPaired_iff : EndsPaired cs ↔ LinesEnded (splitLines cs) := by
  unfold EndsPaired
  rw [← loneReturns_eq_zero_iff]
  fun_induction loneReturns cs with
  | case1 cs ih =>
    obtain ⟨line, rest, hs, hs'⟩ := splitLines_cons (c := '\r') (by decide) ('\n' :: cs)
    rw [splitLines_lineFeed] at hs
    cases hs
    rw [hs', linesEnded_cons_iff (splitLines_ne_nil cs), isEnded_return_iff, feedsPaired_pair_iff,
      ih, and_iff_right rfl]
  | case2 cs hne ih => exact iff_of_false (by simp) (not_linesEnded_lone hne)
  | case3 c cs hpair hlone ih =>
    have hr : c ≠ '\r' := hlone
    by_cases hn : c = '\n'
    · subst hn
      rw [splitLines_lineFeed, linesEnded_cons_iff (splitLines_ne_nil cs)]
      constructor
      · rintro ⟨-, hfeeds⟩
        exact absurd hfeeds (not_feedsPaired_feed cs)
      · rintro ⟨hnil, -⟩
        exact absurd hnil not_isEnded_nil
    · obtain ⟨line, rest, hs, hs'⟩ := splitLines_cons hn cs
      rw [hs', linesEnded_cons_char hr, ← hs, ← ih,
        feedsPaired_cons_iff hn fun h => absurd h hr]
  | case4 =>
    simp [splitLines, splitWhere, LinesEnded, feedsPaired_nil]

/-- Lines without line feeds are the lines of what they make together. -/
theorem splitLines_unlines {ls : List String} (h : ∀ l ∈ ls, '\n' ∉ l.toList) (hne : ls ≠ []) :
    splitLines (unlines ls).toList = ls.map String.toList := by
  rw [← toList_lines, String.ofList_toList]
  exact congrArg (List.map String.toList) (splitAtChar_intercalate h hne)

theorem not_mem_of_mem_splitLines {line : List Char} (h : line ∈ splitLines cs) : '\n' ∉ line :=
  fun hm => absurd (eq_false_of_mem_splitWhere h _ hm) (by simp)

/-- The last of several lines stands behind a line feed. -/
theorem exists_joinBy_concat {lines : List (List Char)} (last : List Char) (hne : lines ≠ []) :
    ∃ before, joinBy '\n' (lines ++ [last]) = before ++ '\n' :: last := by
  induction lines with
  | nil => exact absurd rfl hne
  | cons line lines ih =>
    cases lines with
    | nil => exact ⟨line, rfl⟩
    | cons next lines =>
      obtain ⟨before, hb⟩ := ih (by simp)
      refine ⟨line ++ '\n' :: before, ?_⟩
      rw [List.cons_append, List.cons_append, joinBy, ← List.cons_append, hb]
      · simp
      · simp

/-- A text ends with a line feed exactly if it has one and its last line is empty. -/
theorem getLast?_eq_lineFeed_iff {lines : List (List Char)} {last : List Char}
    (h : splitLines cs = lines ++ [last]) (hne : lines ≠ []) :
    cs.getLast? = some '\n' ↔ last = [] := by
  obtain ⟨before, hb⟩ := exists_joinBy_concat last hne
  have hcs := joinBy_splitWhere '\n' cs
  rw [← splitLines, h, hb] at hcs
  rw [← hcs]
  cases hlast : last.getLast? with
  | none => simp [List.getLast?_eq_none_iff.1 hlast]
  | some d =>
    have hmem := List.mem_of_getLast? hlast
    have hsplit : last ∈ splitLines cs := by simp [h]
    have hd : d ≠ '\n' := by
      rintro rfl
      exact not_mem_of_mem_splitLines hsplit hmem
    have hnil : last ≠ [] := List.ne_nil_of_mem hmem
    simp [List.getLast?_append, List.getLast?_cons, hlast, hd, hnil]

end ExportLint.Text
