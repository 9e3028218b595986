import ExportLint.Proofs.DroppedDuplicates
import ExportLint.Proofs.Repetitions
import Mathlib.Data.List.Nodup

/-!
# Exports that remain

The exports that are offered to be dropped are those that repeat one before them and are alone on
their line. The first export of a symbol repeats none, so no symbol is lost, however the exports of
several symbols share their lines. What remains has no duplicates exactly if each export that
repeats one is alone on its line.
-/
namespace ExportLint.Rule

variable {c : Context} {file : String} {es : List Export} {d e : Export}

/-- What an export offers to those who import it: a name, for a type or for a value. -/
def symbol (e : Export) : String × Bool := (e.name, e.kind.isTypeLevel)

/-- An export that counts repeats one before it. -/
def Repeats (es : List Export) (e : Export) : Prop :=
  ∃ before after, es = before ++ e :: after ∧ countsAsNamed e = true ∧
    ∃ d ∈ before, countsAsNamed d = true ∧ symbol d = symbol e

/-- An export is the only one that starts on its line. -/
def AloneOnLine (es : List Export) (e : Export) : Prop :=
  ∀ other ∈ es, other.location.startLine = e.location.startLine → other = e

/-- The exports but those with a finding that offers to drop them. -/
def remaining (c : Context) (file : String) (es : List Export) : List Export :=
  es.filter fun e => !(countsAsNamed e && (duplicateFinding? c file es e).any (·.autoFixable))

theorem sameSymbol_iff_symbol_eq : sameSymbol e d = true ↔ symbol d = symbol e := by
  rw [sameSymbol_iff, symbol, symbol, Prod.mk.injEq]
  exact and_congr eq_comm eq_comm

theorem duplicatesOf_congr (h : symbol d = symbol e) : duplicatesOf es d = duplicatesOf es e := by
  have hsame : sameSymbol d = sameSymbol e := by
    funext x
    rw [Bool.eq_iff_iff, sameSymbol_iff_symbol_eq, sameSymbol_iff_symbol_eq, h]
  rw [duplicatesOf, duplicatesOf, hsame]

theorem mem_duplicatesOf : d ∈ duplicatesOf es e ↔
    d ∈ es ∧ countsAsNamed d = true ∧ symbol d = symbol e := by
  rw [mem_duplicatesOf_iff, sameSymbol_iff_symbol_eq]

theorem not_mem_others (hes : es.Nodup) {before after : List Export}
    (hsplit : es = before ++ e :: after) : e ∉ before ++ after := by
  rw [hsplit, List.nodup_middle] at hes
  exact (List.nodup_cons.1 hes).1

/-- Among exports that differ, one repeats another exactly if it is not the first of its
duplicates. -/
theorem repeats_iff (hes : es.Nodup) : Repeats es e ↔
    e ∈ es ∧ countsAsNamed e = true ∧ 0 < (duplicatesOf es e).idxOf e := by
  constructor
  · rintro ⟨before, after, hsplit, hc, hdup⟩
    refine ⟨?_, hc, ?_⟩
    · rw [hsplit]
      exact List.mem_append_right before List.mem_cons_self
    · have hbefore := fun h => not_mem_others hes hsplit (List.mem_append_left after h)
      rw [idxOf_pos_iff hsplit hbefore hc]
      simpa only [sameSymbol_iff_symbol_eq] using hdup
  · rintro ⟨he, hc, hpos⟩
    obtain ⟨before, after, hsplit⟩ := List.append_of_mem he
    have hbefore := fun h => not_mem_others hes hsplit (List.mem_append_left after h)
    rw [idxOf_pos_iff hsplit hbefore hc] at hpos
    exact ⟨before, after, hsplit, hc, by simpa only [sameSymbol_iff_symbol_eq] using hpos⟩

theorem droppable_iff (hes : es.Nodup) : Droppable es e ↔ Repeats es e ∧ AloneOnLine es e := by
  constructor
  · rintro ⟨before, after, hsplit, hc, hdup, halone⟩
    refine ⟨⟨before, after, hsplit, hc, by simpa only [sameSymbol_iff_symbol_eq] using hdup⟩, ?_⟩
    intro other hother hline
    rw [hsplit, List.mem_append, List.mem_cons] at hother
    by_contra hne
    refine halone other (List.mem_append.2 ?_) hline
    exact hother.imp_right fun h => h.resolve_left hne
  · rintro ⟨⟨before, after, hsplit, hc, hdup⟩, halone⟩
    refine ⟨before, after, hsplit, hc, by simpa only [sameSymbol_iff_symbol_eq] using hdup, ?_⟩
    intro other hother hline
    have hmem : other ∈ es := by
      rw [hsplit, List.mem_append, List.mem_cons]
      exact (List.mem_append.1 hother).imp_right .inr
    exact not_mem_others hes hsplit (halone other hmem hline ▸ hother)

theorem mem_remaining_iff : e ∈ remaining c file es ↔ e ∈ es ∧ ¬Droppable es e := by
  rw [remaining, List.mem_filter]
  refine and_congr_right fun he => ?_
  rw [Bool.not_eq_true', Bool.eq_false_iff, ne_eq, not_iff_not, Bool.and_eq_true]
  constructor
  · rintro ⟨hc, hoffer⟩
    obtain ⟨x, hx, hfix⟩ := (Option.any_eq_true _ _).1 hoffer
    exact (exists_fixable_iff he hc).1 ⟨x, hx, hfix⟩
  · intro hdrop
    have hc : countsAsNamed e = true := by
      obtain ⟨-, -, -, hc, -⟩ := hdrop
      exact hc
    obtain ⟨x, hx, hfix⟩ : ∃ x, duplicateFinding? c file es e = some x ∧ x.autoFixable = true :=
      (exists_fixable_iff he hc).2 hdrop
    exact ⟨hc, (Option.any_eq_true _ _).2 ⟨x, hx, hfix⟩⟩

/-- The first export of a symbol repeats none, and so it remains. -/
theorem exists_first (hes : es.Nodup) (he : e ∈ es) (hc : countsAsNamed e = true) :
    ∃ d ∈ remaining c file es, d ∈ duplicatesOf es e ∧ ¬Repeats es d := by
  have hmem : e ∈ duplicatesOf es e := mem_duplicatesOf.2 ⟨he, hc, rfl⟩
  obtain ⟨d, ds, hds⟩ := List.exists_cons_of_ne_nil (List.ne_nil_of_mem hmem)
  have hd : d ∈ duplicatesOf es e := hds ▸ List.mem_cons_self
  obtain ⟨hdes, -, hsymbol⟩ := mem_duplicatesOf.1 hd
  have hfirst : ¬Repeats es d := by
    rw [repeats_iff hes, duplicatesOf_congr hsymbol, hds, List.idxOf_cons_self]
    exact fun h => Nat.lt_irrefl 0 h.2.2
  exact ⟨d, mem_remaining_iff.2 ⟨hdes, fun h => hfirst ((droppable_iff hes).1 h).1⟩, hd, hfirst⟩

/-- Duplicates of an export that repeat none are the same export. -/
theorem eq_of_not_repeats (hes : es.Nodup) (he : e ∈ es) (hc : countsAsNamed e = true)
    (hd : d ∈ duplicatesOf es e) (hfirst : ¬Repeats es e) (hfirst' : ¬Repeats es d) : d = e := by
  obtain ⟨hdes, hdc, hsymbol⟩ := mem_duplicatesOf.1 hd
  rw [repeats_iff hes] at hfirst hfirst'
  rw [duplicatesOf_congr hsymbol] at hfirst'
  have hzero : (duplicatesOf es e).idxOf e = 0 :=
    Nat.eq_zero_of_not_pos fun h => hfirst ⟨he, hc, h⟩
  have hzero' : (duplicatesOf es e).idxOf d = 0 :=
    Nat.eq_zero_of_not_pos fun h => hfirst' ⟨hdes, hdc, h⟩
  exact (List.idxOf_inj hd).1 (hzero'.trans hzero.symm)

theorem duplicateFinding?_eq_none_iff :
    duplicateFinding? c file es e = none ↔ (duplicatesOf es e).length < 2 := by
  simp only [duplicateFinding?, duplicatesOf]
  split
  · rename_i h
    exact iff_of_true rfl h
  · rename_i h
    exact iff_of_false (by simp) h

/-- Nothing is reported on exports that differ exactly if each is the only one of its symbol. -/
theorem reports_nothing_iff (hes : es.Nodup) : namesAreExportedOnce c file es = .ok [] ↔
    ∀ e ∈ es, countsAsNamed e = true → ∀ d ∈ duplicatesOf es e, d = e := by
  simp only [namesAreExportedOnce, Except.ok.injEq, List.filterMap_eq_nil_iff, List.mem_filter,
    and_imp, duplicateFinding?_eq_none_iff]
  refine forall₃_congr fun e he hc => ?_
  have hmem : e ∈ duplicatesOf es e := mem_duplicatesOf.2 ⟨he, hc, rfl⟩
  exact length_lt_two_iff ((hes.filter _).filter _) hmem

/-- The exports that remain when all that are offered to be dropped are dropped, of exports that
differ: they export the same symbols, each export that is dropped was alone on its line, and nothing
is reported on them exactly if each export that repeats one before it was alone on its line. -/
theorem remaining_exports_iff (c : Context) (file : String) (hes : es.Nodup) :
    (∀ s, s ∈ (remaining c file es).map symbol ↔ s ∈ es.map symbol) ∧
      (∀ e ∈ es, e ∉ remaining c file es → AloneOnLine es e) ∧
      (namesAreExportedOnce c file (remaining c file es) = .ok [] ↔
        ∀ e, Repeats es e → AloneOnLine es e) := by
  have hdropped : ∀ e ∈ es, e ∉ remaining c file es → Repeats es e ∧ AloneOnLine es e := by
    intro e he hout
    rw [mem_remaining_iff, not_and_not_right] at hout
    exact (droppable_iff hes).1 (hout he)
  have hduplicates (d e : Export) : d ∈ duplicatesOf (remaining c file es) e ↔
      d ∈ remaining c file es ∧ d ∈ duplicatesOf es e := by
    rw [mem_duplicatesOf, mem_duplicatesOf, mem_remaining_iff]
    tauto
  refine ⟨fun s => ⟨?_, ?_⟩, fun e he hout => (hdropped e he hout).2, ?_⟩
  · rintro hs
    obtain ⟨e, he, rfl⟩ := List.mem_map.1 hs
    exact List.mem_map_of_mem (mem_remaining_iff.1 he).1
  · rintro hs
    obtain ⟨e, he, rfl⟩ := List.mem_map.1 hs
    by_cases hin : e ∈ remaining c file es
    · exact List.mem_map_of_mem hin
    · obtain ⟨-, -, -, hc, -⟩ := (hdropped e he hin).1
      obtain ⟨d, hd, hdup, -⟩ := exists_first hes he hc
      exact List.mem_map.2 ⟨d, hd, (mem_duplicatesOf.1 hdup).2.2⟩
  · have hnodup : (remaining c file es).Nodup := hes.filter _
    rw [reports_nothing_iff hnodup]
    constructor
    · -- An export that repeats one and is not alone on its line remains, beside the first one.
      intro hnone e hrepeats
      obtain ⟨he, hc, -⟩ := (repeats_iff hes).1 hrepeats
      by_contra hshares
      have hin : e ∈ remaining c file es :=
        mem_remaining_iff.2 ⟨he, fun h => hshares ((droppable_iff hes).1 h).2⟩
      obtain ⟨d, hd, hdup, hfirst⟩ := exists_first hes he hc
      have heq := hnone e hin hc d ((hduplicates d e).2 ⟨hd, hdup⟩)
      exact hfirst (heq ▸ hrepeats)
    · intro halone e he hc d hd
      have hfirst : ∀ e ∈ remaining c file es, ¬Repeats es e := fun e he hrepeats =>
        (mem_remaining_iff.1 he).2 ((droppable_iff hes).2 ⟨hrepeats, halone e hrepeats⟩)
      obtain ⟨hdin, hdup⟩ := (hduplicates d e).1 hd
      exact eq_of_not_repeats hes (mem_remaining_iff.1 he).1 hc hdup (hfirst e he) (hfirst d hdin)

/-- An export of a constant on a line. -/
def constantOn (line : Int) (name : String) : Export where
  file := "a.ts"
  name
  form := .named
  location := ⟨"a.ts", line, 14, line, 19⟩

/-- Two names that are exported twice. One of them shares its first line with another name. -/
def twiceExported : List Export :=
  [constantOn 1 "a", constantOn 2 "b", constantOn 2 "c", constantOn 3 "a", constantOn 4 "b"]

/-- The second exports are dropped, no symbol is lost, and no duplicates remain. -/
theorem twice_exported_mended : twiceExported.Nodup ∧
    remaining appContext "a.ts" twiceExported =
      [constantOn 1 "a", constantOn 2 "b", constantOn 2 "c"] ∧
    (∀ s, s ∈ (remaining appContext "a.ts" twiceExported).map symbol ↔
      s ∈ twiceExported.map symbol) ∧
    namesAreExportedOnce appContext "a.ts" (remaining appContext "a.ts" twiceExported) =
      .ok [] := by
  have hes : twiceExported.Nodup := by decide
  have hremaining : remaining appContext "a.ts" twiceExported =
      [constantOn 1 "a", constantOn 2 "b", constantOn 2 "c"] := by decide +kernel
  have halone : ∀ e ∈ twiceExported, countsAsNamed e = true →
      0 < (duplicatesOf twiceExported e).idxOf e → ∀ other ∈ twiceExported,
        other.location.startLine = e.location.startLine → other = e := by decide +kernel
  obtain ⟨hsymbols, -, hnone⟩ := remaining_exports_iff appContext "a.ts" hes
  refine ⟨hes, hremaining, hsymbols, hnone.2 fun e hrepeats => ?_⟩
  obtain ⟨he, hc, hpos⟩ := (repeats_iff hes).1 hrepeats
  exact halone e he hc hpos

end ExportLint.Rule
