import ExportLint.Proofs.LineEnds
import ExportLint.Proofs.ProposedEdits

/-!
# The ends of edited lines

A line of a file ends in a carriage return or it does not. An edit that changes a line keeps what
the line ends in, and a line that is added to a file ends like the first one of the file. All of
this is under the condition that the names to be written hold no line ends themselves.
-/
namespace ExportLint

namespace Text

/-- A text that no character of ends a line. -/
def Unbroken (cs : List Char) : Prop := '\r' ∉ cs ∧ '\n' ∉ cs

instance (cs : List Char) : Decidable (Unbroken cs) :=
  inferInstanceAs (Decidable (_ ∧ _))

/-- What is left of the end of a line once it is split off at its line feed. -/
def returnIf : Bool → List Char
  | true => ['\r']
  | false => []

/-- A line that ends in a carriage return, or does not, and holds no further line end. -/
def HasEnd (ended : Bool) (line : List Char) : Prop :=
  ∃ body, line = body ++ returnIf ended ∧ Unbroken body

variable {cs ds : List Char} {ended : Bool}

@[simp] theorem unbroken_nil : Unbroken [] := by simp [Unbroken]

@[simp] theorem unbroken_append : Unbroken (cs ++ ds) ↔ Unbroken cs ∧ Unbroken ds := by
  simp only [Unbroken, List.mem_append, not_or]
  exact and_and_and_comm

theorem Unbroken.mono (h : Unbroken ds) (hs : cs ⊆ ds) : Unbroken cs :=
  ⟨fun hm => h.1 (hs hm), fun hm => h.2 (hs hm)⟩

theorem hasEnd_false_iff : HasEnd false cs ↔ Unbroken cs := by
  simp [HasEnd, returnIf]

theorem Unbroken.hasEnd (h : Unbroken cs) (ended : Bool) : HasEnd ended (cs ++ returnIf ended) :=
  ⟨cs, rfl, h⟩

theorem HasEnd.lineFeed_not_mem (h : HasEnd ended cs) : '\n' ∉ cs := by
  obtain ⟨body, rfl, hbody⟩ := h
  cases ended <;> simp [returnIf, hbody.2]

theorem HasEnd.isEnded (h : HasEnd true cs) : IsEnded cs := by
  obtain ⟨body, rfl, hbody⟩ := h
  exact ⟨body, rfl, hbody.1⟩

theorem hasEnd_of_isEnded (h : IsEnded cs) (hn : '\n' ∉ cs) : HasEnd true cs := by
  obtain ⟨body, rfl, hbody⟩ := h
  exact ⟨body, rfl, hbody, fun hm => hn (List.mem_append_left _ hm)⟩

/-- A line has one of the two ends only. -/
theorem HasEnd.ne (h : HasEnd true cs) (h' : HasEnd false ds) : cs ≠ ds := by
  rintro rfl
  exact (hasEnd_false_iff.1 h').1 h.isEnded.mem

theorem getLast?_eq_return_iff (h : HasEnd ended cs) : cs.getLast? = some '\r' ↔ ended = true := by
  obtain ⟨body, rfl, hbody⟩ := h
  cases ended with
  | true => simp [returnIf]
  | false =>
    simp only [returnIf, List.append_nil, Bool.false_eq_true, iff_false]
    exact fun hl => hbody.1 (List.mem_of_getLast? hl)

theorem dropTrailing_append_returnIf (h : Unbroken cs) (ended : Bool) :
    dropTrailing '\r' (cs ++ returnIf ended) = cs := by
  have hkeep : (cs.reverse.dropWhile (· == '\r')) = cs.reverse := by
    cases hr : cs.reverse with
    | nil => rfl
    | cons d ds =>
      have hd : d ∈ cs := by
        rw [← List.mem_reverse, hr]
        exact List.mem_cons_self
      rw [List.dropWhile_cons_of_neg]
      rw [beq_iff_eq]
      rintro rfl
      exact h.1 hd
  cases ended <;> simp [dropTrailing, returnIf, hkeep]

theorem trim_subset (cs : List Char) : trim cs ⊆ cs := by
  intro c hc
  have hleft : c ∈ trimLeft cs := by
    rw [trim, trimRight, List.mem_reverse] at hc
    exact List.mem_reverse.1 ((List.dropWhile_suffix _).subset hc)
  exact (List.dropWhile_suffix _).subset hleft

theorem subset_of_mem_splitWhere {p : Char → Bool} {piece : List Char}
    (h : piece ∈ splitWhere p cs) : piece ⊆ cs := by
  induction cs generalizing piece with
  | nil =>
    rw [splitWhere, List.mem_singleton] at h
    rw [h]
    exact List.nil_subset _
  | cons c cs ih =>
    simp only [splitWhere] at h
    split at h
    · rcases List.mem_cons.1 h with rfl | h
      · exact List.nil_subset _
      · exact List.subset_cons_of_subset c (ih h)
    · cases hs : splitWhere p cs with
      | nil => exact absurd hs (splitWhere_ne_nil p cs)
      | cons first rest =>
        rw [hs] at ih
        rw [hs] at h
        rcases List.mem_cons.1 h with rfl | h
        · exact List.cons_subset_cons c (ih List.mem_cons_self)
        · exact List.subset_cons_of_subset c (ih (List.mem_cons_of_mem first h))

end Text

namespace Fix

open Text

section Renaming

variable {old new line : List Char} {ended : Bool}

/-- A name is replaced in one place, if at all. -/
theorem Replacement.replaceFirst_eq (old new : List Char) (before : Option Char)
    (line : List Char) :
    replaceFirst old new before line = line ∨ ∃ front back, line = front ++ old ++ back ∧
      replaceFirst old new before line = front ++ new ++ back := by
  induction line generalizing before with
  | nil => exact .inl rfl
  | cons c cs ih =>
    rw [replaceFirst]
    split
    · rename_i hhere
      simp only [Bool.and_eq_true, List.isPrefixOf_iff_prefix] at hhere
      obtain ⟨back, hback⟩ := hhere.1.2
      refine .inr ⟨[], back, hback.symm, ?_⟩
      rw [← hback, List.drop_left, List.nil_append]
    · rcases ih (some c) with hsame | ⟨front, back, hline, hnew⟩
      · exact .inl (by rw [hsame])
      · exact .inr ⟨c :: front, back, by rw [hline]; rfl, by rw [hnew]; rfl⟩

/-- A line whose name is replaced keeps its end. -/
theorem hasEnd_replaceFirst (hne : old ≠ []) (hold : Unbroken old) (hnew : Unbroken new)
    (h : HasEnd ended line) : HasEnd ended (Replacement.replaceFirst old new none line) := by
  rcases Replacement.replaceFirst_eq old new none line with hsame | ⟨front, back, hline, heq⟩
  · rwa [hsame]
  · obtain ⟨body, hbody, hplain⟩ := h
    -- The end of the line stands behind the name, for the name holds none.
    have hbehind : ∃ rest, back = rest ++ returnIf ended := by
      cases ended with
      | false => exact ⟨back, (List.append_nil back).symm⟩
      | true =>
        rcases List.eq_nil_or_concat back with rfl | ⟨rest, c, rfl⟩
        · have hlast : (front ++ old).getLast? = some '\r' := by
            rw [List.append_nil] at hline
            rw [← hline, hbody, returnIf, List.getLast?_concat]
          obtain ⟨start, d, rfl⟩ := (List.eq_nil_or_concat old).resolve_left hne
          rw [List.concat_eq_append, ← List.append_assoc, List.getLast?_concat] at hlast
          cases hlast
          exact absurd (by simp) hold.1
        · have hlast := congrArg List.getLast? (hline.symm.trans hbody)
          rw [List.concat_eq_append, ← List.append_assoc, List.getLast?_concat, returnIf,
            List.getLast?_concat] at hlast
          cases hlast
          exact ⟨rest, List.concat_eq_append⟩
    obtain ⟨rest, rfl⟩ := hbehind
    have hsplit : body = front ++ old ++ rest := by
      rw [hbody, ← List.append_assoc] at hline
      exact List.append_cancel_right hline
    rw [hsplit, unbroken_append, unbroken_append] at hplain
    refine ⟨front ++ new ++ rest, by rw [heq, List.append_assoc _ rest], ?_⟩
    rw [unbroken_append, unbroken_append]
    exact ⟨⟨hplain.1.1, hnew⟩, hplain.2⟩

end Renaming

section Tidying

/-- A clause that can be written on one line. -/
structure Clause.Unbroken (c : Clause) : Prop where
  indent : Text.Unbroken c.indent
  specifiers : ∀ s ∈ c.specifiers, Text.Unbroken s
  rest : Text.Unbroken c.rest

namespace Clause

variable {cs : List Char} {c : Clause} {ended : Bool}

theorem behind?_suffix {lead rest : List Char} (h : behind? lead cs = some rest) : rest <:+ cs := by
  rw [behind?] at h
  split at h
  · cases h
    exact List.drop_suffix _ _
  · cases h

theorem readKind?_suffix {k : ClauseKind} {rest : List Char} (h : readKind? cs = some (k, rest)) :
    rest <:+ cs := by
  simp only [readKind?, Option.or_eq_some_iff, Option.map_eq_some_iff, Prod.mk.injEq] at h
  rcases h with ⟨rest', h, -, rfl⟩ | ⟨-, rest', h, -, rfl⟩ <;> exact behind?_suffix h

theorem readType_suffix (cs : List Char) : (readType cs).2 <:+ cs := by
  cases cs with
  | nil => exact List.suffix_refl _
  | cons c cs =>
    simp only [readType]
    split
    · split
      · rename_i rest hrest
        exact (behind?_suffix hrest).trans (List.dropWhile_suffix _)
      · exact List.suffix_refl _
    · exact List.suffix_refl _

theorem subset_of_mem_specifiersOf {body s : List Char} (h : s ∈ specifiersOf body) :
    s ⊆ body := by
  obtain ⟨piece, hpiece, rfl⟩ := List.mem_map.1 (List.mem_filter.1 h).1
  exact List.Subset.trans (trim_subset piece) (subset_of_mem_splitWhere hpiece)

/-- The clause of a line is made of what stands before the end of the line. -/
theorem unbroken_of_read? {body : List Char} (hbody : Text.Unbroken body)
    (h : read? (body ++ returnIf ended) = some c) :
    c.Unbroken ∧ c.ending = returnIf ended := by
  simp only [read?, dropTrailing_append_returnIf hbody, Option.bind_eq_bind,
    Option.bind_eq_some_iff, Option.pure_def, Option.some.injEq] at h
  obtain ⟨⟨k, afterKind⟩, hkind, inside, hinside, after, hafter, -, -, rfl⟩ := h
  have hkept : afterKind ⊆ body :=
    ((readKind?_suffix hkind).trans (List.dropWhile_suffix _)).subset
  have hin : inside ⊆ body := List.Subset.trans ((behind?_suffix hinside).trans
    ((List.dropWhile_suffix _).trans (readType_suffix afterKind))).subset hkept
  have haft : after ⊆ body := List.Subset.trans
    ((behind?_suffix hafter).trans (List.dropWhile_suffix _)).subset hin
  refine ⟨⟨?_, fun s hs => ?_, ?_⟩, List.drop_left⟩
  · exact hbody.mono (List.takeWhile_prefix _).subset
  · exact hbody.mono (List.Subset.trans (subset_of_mem_specifiersOf hs)
      (List.Subset.trans (List.takeWhile_prefix _).subset hin))
  · exact hbody.mono (List.Subset.trans (trim_subset _)
      (List.Subset.trans (List.takeWhile_prefix _).subset haft))

theorem plain_subset (s : List Char) : plain s ⊆ s := by
  rw [plain]
  split
  · rename_i c cs hcs
    split
    · exact ((List.dropWhile_suffix _).trans (behind?_suffix hcs)).subset
    · exact List.Subset.refl s
  · exact List.Subset.refl s

theorem Unbroken.withType (h : c.Unbroken) (typeOnly : Bool) : (c.withType typeOnly).Unbroken := by
  refine ⟨h.indent, ?_, h.rest⟩
  cases typeOnly with
  | false => exact h.specifiers
  | true =>
    intro s hs
    obtain ⟨s', hs', rfl⟩ := List.mem_map.1 hs
    exact (h.specifiers s' hs').mono (plain_subset s')

theorem Unbroken.sorted (h : c.Unbroken) : c.sorted.Unbroken :=
  ⟨h.indent, fun s hs => h.specifiers s (List.mem_mergeSort.1 hs), h.rest⟩

theorem unbroken_renderBody {ss : List (List Char)} (h : ∀ s ∈ ss, Text.Unbroken s) :
    Text.Unbroken (renderBody ss) := by
  have hjoin : Text.Unbroken ([',', ' '].intercalate ss) := by
    induction ss with
    | nil => exact unbroken_nil
    | cons s ss ih =>
      have hs := h s List.mem_cons_self
      have hss := ih fun s' hs' => h s' (List.mem_cons_of_mem s hs')
      cases ss with
      | nil => simpa [List.intercalate] using hs
      | cons next ss =>
        rw [List.intercalate_cons_cons, unbroken_append, unbroken_append]
        exact ⟨⟨hs, by decide⟩, hss⟩
  cases ss with
  | nil => decide
  | cons s ss =>
    rw [renderBody.eq_2 _ (by simp), unbroken_append, unbroken_append]
    exact ⟨⟨by decide, hjoin⟩, by decide⟩

theorem unbroken_renderRest {rest : List Char} (h : Text.Unbroken rest) :
    Text.Unbroken (renderRest rest) := by
  rw [renderRest.eq_def]
  split
  · exact unbroken_nil
  · exact h
  · rw [← List.singleton_append, unbroken_append]
    exact ⟨by decide, h⟩

/-- A clause that is written out has the end of its line. -/
theorem Unbroken.hasEnd_render (h : c.Unbroken) (he : c.ending = returnIf ended) :
    HasEnd ended c.render := by
  rw [render, he]
  apply Text.Unbroken.hasEnd
  rw [← List.singleton_append (l := renderBody c.specifiers)]
  simp only [unbroken_append]
  refine ⟨⟨⟨⟨h.indent, ?_⟩, ?_⟩, by decide, unbroken_renderBody h.specifiers⟩,
    unbroken_renderRest h.rest⟩
  · cases c.kind <;> decide
  · cases c.typeOnly <;> decide

end Clause

/-- A line whose clause is tidied keeps its end. -/
theorem hasEnd_tidyClause {sort ended : Bool} {typeOnly : Option Bool} {x text : String}
    (h : tidyClause sort typeOnly x = some text) (hx : HasEnd ended x.toList) :
    HasEnd ended text.toList := by
  obtain ⟨c, hread, rfl⟩ := Option.map_eq_some_iff.1 h
  obtain ⟨body, hbody, hplain⟩ := hx
  rw [hbody] at hread
  obtain ⟨hc, hending⟩ := Clause.unbroken_of_read? hplain hread
  have htyped := hc.withType (typeOnly.getD c.typeOnly)
  rw [String.toList_ofList]
  split
  · exact htyped.sorted.hasEnd_render hending
  · exact htyped.hasEnd_render hending

end Tidying

/-- The names that an issue tells are on one line, and the one that it suggests holds no
backslashes. -/
structure PlainNames (i : Issue) : Prop where
  name : ∀ v, i.metadata.get? "exportName" = some v → Unbroken v.display.toList
  suggested : ∀ s, i.metadata.get? "suggestedName" = some (.str s) →
    Unbroken s.toList ∧ '\\' ∉ s.toList

section Proposed

variable {c : Conventions} {lines : List String} {i : Issue} {e : Edit}

theorem get?_of_given? {key : String} {v : Json} (h : given? i key = some v) :
    i.metadata.get? key = some v ∧ v.isTruthy = true :=
  Option.filter_eq_some_iff.1 h

/-- A new name is one that is suggested, or the old one in some style. -/
theorem newName_cases {old new : String} (h : newName c i (.str old) = .ok (.str new)) :
    i.metadata.get? "suggestedName" = some (.str new) ∨ ∃ style : CaseStyle,
      new = style.apply old := by
  rw [newName] at h
  split at h
  · rename_i v hv
    cases h
    exact .inl (get?_of_given? hv).1
  · right
    dsimp only at h
    split at h
    · obtain ⟨style, -, h⟩ := bind_eq_ok_iff.1 h
      cases h
      exact ⟨style, rfl⟩
    · cases h
      exact ⟨c.functions.style, rfl⟩

/-- A new name is on one line, and stands for itself. -/
theorem unbroken_newName {old new : String} (hi : PlainNames i)
    (h : newName c i (.str old) = .ok (.str new)) (hne : new ≠ old) :
    Unbroken new.toList ∧ '\\' ∉ new.toList := by
  rcases newName_cases h with hs | ⟨style, rfl⟩
  · exact hi.suggested new hs
  · have hstyled := (style.apply_eq_or_isStyled old).resolve_left hne
    have hfree {d : Char} (hd : Naming.isStyled d = false) : d ∉ (style.apply old).toList := by
      intro hm
      rw [hstyled d hm] at hd
      cases hd
    exact ⟨⟨hfree (by decide), hfree (by decide)⟩, hfree (by decide)⟩

/-- An edit that is aimed at a line, and does not drop it, keeps its end. -/
theorem EditFor.hasEnd_text (h : EditFor c lines i e) (hi : PlainNames i)
    (hkeeps : e.kind ≠ .remove) {x : String} {ended : Bool} (hx : e.expected = some x)
    (hended : HasEnd ended x.toList) : HasEnd ended e.text.toList := by
  cases h with
  | @rename n y old new text at_ tells suggests changes expands kind line expected replaces =>
    rw [expected, Option.some.injEq] at hx
    subst hx
    obtain ⟨hplain, hslash⟩ := unbroken_newName hi suggests changes
    rw [Replacement.expand_eq hslash, Except.ok.injEq] at expands
    subst expands
    obtain ⟨hname, htruthy⟩ := get?_of_given? tells
    have hold : old.toList ≠ [] := by
      intro hnil
      rw [String.toList_eq_nil_iff] at hnil
      subst hnil
      cases htruthy
    rw [replaces, String.toList_ofList]
    exact hasEnd_replaceFirst hold (hi.name _ hname) hplain hended
  | remove at_ kind line expected => exact absurd kind hkeeps
  | add tells names kind line expected inserts =>
    rw [expected] at hx
    cases hx
  | tidy at_ kind line expected tidies =>
    rw [expected, Option.some.injEq] at hx
    subst hx
    exact hasEnd_tidyClause tidies hended

/-- A line that is added ends like the first one of the file. -/
theorem EditFor.hasEnd_added (h : EditFor c lines i e) (hi : PlainNames i) (hk : e.kind = .add)
    {first : String} {ended : Bool} (hf : lines.head? = some first)
    (hended : HasEnd ended first.toList) : HasEnd ended e.text.toList := by
  cases h with
  | add tells names kind line expected inserts =>
    rename_i name statement
    have hname := hi.name _ (get?_of_given? tells).1
    have hstatement : Unbroken statement.toList := by
      rcases names with rfl | rfl <;> simp only [String.toList_append, unbroken_append] <;>
        exact ⟨⟨by decide, hname⟩, by decide⟩
    obtain ⟨rest, rfl⟩ := List.head?_eq_some_iff.1 hf
    have hlast := getLast?_eq_return_iff hended
    rw [inserts, withEndingOf]
    cases ended with
    | true =>
      rw [if_pos (hlast.2 rfl), String.toList_append]
      exact hstatement.hasEnd true
    | false =>
      rw [if_neg fun h => Bool.false_ne_true (hlast.1 h)]
      exact hasEnd_false_iff.2 hstatement
  | rename at_ tells suggests changes expands kind =>
    rw [kind] at hk
    cases hk
  | remove at_ kind =>
    rw [kind] at hk
    cases hk
  | tidy at_ kind => rcases kind with kind | kind <;> simp [kind] at hk

end Proposed

end Fix

end ExportLint
