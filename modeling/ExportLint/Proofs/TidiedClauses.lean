import ExportLint.Proofs.EditedLineEnds
import ExportLint.Proofs.PathTexts
import Mathlib.Algebra.Order.BigOperators.Group.List
import Mathlib.Algebra.Order.Ring.Nat
import Mathlib.Data.List.TakeWhile

/-!
# Clauses tidied again

A clause that is written out is read back as it is, so a tidy line only changes if its specifiers
do. Sorted specifiers stay sorted. Under the word for types each specifier loses a word for types in
front of it, and it loses another one the next time: a line that is tidied stays as it is exactly if
no specifier of a clause of types starts with that word twice.
-/
namespace ExportLint

namespace Text

open Letter (isBlank)

variable {cs lead trail : List Char} {c : Char}

/-- No blank stands at an end. -/
structure Trimmed (cs : List Char) : Prop where
  head : ∀ c ∈ cs.head?, isBlank c = false
  last : ∀ c ∈ cs.getLast?, isBlank c = false

theorem trimLeft_of_head (h : ∀ c ∈ cs.head?, isBlank c = false) : trimLeft cs = cs := by
  cases cs with
  | nil => rfl
  | cons c cs =>
    have hc : ¬isBlank c = true := by simp [h c rfl]
    exact List.dropWhile_cons_of_neg hc

theorem head_trimLeft : ∀ c ∈ (trimLeft cs).head?, isBlank c = false := by
  intro c hc
  have hall := List.head?_dropWhile_not isBlank cs
  rw [trimLeft, Option.mem_def] at hc
  rw [hc] at hall
  simpa using hall

theorem blank_space : ∀ c ∈ [' '], isBlank c = true := List.forall_mem_singleton.2 rfl

theorem trimLeft_append (h : ∀ c ∈ lead, isBlank c = true) :
    trimLeft (lead ++ cs) = trimLeft cs :=
  List.dropWhile_append_of_pos h

theorem trimRight_eq (cs : List Char) : trimRight cs = (trimLeft cs.reverse).reverse := rfl

theorem trimRight_prefix (cs : List Char) : trimRight cs <+: cs := by
  rw [trimRight_eq, ← List.reverse_suffix, List.reverse_reverse]
  exact List.dropWhile_suffix _

theorem trimmed_trim (cs : List Char) : Trimmed (trim cs) where
  head := by
    intro c hc
    obtain ⟨behind, hbehind⟩ := trimRight_prefix (trimLeft cs)
    have hhead := head_trimLeft c (show c ∈ (trimLeft cs).head? by
      rw [← hbehind, List.head?_append]
      rw [Option.mem_def, trim] at hc
      rw [hc]
      rfl)
    exact hhead
  last := by
    rw [trim, trimRight_eq, List.getLast?_reverse]
    exact head_trimLeft

/-- Blanks around a text are trimmed away, and nothing else. -/
theorem trim_surrounded (lead trail : List Char) (h : Trimmed cs)
    (hlead : ∀ c ∈ lead, isBlank c = true) (htrail : ∀ c ∈ trail, isBlank c = true) :
    trim (lead ++ (cs ++ trail)) = cs := by
  have hright : trimRight (cs ++ trail) = cs := by
    rw [trimRight_eq, List.reverse_append, trimLeft_append (by simpa using htrail),
      trimLeft_of_head (by simpa using h.last), List.reverse_reverse]
  rw [trim, trimLeft_append hlead]
  cases cs with
  | nil =>
    have hnone : trimLeft trail = [] := List.dropWhile_eq_nil_iff.2 htrail
    rw [List.nil_append, hnone]
    rfl
  | cons c cs => rw [trimLeft_of_head (by simpa using h.head), hright]

theorem dropTrailing_append (hlast : c ∉ cs.getLast?) (htrail : ∀ d ∈ trail, d = c) :
    dropTrailing c (cs ++ trail) = cs := by
  have hall : ∀ d ∈ trail.reverse, (d == c) = true := fun d hd =>
    beq_iff_eq.2 (htrail d (List.mem_reverse.1 hd))
  rw [dropTrailing, List.reverse_append, List.dropWhile_append_of_pos hall]
  cases hr : cs.reverse with
  | nil => exact (List.reverse_eq_nil_iff.1 hr).symm
  | cons d ds =>
    have hd : (d == c) = false := by
      rw [← List.head?_reverse, hr, List.head?_cons] at hlast
      exact beq_eq_false_iff_ne.2 fun h => hlast (congrArg some h)
    rw [List.dropWhile_cons_of_neg (by simp [hd]), ← hr, List.reverse_reverse]

/-- What is dropped from the end is all the same. -/
theorem eq_of_mem_drop_dropTrailing {d : Char} (h : d ∈ cs.drop (dropTrailing c cs).length) :
    d = c := by
  have hsplit : dropTrailing c cs ++ (cs.reverse.takeWhile (· == c)).reverse = cs := by
    rw [dropTrailing, ← List.reverse_append, List.takeWhile_append_dropWhile, List.reverse_reverse]
  have hdrop := calc
    cs.drop (dropTrailing c cs).length
      = (dropTrailing c cs ++ (cs.reverse.takeWhile (· == c)).reverse).drop
          (dropTrailing c cs).length := by rw [hsplit]
    _ = (cs.reverse.takeWhile (· == c)).reverse := List.drop_left
  rw [hdrop, List.mem_reverse] at h
  have hd := List.mem_takeWhile_imp h
  exact beq_iff_eq.1 hd

end Text

namespace Fix

open Text
open Text.Letter (isBlank)

namespace Clause

variable {c : Clause} {s cs : List Char}

/-- A specifier as it is read: without blanks around it, commas and braces. -/
structure IsSpecifier (s : List Char) : Prop where
  not_empty : s ≠ []
  trimmed : Trimmed s
  comma : ',' ∉ s
  brace : ∀ d ∈ s, isBrace d = false

/-- A clause as it is read. -/
structure Tidy (c : Clause) : Prop where
  indent : ∀ d ∈ c.indent, isBlank d = true
  specifiers : ∀ s ∈ c.specifiers, IsSpecifier s
  rest : Trimmed c.rest
  line : '\n' ∉ c.rest
  ending : ∀ d ∈ c.ending, d = '\r'

theorem isSpecifier_of_mem_specifiersOf {body : List Char} (hbody : ∀ d ∈ body, isBrace d = false)
    (h : s ∈ specifiersOf body) : IsSpecifier s := by
  have hsubset := subset_of_mem_specifiersOf h
  obtain ⟨hmem, hne⟩ := List.mem_filter.1 h
  obtain ⟨piece, hpiece, rfl⟩ := List.mem_map.1 hmem
  refine ⟨by simpa using hne, trimmed_trim piece, fun hcomma => ?_,
    fun d hd => hbody d (hsubset hd)⟩
  have := eq_false_of_mem_splitWhere hpiece ',' (trim_subset piece hcomma)
  simp at this

theorem tidy_of_read? (h : read? cs = some c) : c.Tidy := by
  simp only [read?, Option.bind_eq_bind, Option.bind_eq_some_iff, Option.pure_def,
    Option.some.injEq] at h
  obtain ⟨⟨k, afterKind⟩, -, inside, -, after, -, -, -, rfl⟩ := h
  refine ⟨fun d hd => List.mem_takeWhile_imp hd, fun s hs => ?_, trimmed_trim _, fun hline => ?_,
    fun d hd => eq_of_mem_drop_dropTrailing hd⟩
  · refine isSpecifier_of_mem_specifiersOf (fun d hd => ?_) hs
    simpa using List.mem_takeWhile_imp hd
  · have := List.mem_takeWhile_imp (trim_subset _ hline)
    simp at this

@[simp] theorem behind?_append (lead cs : List Char) : behind? lead (lead ++ cs) = some cs := by
  simp [behind?]

@[simp] theorem readKind?_keyword (k : ClauseKind) (cs : List Char) :
    readKind? (keyword k ++ cs) = some (k, cs) := by
  cases k with
  | exporting => rw [readKind?, behind?_append]; rfl
  | importing =>
    have hnone : behind? (keyword .exporting) (keyword .importing ++ cs) = none := rfl
    rw [readKind?, behind?_append, hnone]
    rfl

/-- What stands between a keyword and the brace, the blank in front of the brace included. -/
def typePart (typeOnly : Bool) : List Char := (if typeOnly then ' ' :: typeWord else []) ++ [' ']

theorem dropWhile_typeWord (cs : List Char) : (typeWord ++ cs).dropWhile isBlank = typeWord ++ cs :=
  List.dropWhile_cons_of_neg (by decide)

@[simp] theorem readType_typePart (typeOnly : Bool) (cs : List Char) :
    readType (typePart typeOnly ++ '\x7b' :: cs) = (typeOnly, ' ' :: '\x7b' :: cs) := by
  have hblank : isBlank ' ' = true := rfl
  have hbrace : isBlank '\x7b' = false := rfl
  cases typeOnly with
  | true => simp [typePart, readType, hblank, dropWhile_typeWord]
  | false => simp [typePart, readType, hblank, hbrace, behind?, typeWord]

/-- What stands between the braces of a clause. -/
def inside : List (List Char) → List Char
  | [] => []
  | ss => ' ' :: ([',', ' '].intercalate ss ++ [' '])

theorem renderBody_eq (ss : List (List Char)) :
    renderBody ss = '\x7b' :: (inside ss ++ ['\x7d']) := by
  cases ss with
  | nil => rfl
  | cons s ss => simp [renderBody, inside]

theorem inside_singleton (s : List Char) : inside [s] = ' ' :: (s ++ [' ']) := by
  simp [inside, List.intercalate]

theorem inside_cons_cons (s next : List Char) (ss : List (List Char)) :
    inside (s :: next :: ss) = ' ' :: s ++ ',' :: inside (next :: ss) := by
  simp [inside, List.intercalate_cons_cons]

theorem specifiersOf_comma (h : ',' ∉ s) (cs : List Char) :
    specifiersOf (s ++ ',' :: cs) = specifiersOf s ++ specifiersOf cs := by
  have hs : ∀ d ∈ s, (d == ',') = false := fun d hd => by
    rw [beq_eq_false_iff_ne]
    exact fun heq => h (heq ▸ hd)
  simp only [specifiersOf, splitWhere_append hs (show (',' == ',') = true by decide),
    splitWhere_of_forall hs, ← List.filter_append, ← List.map_append, List.singleton_append]

/-- A specifier between single blanks is read as it is. -/
theorem IsSpecifier.specifiersOf_eq (h : IsSpecifier s) {trail : List Char}
    (htrail : ∀ d ∈ trail, d = ' ') : specifiersOf (' ' :: (s ++ trail)) = [s] := by
  have hcomma : ∀ d ∈ ' ' :: (s ++ trail), (d == ',') = false := by
    intro d hd
    rw [beq_eq_false_iff_ne]
    rintro rfl
    simp only [List.mem_cons, List.mem_append] at hd
    rcases hd with hd | hd | hd
    · cases hd
    · exact h.comma hd
    · cases htrail _ hd
  have htrim : trim ([' '] ++ (s ++ trail)) = s :=
    trim_surrounded _ _ h.trimmed blank_space fun d hd => htrail d hd ▸ rfl
  rw [List.singleton_append] at htrim
  simp [specifiersOf, splitWhere_of_forall hcomma, htrim, h.not_empty]

/-- Specifiers that are written between braces are read back. -/
theorem specifiersOf_inside {ss : List (List Char)} (h : ∀ s ∈ ss, IsSpecifier s) :
    specifiersOf (inside ss) = ss := by
  induction ss with
  | nil => rfl
  | cons s ss ih =>
    obtain ⟨hs, hss⟩ := List.forall_mem_cons.1 h
    cases ss with
    | nil => rw [inside_singleton, hs.specifiersOf_eq (List.forall_mem_singleton.2 rfl)]
    | cons next ss =>
      have hcomma : ',' ∉ ' ' :: s := by simp [hs.comma]
      have hone := hs.specifiersOf_eq (fun _ hd => absurd hd List.not_mem_nil)
      rw [List.append_nil] at hone
      rw [inside_cons_cons, specifiersOf_comma hcomma, hone, ih hss, List.singleton_append]

theorem isBrace_inside {ss : List (List Char)} (h : ∀ s ∈ ss, IsSpecifier s) :
    ∀ d ∈ inside ss, isBrace d = false := by
  have hmarks : isBrace ' ' = false ∧ isBrace ',' = false := by decide
  induction ss with
  | nil => exact fun d hd => absurd hd List.not_mem_nil
  | cons s ss ih =>
    obtain ⟨hs, hss⟩ := List.forall_mem_cons.1 h
    cases ss with
    | nil =>
      rw [inside_singleton]
      simpa [or_imp, forall_and, hmarks] using hs.brace
    | cons next ss =>
      rw [inside_cons_cons]
      simpa [or_imp, forall_and, hmarks] using ⟨hs.brace, ih hss⟩

theorem renderRest_cases (cs : List Char) :
    renderRest cs = cs ∨ cs ≠ [] ∧ renderRest cs = ' ' :: cs := by
  rw [renderRest.eq_def]
  split
  · exact .inl rfl
  · exact .inl rfl
  · rename_i hne _
    exact .inr ⟨hne, rfl⟩

theorem trim_renderRest (h : Trimmed cs) : trim (renderRest cs) = cs := by
  rcases renderRest_cases cs with heq | ⟨-, heq⟩ <;> rw [heq]
  · simpa using trim_surrounded [] [] h (by simp) (by simp)
  · simpa using trim_surrounded [' '] [] h blank_space (by simp)

theorem lineFeed_not_mem_renderRest (h : '\n' ∉ cs) : '\n' ∉ renderRest cs := by
  rcases renderRest_cases cs with heq | ⟨-, heq⟩ <;> simp [heq, h]

/-- A line without its carriage returns ends in the rest behind the braces, or in the brace. -/
theorem return_not_mem_getLast? (h : Trimmed cs) (before : List Char) :
    '\r' ∉ (before ++ '\x7d' :: renderRest cs).getLast? := by
  have hreturn : isBlank '\r' = true := by decide
  have hlast : '\r' ∉ ('\x7d' :: cs).getLast? := by
    cases cs with
    | nil => decide
    | cons c cs =>
      intro hmem
      rw [List.getLast?_cons_cons] at hmem
      exact Bool.false_ne_true ((h.last _ hmem).symm.trans hreturn)
  have hrest : ('\x7d' :: renderRest cs).getLast? = ('\x7d' :: cs).getLast? := by
    rcases renderRest_cases cs with heq | ⟨hne, heq⟩ <;> rw [heq]
    obtain ⟨c, cs, rfl⟩ := List.exists_cons_of_ne_nil hne
    simp
  rw [List.getLast?_append, hrest]
  cases hsome : ('\x7d' :: cs).getLast? with
  | none => simp at hsome
  | some d => rwa [hsome] at hlast

theorem takeWhile_keyword (k : ClauseKind) {indent : List Char}
    (h : ∀ d ∈ indent, isBlank d = true) (cs : List Char) :
    (indent ++ (keyword k ++ cs)).takeWhile isBlank = indent ∧
      (indent ++ (keyword k ++ cs)).dropWhile isBlank = keyword k ++ cs := by
  have hhead : ∃ d ds, keyword k = d :: ds ∧ isBlank d = false := by
    cases k <;> exact ⟨_, _, rfl, by decide⟩
  obtain ⟨d, ds, hk, hd⟩ := hhead
  rw [List.takeWhile_append_of_pos h, List.dropWhile_append_of_pos h, hk]
  simp [hd]

/-- A clause that is written out is read back. -/
theorem Tidy.read?_render (h : c.Tidy) : read? c.render = some c := by
  obtain ⟨indent, kind, typeOnly, specifiers, rest, ending⟩ := c
  obtain ⟨hindent, hspecifiers, hrest, hline, hending⟩ := h
  dsimp only at *
  let body := inside specifiers ++ '\x7d' :: renderRest rest
  let content := indent ++ (keyword kind ++ (typePart typeOnly ++ '\x7b' :: body))
  have hrender : render ⟨indent, kind, typeOnly, specifiers, rest, ending⟩ = content ++ ending := by
    simp [render, renderBody_eq, content, body, typePart]
  have hcontent : dropTrailing '\r' (content ++ ending) = content := by
    have hlast := return_not_mem_getLast? hrest
      (indent ++ (keyword kind ++ (typePart typeOnly ++ '\x7b' :: inside specifiers)))
    refine dropTrailing_append ?_ hending
    simpa only [content, body, List.append_assoc, List.cons_append] using hlast
  have hopen : (' ' :: '\x7b' :: body).dropWhile isBlank = ['\x7b'] ++ body := by
    rw [List.dropWhile_cons_of_pos (by decide), List.dropWhile_cons_of_neg (by decide)]
    rfl
  have hinside : ∀ d ∈ inside specifiers, (!isBrace d) = true := fun d hd => by
    rw [isBrace_inside hspecifiers d hd]
    rfl
  have hclose : body.takeWhile (fun c => !isBrace c) = inside specifiers ∧
      body.dropWhile (fun c => !isBrace c) = ['\x7d'] ++ renderRest rest := by
    have hbrace : isBrace '\x7d' = true := by decide
    simp [body, List.takeWhile_append_of_pos hinside, List.dropWhile_append_of_pos hinside, hbrace]
  have hafter : (renderRest rest).takeWhile (· != '\n') = renderRest rest :=
    List.takeWhile_eq_self_iff.2 fun d hd => bne_iff_ne.2 fun hfeed =>
      lineFeed_not_mem_renderRest hline (hfeed ▸ hd)
  obtain ⟨htake, hdrop⟩ := takeWhile_keyword kind hindent (typePart typeOnly ++ '\x7b' :: body)
  rw [read?, hrender, hcontent, htake, hdrop, readKind?_keyword]
  simp only [Option.bind_eq_bind, Option.bind_some, readType_typePart, hopen, behind?_append,
    hclose, hafter, List.drop_length, true_or, guard, if_true, Option.pure_def,
    specifiersOf_inside hspecifiers, trim_renderRest hrest, List.drop_left]

/-- A specifier that starts with the word for types twice. -/
def SaysTypeTwice (s : List Char) : Prop :=
  ∃ gap c rest, s = typeWord ++ (gap ++ (typeWord ++ c :: rest)) ∧ gap ≠ [] ∧
    (∀ d ∈ gap, isBlank d = true) ∧ isBlank c = true

/-- The word for types is taken off if a blank follows. -/
theorem plain_typeWord {c : Char} (hc : isBlank c = true) (cs : List Char) :
    plain (typeWord ++ c :: cs) = trimLeft cs := by
  rw [plain, behind?_append]
  simp [hc, trimLeft]

theorem eq_append_of_behind? {lead rest : List Char} (h : behind? lead cs = some rest) :
    cs = lead ++ rest := by
  rw [behind?] at h
  split at h
  · rename_i hlead
    obtain ⟨behind, rfl⟩ := List.isPrefixOf_iff_prefix.1 hlead
    cases h
    rw [List.drop_left]
  · cases h

theorem plain_cases (s : List Char) : plain s = s ∨
    ∃ c cs, s = typeWord ++ c :: cs ∧ isBlank c = true ∧ plain s = trimLeft cs := by
  rw [plain]
  split
  · rename_i c cs hcs
    split
    · rename_i hc
      exact .inr ⟨c, cs, eq_append_of_behind? hcs, hc, by simp [hc, trimLeft]⟩
    · exact .inl rfl
  · exact .inl rfl

theorem plain_suffix (s : List Char) : plain s <:+ s := by
  rcases plain_cases s with heq | ⟨c, cs, rfl, -, heq⟩
  · exact ⟨[], heq⟩
  · rw [heq]
    exact (List.dropWhile_suffix _).trans ⟨typeWord ++ [c], by simp⟩

theorem plain_plain_iff (s : List Char) : plain (plain s) = plain s ↔ ¬SaysTypeTwice s := by
  constructor
  · rintro h ⟨gap, c, rest, rfl, hne, hgap, hc⟩
    obtain ⟨g, gap, rfl⟩ := List.exists_cons_of_ne_nil hne
    obtain ⟨hg, hgap⟩ := List.forall_mem_cons.1 hgap
    have hword : trimLeft (typeWord ++ c :: rest) = typeWord ++ c :: rest := dropWhile_typeWord _
    rw [List.cons_append, plain_typeWord hg, trimLeft_append hgap, hword, plain_typeWord hc] at h
    have hlength := (List.dropWhile_suffix isBlank (l := rest)).length_le
    have heq := congrArg List.length h
    simp only [trimLeft, List.length_append, List.length_cons] at heq
    omega
  · intro h
    rcases plain_cases s with heq | ⟨c, cs, rfl, hc, heq⟩
    · rw [heq, heq]
    · rcases plain_cases (plain (typeWord ++ c :: cs)) with heq' | ⟨c', cs', hcs', hc', -⟩
      · exact heq'
      · refine absurd ⟨c :: cs.takeWhile isBlank, c', cs', ?_, List.cons_ne_nil _ _, ?_, hc'⟩ h
        · rw [← hcs', heq, trimLeft, List.cons_append, List.takeWhile_append_dropWhile]
        · exact List.forall_mem_cons.2 ⟨hc, fun d hd => List.mem_takeWhile_imp hd⟩

theorem IsSpecifier.plain (h : IsSpecifier s) : IsSpecifier (plain s) := by
  have hsuffix := plain_suffix s
  have hlast : ∀ d ∈ (Clause.plain s).getLast?, isBlank d = false := by
    intro d hd
    obtain ⟨before, hbefore⟩ := hsuffix
    refine h.trimmed.last d ?_
    rw [← hbefore, List.getLast?_append, Option.mem_def.1 hd]
    rfl
  refine ⟨?_, ⟨?_, hlast⟩, fun hcomma => h.comma (hsuffix.subset hcomma),
    fun d hd => h.brace d (hsuffix.subset hd)⟩
  · rcases plain_cases s with heq | ⟨c, cs, rfl, hc, heq⟩
    · rw [heq]
      exact h.not_empty
    · -- Its last character is no blank, so not all of it is taken off.
      intro hnone
      rw [heq, trimLeft, List.dropWhile_eq_nil_iff] at hnone
      have hall : ∀ d ∈ c :: cs, isBlank d = true := List.forall_mem_cons.2 ⟨hc, hnone⟩
      have hmem := List.getLast_mem (List.cons_ne_nil c cs)
      have hfalse := h.trimmed.last ((c :: cs).getLast (List.cons_ne_nil c cs)) (by
        rw [List.getLast?_append, List.getLast?_eq_some_getLast (List.cons_ne_nil c cs)]
        rfl)
      exact Bool.false_ne_true (hfalse.symm.trans (hall _ hmem))
  · rcases plain_cases s with heq | ⟨c, cs, rfl, hc, heq⟩
    · rw [heq]
      exact h.trimmed.head
    · rw [heq]
      exact head_trimLeft

/-- A clause as it is written on a tidy line. -/
def tidied (sort : Bool) (typeOnly : Option Bool) (c : Clause) : Clause :=
  let c := c.withType (typeOnly.getD c.typeOnly)
  if sort then c.sorted else c

variable {sort : Bool} {typeOnly : Option Bool}

theorem Tidy.withType (h : c.Tidy) (typeOnly : Bool) : (c.withType typeOnly).Tidy := by
  refine ⟨h.indent, ?_, h.rest, h.line, h.ending⟩
  cases typeOnly with
  | false => exact h.specifiers
  | true => exact List.forall_mem_map.2 fun s hs => (h.specifiers s hs).plain

theorem Tidy.tidied (h : c.Tidy) : (c.tidied sort typeOnly).Tidy := by
  have htyped := h.withType (typeOnly.getD c.typeOnly)
  cases sort with
  | false => exact htyped
  | true =>
    exact ⟨htyped.indent, fun s hs => htyped.specifiers s (List.mem_mergeSort.1 hs), htyped.rest,
      htyped.line, htyped.ending⟩

@[simp] theorem tidied_typeOnly : (c.tidied sort typeOnly).typeOnly = typeOnly.getD c.typeOnly := by
  cases sort <;> rfl

theorem perm_tidied_specifiers (sort : Bool) (typeOnly : Option Bool) (c : Clause) :
    (c.tidied sort typeOnly).specifiers.Perm
      (c.withType (typeOnly.getD c.typeOnly)).specifiers := by
  cases sort with
  | false => exact .refl _
  | true => exact List.mergeSort_perm _ _

/-- If the specifiers stay the same up to their order, none of them loses a word. -/
theorem plain_eq_of_perm {ss : List (List Char)} (h : (ss.map plain).Perm ss) :
    ∀ s ∈ ss, plain s = s := by
  by_contra hsome
  push Not at hsome
  obtain ⟨s, hs, hne⟩ := hsome
  have hshort : (plain s).length < s.length := by
    have hle := (plain_suffix s).length_le
    exact Nat.lt_of_le_of_ne hle fun heq => hne ((plain_suffix s).eq_of_length heq)
  have hlt := List.sum_lt_sum (l := ss) (fun s => (plain s).length) (fun s => s.length)
    (fun s _ => (plain_suffix s).length_le) ⟨s, hs, hshort⟩
  have hsame := (h.map List.length).sum_eq
  rw [List.map_map] at hsame
  exact Nat.lt_irrefl _ (hsame ▸ hlt)

/-- Specifiers that are sorted stay where they are. -/
theorem sorted_sorted (c : Clause) : c.sorted.sorted = c.sorted := by
  have htrans : ∀ a b d : List Char, decide (sortKey a ≤ sortKey b) = true →
      decide (sortKey b ≤ sortKey d) = true → decide (sortKey a ≤ sortKey d) = true := by
    intro a b d hab hbd
    rw [decide_eq_true_eq] at *
    exact String.le_trans hab hbd
  have htotal : ∀ a b : List Char,
      (decide (sortKey a ≤ sortKey b) || decide (sortKey b ≤ sortKey a)) = true := by
    intro a b
    rw [Bool.or_eq_true, decide_eq_true_eq, decide_eq_true_eq]
    exact String.le_total _ _
  have hsame := List.mergeSort_of_pairwise (List.pairwise_mergeSort htrans htotal c.specifiers)
  exact congrArg (fun ss => { c with specifiers := ss }) hsame

theorem withType_eq_self (h : c.typeOnly = true → ∀ s ∈ c.specifiers, plain s = s) :
    c.withType c.typeOnly = c := by
  obtain ⟨indent, kind, types, specifiers, rest, ending⟩ := c
  cases types with
  | false => rfl
  | true =>
    have hsame : specifiers.map plain = specifiers :=
      (List.map_congr_left (h rfl)).trans (List.map_id _)
    simp only [withType, if_true, hsame]

/-- A tidied clause stays as it is under the same arguments exactly if it is none of types or none
of its specifiers says so twice. -/
theorem tidied_tidied_iff : (c.tidied sort typeOnly).tidied sort typeOnly = c.tidied sort typeOnly ↔
    (typeOnly.getD c.typeOnly = true → ∀ s ∈ c.specifiers, ¬SaysTypeTwice s) := by
  have hmem (hb : typeOnly.getD c.typeOnly = true) {s : List Char} :
      s ∈ (c.tidied sort typeOnly).specifiers ↔ ∃ s' ∈ c.specifiers, plain s' = s := by
    rw [(perm_tidied_specifiers sort typeOnly c).mem_iff, withType, hb, if_pos rfl, List.mem_map]
  have hagain : typeOnly.getD (c.tidied sort typeOnly).typeOnly =
      (c.tidied sort typeOnly).typeOnly := by
    rw [tidied_typeOnly]
    cases typeOnly <;> rfl
  constructor
  · intro h hb s hs
    have hperm := perm_tidied_specifiers sort typeOnly (c.tidied sort typeOnly)
    rw [h, hagain, tidied_typeOnly, hb] at hperm
    have hsame := plain_eq_of_perm hperm.symm _ ((hmem hb).2 ⟨s, hs, rfl⟩)
    exact (plain_plain_iff s).1 hsame
  · intro h
    have htyped : (c.tidied sort typeOnly).withType (c.tidied sort typeOnly).typeOnly =
        c.tidied sort typeOnly := by
      refine withType_eq_self fun hb s hs => ?_
      rw [tidied_typeOnly] at hb
      obtain ⟨s', hs', rfl⟩ := (hmem hb).1 hs
      exact (plain_plain_iff s').2 (h hb s' hs')
    rw [tidied, hagain, htyped]
    cases sort with
    | false => rfl
    | true => exact sorted_sorted _

end Clause

theorem tidyClause_eq (sort : Bool) (typeOnly : Option Bool) (line : String) :
    tidyClause sort typeOnly line = (Clause.read? line.toList).map fun c =>
      String.ofList (c.tidied sort typeOnly).render := rfl

/-- Nothing is offered for a line that stays as it is when it is tidied. -/
theorem no_edit_of_tidyClause_eq {file text : String} {lines : List String} {i : Issue} {n : Int}
    (hat : lineOf? lines i = some (n, text)) :
    (tidyClause true none text = some text → reorderEdit file lines i = none) ∧
      (tidyClause false (if (given? i "typeOnly").isSome then some true else none) text =
        some text → ∀ e, formatEdit file lines i ≠ .ok (some e)) := by
  constructor
  · intro h
    simp [reorderEdit, hat, h]
  · intro h e he
    simp only [formatEdit, hat] at he
    split at he
    · simp [h] at he
    · cases he

/-- A line whose clause is tidied has a clause that can be tidied again under the same arguments.
The line stays as it is then exactly if it is tidied as no clause of types or if none of its
specifiers started with the word for types twice. No edit is offered for a line that stays. -/
theorem tidied_again_iff {sort : Bool} {typeOnly : Option Bool} {line text : String}
    (h : tidyClause sort typeOnly line = some text) :
    ∃ c again, Clause.read? line.toList = some c ∧ tidyClause sort typeOnly text = some again ∧
      (again = text ↔
        (typeOnly.getD c.typeOnly = true → ∀ s ∈ c.specifiers, ¬Clause.SaysTypeTwice s)) ∧
      (again = text → ∀ file lines i n, lineOf? lines i = some (n, text) →
        (sort = true → typeOnly = none → reorderEdit file lines i = none) ∧
        (sort = false → typeOnly = (if (given? i "typeOnly").isSome then some true else none) →
          ∀ e, formatEdit file lines i ≠ .ok (some e))) := by
  rw [tidyClause_eq, Option.map_eq_some_iff] at h
  obtain ⟨c, hread, rfl⟩ := h
  have htidy : (c.tidied sort typeOnly).Tidy := (Clause.tidy_of_read? hread).tidied
  have hagain : tidyClause sort typeOnly (String.ofList (c.tidied sort typeOnly).render) =
      some (String.ofList ((c.tidied sort typeOnly).tidied sort typeOnly).render) := by
    rw [tidyClause_eq, String.toList_ofList, htidy.read?_render, Option.map_some]
  refine ⟨c, _, hread, hagain, ?_, fun heq file lines i n hat => ⟨?_, ?_⟩⟩
  · rw [← Clause.tidied_tidied_iff]
    constructor
    · intro heq
      have hrender := congrArg Clause.read? (String.ofList_injective heq)
      rw [htidy.tidied.read?_render, htidy.read?_render] at hrender
      exact Option.some.inj hrender
    · intro heq
      rw [heq]
  · rintro rfl rfl
    rw [heq] at hagain
    exact (no_edit_of_tidyClause_eq hat).1 hagain
  · rintro rfl rfl
    rw [heq] at hagain
    exact (no_edit_of_tidyClause_eq hat).2 hagain

/-- A type that is called like the word for types is exported under another name. The line is tidied
into one that exports it as before, and that line, tidied again, has lost the name of the type. -/
theorem type_named_type_lost :
    tidyClause false (some true) "export \x7b type type as Kind \x7d;" =
        some "export type \x7b type as Kind \x7d;" ∧
      ∃ again, tidyClause false (some true) "export type \x7b type as Kind \x7d;" = some again ∧
        again ≠ "export type \x7b type as Kind \x7d;" ∧
        again = "export type \x7b as Kind \x7d;" := by
  have hfirst : tidyClause false (some true) "export \x7b type type as Kind \x7d;" =
      some "export type \x7b type as Kind \x7d;" := by decide +kernel
  have hlost : tidyClause false (some true) "export type \x7b type as Kind \x7d;" =
      some "export type \x7b as Kind \x7d;" := by decide +kernel
  have hnames : (Clause.read? "export \x7b type type as Kind \x7d;".toList).map (·.specifiers) =
      some ["type type as Kind".toList] := by decide +kernel
  obtain ⟨c, again, hread, hsecond, hstays, -⟩ := tidied_again_iff hfirst
  rw [hread] at hnames
  have hspecifiers : c.specifiers = ["type type as Kind".toList] := Option.some.inj hnames
  refine ⟨hfirst, again, hsecond, fun heq => ?_, Option.some.inj (hsecond.symm.trans hlost)⟩
  refine hstays.1 heq rfl "type type as Kind".toList ?_ ?_
  · rw [hspecifiers]
    exact List.mem_cons_self
  · exact ⟨[' '], ' ', "as Kind".toList, rfl, List.cons_ne_nil _ _, blank_space, rfl⟩

end Fix

end ExportLint
