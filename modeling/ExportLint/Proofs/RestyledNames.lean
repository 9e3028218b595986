import ExportLint.Proofs.CaselessDigits

/-!
# Names in one style after another

A style with marks between the words lets the words be read again, so a name that goes through such
a style and then through any other is the same as one that is put in the other style at once. Every
style keeps the letters and the digits of the words, in their order and up to case.
-/
namespace ExportLint

open Text (CaseMap.asciiLower CaseMap.asciiUpper CaseMap.capitalize)

namespace Naming

variable {c mark : Char} {w cs : List Char} {ws : List (List Char)}

/-- The ASCII letters of a text, in lower case, and its digits. -/
def letters (cs : List Char) : List Char := (cs.filter isWordPart).map CaseMap.asciiLower

@[simp] theorem letters_append (cs ds : List Char) :
    letters (cs ++ ds) = letters cs ++ letters ds := by
  simp [letters]

theorem letters_mark (hm : isWordPart mark = false) (cs : List Char) :
    letters (mark :: cs) = letters cs := by
  rw [letters, List.filter_cons_of_neg (Bool.eq_false_iff.1 hm), letters]

theorem letters_of_wordParts (h : ∀ c ∈ cs, isWordPart c = true) :
    letters cs = cs.map CaseMap.asciiLower := by
  rw [letters, List.filter_eq_self.2 h]

theorem join_splitWords (name : String) :
    String.join (splitWords name) = String.ofList (letters name.toList) := by
  have hjoin (ws : List (List Char)) :
      String.join (ws.map String.ofList) = String.ofList ws.flatten := by
    refine String.toList_inj.1 ?_
    rw [String.toList_join, String.toList_ofList, List.flatMap_map]
    simp [List.flatMap_id']
  rw [splitWords, hjoin, flatten_words, letters]

theorem IsWord.map_asciiLower (h : IsWord w) : w.map CaseMap.asciiLower = w := by
  have hsame : ∀ c ∈ w, CaseMap.asciiLower c = id c := fun c hc =>
    asciiLower_of_not_upper (h.isUpper_eq_false c hc)
  rw [List.map_congr_left hsame, List.map_id]

theorem IsWord.map_asciiUpper_asciiLower (h : IsWord w) :
    (w.map CaseMap.asciiUpper).map CaseMap.asciiLower = w := by
  have hsame : ∀ c ∈ w, (CaseMap.asciiLower ∘ CaseMap.asciiUpper) c = id c := fun c hc =>
    asciiLower_asciiUpper (h.isUpper_eq_false c hc)
  rw [List.map_map, List.map_congr_left hsame, List.map_id]

/-- A word is its own letters. -/
theorem letters_word (h : IsWord w) : letters w = w := by
  rw [letters_of_wordParts h.isWordPart, h.map_asciiLower]

theorem letters_upper (h : IsWord w) : letters (w.map CaseMap.asciiUpper) = w := by
  have hparts : ∀ c ∈ w.map CaseMap.asciiUpper, isWordPart c = true :=
    List.forall_mem_map.2 fun c hc => isWordPart_asciiUpper (h.isWordPart c hc)
  rw [letters_of_wordParts hparts, h.map_asciiUpper_asciiLower]

theorem letters_capitalize (h : IsWord w) : letters (CaseMap.capitalize w) = w := by
  rw [letters_of_wordParts (isWordPart_of_mem_capitalize h.isWordPart)]
  cases w with
  | nil => rfl
  | cons c cs =>
    have hback := asciiLower_asciiUpper (h.isUpper_eq_false c List.mem_cons_self)
    have hsmall := (List.cons.inj h.map_asciiLower).2
    rw [CaseMap.capitalize, hsmall, List.map_cons, hback, hsmall]

/-- What is written for each word has the letters of the words. -/
theorem letters_flatMap {f : List Char → List Char} (h : ∀ w ∈ ws, letters (f w) = w) :
    letters (ws.flatMap f) = ws.flatten := by
  induction ws with
  | nil => rfl
  | cons w ws ih =>
    obtain ⟨hw, hws⟩ := List.forall_mem_cons.1 h
    rw [List.flatMap_cons, letters_append, hw, ih hws, List.flatten_cons]

theorem letters_flatten (h : ∀ w ∈ ws, IsWord w) : letters ws.flatten = ws.flatten := by
  have hwords := letters_flatMap (f := id) fun w hw => letters_word (h w hw)
  rwa [List.flatMap_id] at hwords

theorem isRun_upper (h : IsWord w) : IsRun (w.map CaseMap.asciiUpper) := by
  cases w with
  | nil => exact absurd rfl h.ne_nil
  | cons c w =>
    have hmem : ∀ d ∈ (c :: w).map CaseMap.asciiUpper,
        ∃ e ∈ c :: w, CaseMap.asciiUpper e = d := fun d hd => List.mem_map.1 hd
    rcases h.uniform with hl | hd
    · refine .capitals fun d h => ?_
      obtain ⟨e, he, rfl⟩ := hmem d h
      exact isUpper_asciiUpper (hl e he)
    · refine .digits fun d h => ?_
      obtain ⟨e, he, rfl⟩ := hmem d h
      rw [asciiUpper_of_not_lower (isLower_eq_false_of_isDigit (hd e he))]
      exact hd e he

end Naming

namespace CaseStyle

open Naming

variable {mark : Char} {ws : List (List Char)} {name : String}

theorem letters_separate (hm : isWordPart mark = false) (ws : List (List Char)) :
    letters (separate mark ws) = letters ws.flatten := by
  fun_induction separate mark ws with
  | case1 => rfl
  | case2 w => simp
  | case3 w ws _ ih => rw [letters_append, letters_mark hm, ih, List.flatten_cons, letters_append]

/-- However words are put together, their letters stay. -/
theorem letters_join (h : ∀ w ∈ ws, IsWord w) (style : CaseStyle) :
    letters (style.join ws) = ws.flatten := by
  cases style with
  | camel =>
    rw [join, letters_append, letters_flatten fun w hw => h w (List.mem_of_mem_take hw),
      letters_flatMap fun w hw => letters_capitalize (h w (List.mem_of_mem_drop hw)),
      ← List.flatten_append, List.take_append_drop]
  | pascal => exact letters_flatMap fun w hw => letters_capitalize (h w hw)
  | snake => exact (letters_separate rfl ws).trans (letters_flatten h)
  | kebab => exact (letters_separate rfl ws).trans (letters_flatten h)
  | constant =>
    rw [join, letters_separate rfl, ← List.flatMap_def]
    exact letters_flatMap fun w hw => letters_upper (h w hw)

theorem letters_guardDigit (cs : List Char) : letters (guardDigit cs) = letters cs := by
  rw [guardDigit]
  split
  · exact letters_mark rfl cs
  · rfl

theorem apply_of_no_words (h : words name = []) (style : CaseStyle) : style.apply name = name := by
  rw [apply, h]

theorem words_ne_nil_of_apply_ne {style : CaseStyle} (h : style.apply name ≠ name) :
    words name ≠ [] :=
  fun hnil => h (apply_of_no_words hnil style)

theorem apply_of_words (h : words name ≠ []) (style : CaseStyle) :
    style.apply name = String.ofList (guardDigit (style.join (words name))) := by
  rw [apply]
  split
  · exact absurd ‹_› h
  · rfl

/-- Every style keeps the letters of a name. -/
theorem letters_apply (style : CaseStyle) (name : String) :
    letters (style.apply name).toList = letters name.toList := by
  by_cases h : words name = []
  · rw [apply_of_no_words h]
  · rw [apply_of_words h, String.toList_ofList, letters_guardDigit,
      letters_join fun w hw => isWord_of_mem_words hw]
    exact flatten_words name

/-- Words with marks between them are read again. -/
theorem rawWords_separate (hm : isWordPart mark = false) (h : ∀ w ∈ ws, IsRun w) :
    rawWords (separate mark ws) = ws := by
  fun_induction separate mark ws with
  | case1 => rw [rawWords]
  | case2 w =>
    have hlast := (h w List.mem_cons_self).rawWords_append (by simp [Ends] : Ends [])
    rwa [List.append_nil, rawWords] at hlast
  | case3 w ws _ ih =>
    obtain ⟨hw, hws⟩ := List.forall_mem_cons.1 h
    have hends : Ends (mark :: separate mark ws) := by
      intro c hc
      rwa [← Option.some.inj hc]
    rw [hw.rawWords_append hends, rawWords_separator hm, ih hws]

theorem rawWords_guardDigit (cs : List Char) : rawWords (guardDigit cs) = rawWords cs := by
  rw [guardDigit]
  split
  · exact rawWords_separator rfl
  · rfl

/-- The styles that put a mark between the words. -/
def marked : List CaseStyle := [.snake, .kebab, .constant]

/-- A name in such a style has the words that it had. -/
theorem words_apply {style : CaseStyle} (hs : style ∈ marked) (name : String) :
    words (style.apply name) = words name := by
  by_cases h : words name = []
  · rw [apply_of_no_words h]
  · have hword : ∀ w ∈ words name, IsWord w := fun w hw => isWord_of_mem_words hw
    have hsame : (words name).map (·.map CaseMap.asciiLower) = words name := by
      have hlower : ∀ w ∈ words name, w.map CaseMap.asciiLower = id w :=
        fun w hw => (hword w hw).map_asciiLower
      rw [List.map_congr_left hlower, List.map_id]
    have hread : (rawWords (style.join (words name))).map (·.map CaseMap.asciiLower) =
        words name := by
      simp only [marked, List.mem_cons, List.not_mem_nil, or_false] at hs
      rcases hs with rfl | rfl | rfl
      · rw [join, rawWords_separate rfl fun w hw => (hword w hw).isRun, hsame]
      · rw [join, rawWords_separate rfl fun w hw => (hword w hw).isRun, hsame]
      · have hruns : ∀ w ∈ (words name).map (·.map CaseMap.asciiUpper), IsRun w :=
          List.forall_mem_map.2 fun w hw => isRun_upper (hword w hw)
        have hback : ∀ w ∈ words name,
            (w.map CaseMap.asciiUpper).map CaseMap.asciiLower = id w :=
          fun w hw => (hword w hw).map_asciiUpper_asciiLower
        rw [join, rawWords_separate rfl hruns, List.map_map]
        exact (List.map_congr_left hback).trans (List.map_id _)
    rw [apply_of_words h, words, String.toList_ofList, rawWords_guardDigit, hread]

/-- What is left of a styled name without its underscores and hyphens is letters and digits. -/
theorem filter_marks_apply (h : words name ≠ []) (style : CaseStyle) :
    ((style.apply name).toList.filter fun c => c != '_' && c != '-') =
      (style.apply name).toList.filter isWordPart := by
  have hstyled : ∀ c ∈ guardDigit (style.join (words name)), isStyled c = true := by
    have hjoin := isStyled_of_mem_join (fun w hw => isWordPart_of_mem_words name hw) style
    rw [guardDigit]
    split
    · exact List.forall_mem_cons.2 ⟨rfl, hjoin⟩
    · exact hjoin
  rw [apply_of_words h, String.toList_ofList]
  refine List.filter_congr fun c hc => ?_
  have hc := hstyled c hc
  simp only [isStyled, Bool.or_eq_true, beq_iff_eq] at hc
  rcases hc with (hc | rfl) | rfl
  · have hmark : c ≠ '_' ∧ c ≠ '-' := by
      refine ⟨?_, ?_⟩ <;> rintro rfl <;> cases hc
    simp [hmark, hc]
  · rfl
  · rfl

end CaseStyle

/-- A name that was put in a style with marks between its words comes out the same in any style as
it would have come out at once. And in every style, what is left of a name with words when its
underscores and hyphens are dropped and the rest is put in lower case is its words one after the
other; so the words of the styled name have the same letters and digits in the same order. -/
theorem restyled_alike (name : String) :
    (∀ first ∈ CaseStyle.marked, ∀ style : CaseStyle,
      style.apply (first.apply name) = style.apply name) ∧
    ∀ style : CaseStyle,
      (Naming.splitWords name ≠ [] → Text.CaseMap.lower (String.ofList
          ((style.apply name).toList.filter fun c => c != '_' && c != '-')) =
        String.join (Naming.splitWords name)) ∧
      String.join (Naming.splitWords (style.apply name)) =
        String.join (Naming.splitWords name) := by
  refine ⟨fun first hfirst style => ?_, fun style => ⟨fun h => ?_, ?_⟩⟩
  · by_cases h : Naming.words name = []
    · rw [CaseStyle.apply_of_no_words h]
    · have hwords := CaseStyle.words_apply hfirst name
      have hne : Naming.words (first.apply name) ≠ [] := hwords ▸ h
      rw [CaseStyle.apply_of_words hne, hwords, CaseStyle.apply_of_words h]
  · have hne : Naming.words name ≠ [] := fun hnil =>
      h (by rw [Naming.splitWords, hnil, List.map_nil])
    have hparts : ∀ c ∈ (style.apply name).toList.filter Naming.isWordPart,
        Naming.isWordPart c = true := fun c hc => (List.mem_filter.1 hc).2
    rw [CaseStyle.filter_marks_apply hne, Text.CaseMap.lower, String.toList_ofList,
      Text.CaseMap.lowerFrom_wordParts hparts, Naming.join_splitWords,
      ← CaseStyle.letters_apply style name, Naming.letters]
  · rw [Naming.join_splitWords, Naming.join_splitWords, CaseStyle.letters_apply]

/-- A name with a run of capitals and a number, in capitals first and then in camel case. -/
theorem responseName_restyled :
    CaseStyle.constant ∈ CaseStyle.marked ∧
      CaseStyle.camel.apply (CaseStyle.constant.apply "parseHTTPResponse_v2") =
        CaseStyle.camel.apply "parseHTTPResponse_v2" ∧
      Naming.splitWords "parseHTTPResponse_v2" = ["parse", "http", "response", "v", "2"] ∧
      Text.CaseMap.lower (String.ofList ((CaseStyle.constant.apply
          "parseHTTPResponse_v2").toList.filter fun c => c != '_' && c != '-')) =
        "parsehttpresponsev2" := by
  obtain ⟨hstyles, hletters⟩ := restyled_alike "parseHTTPResponse_v2"
  have hwords : Naming.splitWords "parseHTTPResponse_v2" =
      ["parse", "http", "response", "v", "2"] := by decide +kernel
  have hmarked : CaseStyle.constant ∈ CaseStyle.marked := by decide
  refine ⟨hmarked, hstyles .constant hmarked .camel, hwords, ?_⟩
  rw [(hletters .constant).1 (by rw [hwords]; exact List.cons_ne_nil _ _), hwords]
  decide

end ExportLint
