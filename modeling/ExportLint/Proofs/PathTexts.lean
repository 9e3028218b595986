import ExportLint.Path.Basic

/-!
# Paths and their texts

A path whose steps are neither empty nor single points and hold no slash is read back from its text.
Every path that is read from a text is one.
-/
namespace ExportLint

namespace Text

variable {p : Char → Bool} {c : Char}

theorem splitWhere_of_forall {cs : List Char} (h : ∀ d ∈ cs, p d = false) :
    splitWhere p cs = [cs] := by
  induction cs with
  | nil => rfl
  | cons d cs ih =>
    obtain ⟨hd, hcs⟩ := List.forall_mem_cons.1 h
    simp [splitWhere, hd, ih hcs]

theorem splitWhere_append_cons (hc : p c = true) (cs rest : List Char) :
    splitWhere p (cs ++ c :: rest) = splitWhere p cs ++ splitWhere p rest := by
  induction cs with
  | nil => simp [splitWhere, hc]
  | cons d cs ih =>
    cases hcs : splitWhere p cs with
    | nil => exact absurd hcs (splitWhere_ne_nil p cs)
    | cons piece pieces =>
      rw [hcs] at ih
      by_cases hd : p d = true
      · simp [splitWhere, hd, hcs, ih]
      · simp [splitWhere, hd, hcs, ih]

theorem splitWhere_append {cs rest : List Char} (h : ∀ d ∈ cs, p d = false) (hc : p c = true) :
    splitWhere p (cs ++ c :: rest) = cs :: splitWhere p rest := by
  rw [splitWhere_append_cons hc, splitWhere_of_forall h, List.singleton_append]

/-- No piece holds a character between the pieces. -/
theorem eq_false_of_mem_splitWhere {cs piece : List Char} (h : piece ∈ splitWhere p cs) :
    ∀ d ∈ piece, p d = false := by
  induction cs generalizing piece with
  | nil =>
    rw [splitWhere, List.mem_singleton] at h
    exact fun d hd => absurd (h ▸ hd) List.not_mem_nil
  | cons c cs ih =>
    rw [splitWhere] at h
    split at h
    · rcases List.mem_cons.1 h with rfl | h
      · exact fun d hd => absurd hd List.not_mem_nil
      · exact ih h
    · rename_i hc
      have hc := Bool.eq_false_iff.2 hc
      cases hs : splitWhere p cs with
      | nil => exact absurd hs (splitWhere_ne_nil p cs)
      | cons first pieces =>
        rw [hs] at h ih
        rcases List.mem_cons.1 h with rfl | h
        · exact List.forall_mem_cons.2 ⟨hc, ih List.mem_cons_self⟩
        · exact ih (List.mem_cons_of_mem _ h)

/-- Texts with a separator between them are the pieces of what they make. -/
theorem splitAtChar_intercalate {ss : List String} (h : ∀ s ∈ ss, c ∉ s.toList) (hne : ss ≠ []) :
    splitAtChar c ((String.singleton c).intercalate ss) = ss := by
  have hpiece {s : String} (hs : c ∉ s.toList) : ∀ d ∈ s.toList, (d == c) = false := by
    intro d hd
    rw [beq_eq_false_iff_ne]
    rintro rfl
    exact hs hd
  rw [splitAtChar, String.toList_intercalate, String.toList_singleton]
  induction ss with
  | nil => exact absurd rfl hne
  | cons s ss ih =>
    obtain ⟨hs, hss⟩ := List.forall_mem_cons.1 h
    cases ss with
    | nil =>
      rw [List.map_cons, List.map_nil, List.intercalate_singleton, splitWhere_of_forall (hpiece hs),
        List.map_cons, String.ofList_toList, List.map_nil]
    | cons t ss =>
      rw [List.map_cons, List.map_cons, List.intercalate_cons_cons, List.append_assoc,
        List.singleton_append, splitWhere_append (hpiece hs) (beq_self_eq_true c), List.map_cons,
        String.ofList_toList, ← List.map_cons, ih hss (List.cons_ne_nil _ _)]

end Text

namespace Path

/-- Steps as paths have them. -/
structure IsStep (s : String) : Prop where
  ne_empty : s ≠ ""
  ne_point : s ≠ "."
  no_slash : '/' ∉ s.toList

/-- A path that stands for its text. -/
structure WellFormed (p : Path) : Prop where
  root : p.root = "" ∨ p.root = "/" ∨ p.root = "//"
  steps : ∀ s ∈ p.steps, IsStep s

theorem isStep_of_mem_stepsOf {p s : String} (h : s ∈ stepsOf p) : IsStep s := by
  obtain ⟨hm, hs⟩ := List.mem_filter.1 h
  rw [Bool.and_eq_true, Bool.not_eq_true', bne_iff_ne] at hs
  obtain ⟨piece, hp, rfl⟩ := List.mem_map.1 hm
  refine ⟨fun he => ?_, hs.2, fun hslash => ?_⟩
  · rw [he] at hs
    exact absurd hs.1 (by decide)
  · rw [String.toList_ofList] at hslash
    exact absurd (Text.eq_false_of_mem_splitWhere hp '/' hslash) (by decide)

theorem rootOf_cases (p : String) : rootOf p = "" ∨ rootOf p = "/" ∨ rootOf p = "//" := by
  unfold rootOf
  split
  · exact .inr (.inl rfl)
  · exact .inr (.inr rfl)
  · exact .inr (.inl rfl)
  · exact .inl rfl

theorem wellFormed_parse (p : String) : (parse p).WellFormed :=
  ⟨rootOf_cases p, fun _ hs => isStep_of_mem_stepsOf hs⟩

theorem append_steps (p : Path) (ss : List String) : p ++ ⟨"", ss⟩ = ⟨p.root, p.steps ++ ss⟩ := rfl

theorem WellFormed.append {p : Path} (h : p.WellFormed) {ss : List String}
    (hss : ∀ s ∈ ss, IsStep s) : (p ++ ⟨"", ss⟩ : Path).WellFormed :=
  ⟨h.root, fun s hs => (List.mem_append.1 hs).elim (h.steps s) (hss s)⟩

/-- Steps in two parts make a text in two parts, with a slash between them. -/
theorem intercalate_append {ss ts : List String} (hs : ss ≠ []) (ht : ts ≠ []) :
    "/".intercalate (ss ++ ts) = "/".intercalate ss ++ "/" ++ "/".intercalate ts := by
  rw [← String.toList_inj]
  simp only [String.toList_append, String.toList_intercalate, List.map_append]
  induction ss with
  | nil => exact absurd rfl hs
  | cons s ss ih =>
    cases ss with
    | nil =>
      obtain ⟨t, ts, rfl⟩ := List.exists_cons_of_ne_nil ht
      simp [List.intercalate_cons_cons]
    | cons s' ss =>
      have ih := ih (List.cons_ne_nil s' ss)
      simp only [List.map_cons, List.cons_append] at ih ⊢
      rw [List.intercalate_cons_cons, ih, List.intercalate_cons_cons]
      simp only [List.append_assoc]

/-- Steps are read back from what they make. -/
theorem stepsOf_intercalate {ss : List String} (h : ∀ s ∈ ss, IsStep s) :
    stepsOf ("/".intercalate ss) = ss := by
  by_cases hne : ss = []
  · rw [hne]
    decide
  · have hslash : ("/" : String) = String.singleton '/' := rfl
    rw [stepsOf, hslash, Text.splitAtChar_intercalate (fun s hs => (h s hs).no_slash) hne,
      List.filter_eq_self]
    intro s hs
    simp [(h s hs).ne_empty, (h s hs).ne_point]

/-- A slash in front adds no step. -/
theorem stepsOf_slash (p : String) : stepsOf ("/" ++ p) = stepsOf p := by
  have hcons : ("/" ++ p).toList = '/' :: p.toList := by rw [String.toList_append]; rfl
  rw [stepsOf, Text.splitAtChar, hcons, Text.splitWhere, if_pos (beq_self_eq_true '/'),
    List.map_cons, List.filter_cons_of_neg (by decide)]
  rfl

/-- What steps make starts with no slash. -/
theorem head?_intercalate_ne {ss : List String} (h : ∀ s ∈ ss, IsStep s) :
    ("/".intercalate ss).toList.head? ≠ some '/' := by
  cases ss with
  | nil => decide
  | cons s ss =>
    have hs := h s List.mem_cons_self
    have hne : s.toList ≠ [] := fun he => hs.ne_empty (String.toList_inj.1 he)
    obtain ⟨c, cs, hc⟩ := List.exists_cons_of_ne_nil hne
    have hslash : c ≠ '/' := fun he => hs.no_slash (by rw [hc, he]; exact List.mem_cons_self)
    rw [String.toList_intercalate, List.map_cons, hc]
    cases ss with
    | nil => simpa using hslash
    | cons t ss => simpa [List.intercalate_cons_cons] using hslash

/-- The root of a text is the slashes in front of one that starts with none. -/
theorem rootOf_append {root rest : String} (hr : root = "" ∨ root = "/" ∨ root = "//")
    (h : rest.toList.head? ≠ some '/') : rootOf (root ++ rest) = root := by
  unfold rootOf
  rw [String.toList_append]
  cases hcs : rest.toList with
  | nil => rcases hr with rfl | rfl | rfl <;> rfl
  | cons c cs =>
    have hc : c ≠ '/' := fun he => h (by rw [hcs, he]; rfl)
    rcases hr with rfl | rfl | rfl
    · simp [hc]
    · simp [hc]
    · simp [hc]

/-- A path without a root is read back from its steps. -/
theorem parse_intercalate {ss : List String} (h : ∀ s ∈ ss, IsStep s) :
    parse ("/".intercalate ss) = ⟨"", ss⟩ := by
  have hroot := rootOf_append (.inl rfl) (head?_intercalate_ne h)
  rw [String.empty_append] at hroot
  rw [parse, hroot, stepsOf_intercalate h]

/-- A path is read back from its text. -/
theorem parse_text {p : Path} (h : p.WellFormed) : parse p.text = p := by
  obtain ⟨root, steps⟩ := p
  unfold text
  split
  · rename_i he
    rw [Bool.and_eq_true] at he
    obtain ⟨hr, hs⟩ := he
    rw [String.isEmpty_iff] at hr
    rw [List.isEmpty_iff] at hs
    cases hr
    cases hs
    decide
  · rw [parse, Path.mk.injEq]
    refine ⟨rootOf_append h.root (head?_intercalate_ne h.steps), ?_⟩
    rcases h.root with rfl | rfl | rfl
    · rw [String.empty_append, stepsOf_intercalate h.steps]
    · rw [stepsOf_slash, stepsOf_intercalate h.steps]
    · rw [show ("//" : String) = "/" ++ "/" from rfl, String.append_assoc, stepsOf_slash,
        stepsOf_slash, stepsOf_intercalate h.steps]

theorem rootOf_text {p : Path} (h : p.WellFormed) : rootOf p.text = p.root := by
  have hp := parse_text h
  rw [parse] at hp
  exact congrArg Path.root hp

theorem stepsOf_text {p : Path} (h : p.WellFormed) : stepsOf p.text = p.steps := by
  have hp := parse_text h
  rw [parse] at hp
  exact congrArg Path.steps hp

theorem text_ne_empty {p : Path} (h : p.WellFormed) : p.text ≠ "" := by
  intro he
  have hp := parse_text h
  rw [he] at hp
  rw [← hp] at he
  exact absurd he (by decide)

end Path

end ExportLint
