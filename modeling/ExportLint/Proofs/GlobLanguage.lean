import ExportLint.Scan.Glob

/-!
# The language of a glob

The tokens of a glob each take a stretch of a text, one after the other, and a glob matches what its
tokens take together. A directory is left out of a scan if its path with a slash behind it is
matched, which is right if whatever is below it is matched too. That holds of globs whose last
tokens go on over slashes, and of those that no slash ends; it fails for one that ends in a slash,
or in a star behind a slash.
-/
namespace ExportLint

namespace Glob

/-- A token takes a stretch of a text. -/
def Token.Takes : Token → List Char → Prop
  | .directories, a => a = [] ∨ ∃ lead, a = lead ++ ['/'] ∧ '\n' ∉ lead
  | .anything, a => '\n' ∉ a
  | .withinStep, a => '/' ∉ a
  | .oneChar, a => ∃ c, c ≠ '/' ∧ a = [c]
  | .literal c, a => a = [c]

/-- Tokens take a text, each its own stretch of it. -/
def Takes : List Token → List Char → Prop
  | [], cs => cs = []
  | t :: ts, cs => ∃ a b, cs = a ++ b ∧ t.Takes a ∧ Takes ts b

/-- Tokens match a text that they take, be it with a line feed behind it. -/
def Matches (ts : List Token) (cs : List Char) : Prop :=
  Takes ts cs ∨ ∃ lead, cs = lead ++ ['\n'] ∧ Takes ts lead

variable {ts us : List Token} {t : Token} {cs rest : List Char}

theorem after_iff {p : Char → Bool} {accepts : List Char → Bool} :
    after p accepts cs = true ↔
      ∃ a b, cs = a ++ b ∧ (∀ c ∈ a, p c = true) ∧ accepts b = true := by
  induction cs with
  | nil =>
    constructor
    · exact fun h => ⟨[], [], rfl, fun _ hc => absurd hc List.not_mem_nil, h⟩
    · rintro ⟨a, b, he, -, hb⟩
      rw [(List.append_eq_nil_iff.1 he.symm).2] at hb
      exact hb
  | cons c cs ih =>
    rw [after, Bool.or_eq_true, Bool.and_eq_true, ih]
    constructor
    · rintro (h | ⟨hc, a, b, rfl, ha, hb⟩)
      · exact ⟨[], c :: cs, rfl, fun _ hc => absurd hc List.not_mem_nil, h⟩
      · exact ⟨c :: a, b, rfl, List.forall_mem_cons.2 ⟨hc, ha⟩, hb⟩
    · rintro ⟨a, b, he, ha, hb⟩
      cases a with
      | nil => exact .inl (he ▸ hb)
      | cons d a =>
        obtain ⟨rfl, rfl⟩ := List.cons.inj he
        exact .inr ⟨(List.forall_mem_cons.1 ha).1, a, b, rfl, (List.forall_mem_cons.1 ha).2, hb⟩

theorem afterSlash_iff {accepts : List Char → Bool} :
    afterSlash accepts cs = true ↔
      ∃ lead b, cs = lead ++ '/' :: b ∧ '\n' ∉ lead ∧ accepts b = true := by
  induction cs with
  | nil => simp [afterSlash]
  | cons c cs ih =>
    rw [afterSlash, Bool.or_eq_true, Bool.and_eq_true, Bool.and_eq_true, ih, beq_iff_eq, bne_iff_ne]
    constructor
    · rintro (⟨rfl, h⟩ | ⟨hc, lead, b, rfl, hn, hb⟩)
      · exact ⟨[], cs, rfl, List.not_mem_nil, h⟩
      · exact ⟨c :: lead, b, rfl, List.not_mem_cons_of_ne_of_not_mem (Ne.symm hc) hn, hb⟩
    · rintro ⟨lead, b, he, hn, hb⟩
      cases lead with
      | nil =>
        obtain ⟨rfl, rfl⟩ := List.cons.inj he
        exact .inl ⟨rfl, hb⟩
      | cons d lead =>
        obtain ⟨rfl, rfl⟩ := List.cons.inj he
        exact .inr ⟨Ne.symm (List.ne_of_not_mem_cons hn), lead, b, rfl,
          List.not_mem_of_not_mem_cons hn, hb⟩

/-- The first token takes a stretch, and the others match what is left. -/
theorem matches_cons_iff : Matches (t :: ts) cs ↔
    ∃ a b, cs = a ++ b ∧ t.Takes a ∧ Matches ts b := by
  constructor
  · rintro (⟨a, b, he, ha, hb⟩ | ⟨lead, rfl, a, b, rfl, ha, hb⟩)
    · exact ⟨a, b, he, ha, .inl hb⟩
    · exact ⟨a, b ++ ['\n'], List.append_assoc _ _ _, ha, .inr ⟨b, rfl, hb⟩⟩
  · rintro ⟨a, b, rfl, ha, hb | ⟨lead, rfl, hb⟩⟩
    · exact .inl ⟨a, b, rfl, ha, hb⟩
    · exact .inr ⟨a ++ lead, (List.append_assoc _ _ _).symm, a, lead, rfl, ha, hb⟩

/-- Tokens match a text exactly if it is in their language. -/
theorem matchTokens_iff : matchTokens ts cs = true ↔ Matches ts cs := by
  induction ts generalizing cs with
  | nil =>
    rw [matchTokens, Bool.or_eq_true, List.isEmpty_iff, beq_iff_eq]
    constructor
    · rintro (h | h)
      · exact .inl h
      · exact .inr ⟨[], h, rfl⟩
    · rintro (h | ⟨lead, he, hl⟩)
      · exact .inl h
      · exact .inr (by rw [he, show lead = [] from hl]; rfl)
  | cons t ts ih =>
    rw [matches_cons_iff]
    cases t with
    | directories =>
      rw [matchTokens, Bool.or_eq_true, afterSlash_iff]
      constructor
      · rintro (h | ⟨lead, b, rfl, hn, hb⟩)
        · exact ⟨[], cs, rfl, .inl rfl, ih.1 h⟩
        · exact ⟨lead ++ ['/'], b, by simp, .inr ⟨lead, rfl, hn⟩, ih.1 hb⟩
      · rintro ⟨a, b, rfl, rfl | ⟨lead, rfl, hn⟩, hb⟩
        · exact .inl (ih.2 hb)
        · exact .inr ⟨lead, b, by simp, hn, ih.2 hb⟩
    | anything =>
      rw [matchTokens, after_iff]
      simp only [Token.Takes, isLineFeed, ih, Bool.not_eq_true', beq_eq_false_iff_ne,
        List.forall_mem_ne']
    | withinStep =>
      rw [matchTokens, after_iff]
      simp only [Token.Takes, isSlash, ih, Bool.not_eq_true', beq_eq_false_iff_ne,
        List.forall_mem_ne']
    | oneChar =>
      constructor
      · intro h
        cases cs with
        | nil => cases h
        | cons c cs =>
          rw [matchTokens, Bool.and_eq_true, Bool.not_eq_true', isSlash, beq_eq_false_iff_ne] at h
          exact ⟨[c], cs, rfl, ⟨c, h.1, rfl⟩, ih.1 h.2⟩
      · rintro ⟨a, b, rfl, ⟨c, hc, rfl⟩, hb⟩
        simp [matchTokens, isSlash, hc, ih.2 hb]
    | literal c =>
      constructor
      · intro h
        cases cs with
        | nil => cases h
        | cons d cs =>
          rw [matchTokens, Bool.and_eq_true, beq_iff_eq] at h
          exact ⟨[c], cs, by rw [h.1]; rfl, rfl, ih.1 h.2⟩
      · rintro ⟨a, b, rfl, rfl, hb⟩
        simp [matchTokens, ih.2 hb]

/-- Tokens in two parts take a text in two parts. -/
theorem takes_append_iff :
    Takes (us ++ ts) cs ↔ ∃ a b, cs = a ++ b ∧ Takes us a ∧ Takes ts b := by
  induction us generalizing cs with
  | nil =>
    constructor
    · exact fun h => ⟨[], cs, rfl, rfl, h⟩
    · rintro ⟨a, b, rfl, rfl, hb⟩
      exact hb
  | cons u us ih =>
    constructor
    · rintro ⟨a, b, rfl, ha, hb⟩
      obtain ⟨b, c, rfl, hb, hc⟩ := ih.1 hb
      exact ⟨a ++ b, c, (List.append_assoc _ _ _).symm, ⟨a, b, rfl, ha, hb⟩, hc⟩
    · rintro ⟨a, b, rfl, ⟨a, c, rfl, ha, hc⟩, hb⟩
      exact ⟨a, c ++ b, List.append_assoc _ _ _, ha, ih.2 ⟨c, b, rfl, hc, hb⟩⟩

theorem takes_concat_iff :
    Takes (us ++ [t]) cs ↔ ∃ a b, cs = a ++ b ∧ Takes us a ∧ t.Takes b := by
  rw [takes_append_iff]
  constructor
  · rintro ⟨a, b, rfl, ha, b, c, rfl, hb, rfl⟩
    exact ⟨a, b, by rw [List.append_nil], ha, hb⟩
  · rintro ⟨a, b, rfl, ha, hb⟩
    exact ⟨a, b, rfl, ha, b, [], (List.append_nil b).symm, hb, rfl⟩

/-- A glob that matches a directory with a slash behind it matches everything below: it ends in two
stars, in a star behind those or behind directories, or in what no slash at the end matches. -/
def sweeps (ts : List Token) : Bool :=
  match ts.reverse with
  | .directories :: _ => false
  | .literal c :: _ => c != '/'
  | .withinStep :: .literal c :: _ => c != '/'
  | .withinStep :: .withinStep :: _ => false
  | _ => true

/-- A text that ends in a slash ends in one where it is cut, unless nothing is behind the cut. -/
theorem getLast?_of_append_eq {a b q : List Char} (h : q ++ ['/'] = a ++ b) :
    b = [] ∨ b.getLast? = some '/' := by
  rcases List.eq_nil_or_concat b with rfl | ⟨l, c, rfl⟩
  · exact .inl rfl
  · rw [List.concat_eq_append, ← List.append_assoc] at h
    obtain ⟨-, hc⟩ := List.append_inj' h rfl
    rw [List.concat_eq_append, ← hc]
    exact .inr List.getLast?_concat

/-- Within a step there is nothing behind the last slash of a text that ends in one. -/
theorem eq_nil_of_takes_withinStep {a b q : List Char} (h : q ++ ['/'] = a ++ b)
    (hb : Token.withinStep.Takes b) : b = [] := by
  rcases getLast?_of_append_eq h with hb' | hb'
  · exact hb'
  · exact absurd (List.mem_of_getLast? hb') hb

theorem concat_slash_ne {a q : List Char} {c : Char} (hc : c ≠ '/') :
    q ++ ['/'] ≠ a ++ [c] := by
  intro h
  rcases getLast?_of_append_eq h with hb | hb
  · cases hb
  · exact hc (Option.some.inj hb)

/-- A text without line feeds is directories and a step. -/
theorem exists_directories_step (h : '\n' ∉ rest) :
    ∃ a b, rest = a ++ b ∧ Token.directories.Takes a ∧ Token.withinStep.Takes b := by
  induction rest with
  | nil => exact ⟨[], [], rfl, .inl rfl, List.not_mem_nil⟩
  | cons c rest ih =>
    have hc := List.ne_of_not_mem_cons h
    obtain ⟨a, b, rfl, ha, hb⟩ := ih (List.not_mem_of_not_mem_cons h)
    rcases ha with rfl | ⟨lead, rfl, hl⟩
    · by_cases hs : c = '/'
      · exact ⟨[c], b, rfl, .inr ⟨[], by rw [hs]; rfl, List.not_mem_nil⟩, hb⟩
      · exact ⟨[], c :: b, rfl, .inl rfl, List.not_mem_cons_of_ne_of_not_mem (Ne.symm hs) hb⟩
    · exact ⟨c :: lead ++ ['/'], b, rfl,
        .inr ⟨c :: lead, rfl, List.not_mem_cons_of_ne_of_not_mem hc hl⟩, hb⟩

/-- Directories may be followed by more directories. -/
theorem directories_append {a b : List Char} (ha : Token.directories.Takes a)
    (hb : Token.directories.Takes b) : Token.directories.Takes (a ++ b) := by
  rcases hb with rfl | ⟨lead, rfl, hl⟩
  · rw [List.append_nil]
    exact ha
  · rcases ha with rfl | ⟨lead', rfl, hl'⟩
    · exact .inr ⟨lead, rfl, hl⟩
    · refine .inr ⟨lead' ++ '/' :: lead, by simp, fun hm => ?_⟩
      rcases List.mem_append.1 hm with hm | hm
      · exact hl' hm
      · exact List.not_mem_cons_of_ne_of_not_mem (by decide) hl hm

/-- What sweeps takes everything below a directory that it takes. -/
theorem takes_below {q : List Char} (hs : sweeps ts = true) (h : Takes ts (q ++ ['/']))
    (hn : '\n' ∉ rest) : Takes ts (q ++ ['/'] ++ rest) := by
  obtain ⟨rs, rfl⟩ : ∃ rs, ts = rs.reverse := ⟨ts.reverse, (List.reverse_reverse ts).symm⟩
  rw [sweeps, List.reverse_reverse] at hs
  cases rs with
  | nil => simp [Takes] at h
  | cons r rs =>
    rw [List.reverse_cons] at h ⊢
    obtain ⟨a, b, he, ha, hb⟩ := takes_concat_iff.1 h
    rw [he]
    cases r with
    | directories => cases hs
    | anything =>
      rw [List.append_assoc]
      refine takes_concat_iff.2 ⟨a, b ++ rest, rfl, ha, fun hm => ?_⟩
      exact (List.mem_append.1 hm).elim hb hn
    | oneChar =>
      obtain ⟨c, hc, rfl⟩ := hb
      exact absurd he (concat_slash_ne hc)
    | literal c =>
      rw [show b = [c] from hb] at he
      exact absurd he (concat_slash_ne (bne_iff_ne.1 hs))
    | withinStep =>
      have hnil : b = [] := eq_nil_of_takes_withinStep he hb
      rw [hnil, List.append_nil] at he ⊢
      cases rs with
      | nil =>
        rw [show a = [] from ha] at he
        simp at he
      | cons r rs =>
        rw [List.reverse_cons] at ha ⊢
        obtain ⟨a', b', rfl, ha', hb'⟩ := takes_concat_iff.1 ha
        cases r with
        | directories =>
          obtain ⟨more, step, rfl, hmore, hstep⟩ := exists_directories_step hn
          refine takes_concat_iff.2 ⟨a' ++ (b' ++ more), step, by simp, ?_, hstep⟩
          exact takes_concat_iff.2 ⟨a', b' ++ more, rfl, ha', directories_append hb' hmore⟩
        | anything =>
          refine takes_concat_iff.2 ⟨a' ++ (b' ++ rest), [], by simp, ?_, List.not_mem_nil⟩
          exact takes_concat_iff.2 ⟨a', b' ++ rest, rfl, ha',
            fun hm => (List.mem_append.1 hm).elim hb' hn⟩
        | withinStep => cases hs
        | oneChar =>
          obtain ⟨c, hc, rfl⟩ := hb'
          exact absurd he (concat_slash_ne hc)
        | literal c =>
          rw [show b' = [c] from hb'] at he
          exact absurd he (concat_slash_ne (bne_iff_ne.1 hs))

end Glob

/-- A glob that sweeps matches what is below a directory that it matches. -/
theorem globMatches_below {glob directory rest : String}
    (hs : Glob.sweeps (Glob.tokens glob.toList) = true)
    (h : globMatches glob (directory ++ "/") = true) (hn : '\n' ∉ rest.toList) :
    globMatches glob (directory ++ "/" ++ rest) = true := by
  have hslash : "/".toList = ['/'] := rfl
  rw [globMatches, Glob.matchTokens_iff, String.toList_append, hslash] at h
  rw [globMatches, Glob.matchTokens_iff, String.toList_append, String.toList_append, hslash]
  rcases h with h | ⟨lead, he, -⟩
  · exact .inl (Glob.takes_below hs h hn)
  · exact absurd he (Glob.concat_slash_ne (by decide))

end ExportLint
