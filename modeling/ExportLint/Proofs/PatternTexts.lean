import ExportLint.Scan.GlobPattern

/-!
# Reading the texts of patterns

The reader takes the items of a sequence one by one. An escaped character is read as that character,
and a repetition takes the item before it, unless a mark behind it says otherwise.
-/
namespace ExportLint.Pattern

variable {fuel : Nat} {first : Bool} {s : Partial} {g : Groups} {ts : List Token} {c : Char}

/-- Tokens are cut from the text that they make, if no backslash stands alone. -/
theorem tokens_flatMap_text (h : .char '\\' ∉ ts) : tokens (ts.flatMap Token.text) = .ok ts := by
  induction ts with
  | nil => rfl
  | cons t ts ih =>
    have hrest := ih fun hm => h (List.mem_cons_of_mem _ hm)
    cases t with
    | char c =>
      have hc : c ≠ '\\' := fun he => h (he ▸ List.mem_cons_self)
      rw [List.flatMap_cons, Token.text, List.singleton_append, tokens.eq_4 _ _ (by simp [hc])
        (by simp [hc]), hrest]
      rfl
    | escaped c =>
      rw [List.flatMap_cons, Token.text]
      simp only [List.cons_append, List.nil_append]
      rw [tokens, hrest]
      rfl

/-- The token that is cut from the text for one character. -/
def literal (c : Char) : Token := if c ∈ specialChars then .escaped c else .char c

theorem text_literal (c : Char) : (literal c).text = escapeChar c := by
  rw [literal, escapeChar]
  split <;> rfl

theorem literal_ne {d : Char} (hd : d ∈ specialChars) (c : Char) : literal c ≠ .char d := by
  rw [literal]
  split
  · exact Token.noConfusion
  · rename_i hc
    exact fun he => hc (Token.char.inj he ▸ hd)

/-- An escaped character is read as itself. -/
theorem readEscape_special (h : c ∈ specialChars) (r : Reader) :
    readEscape r c ts = .ok (.char r.mode c.toNat, { r with rest := ts }) := by
  have hall : (specialChars.all fun c => category? c = none ∧ anchor? c = none ∧
      (control? c = some c.toNat ∨ control? c = none ∧ isDecimal c = false ∧
        Text.Letter.isAsciiAlpha c = false)) = true := by decide +kernel
  obtain ⟨hcategory, hanchor, hcontrol | ⟨hcontrol, hdecimal, halpha⟩⟩ :=
    of_decide_eq_true (List.all_eq_true.1 hall c h)
  · rw [readEscape, hcategory, hanchor, hcontrol]
  · have hcode : readCodeEscape c ts = .ok (c.toNat, ts) := by
      unfold readCodeEscape
      split
      · cases halpha
      · cases halpha
      · cases halpha
      · rw [halpha]
        rfl
    rw [readEscape, hcategory, hanchor, hcontrol]
    dsimp only
    rw [hdecimal, hcode]
    rfl

theorem readSequence_literal (c : Char) :
    readSequence (fuel + 1) first s ⟨{}, g, literal c :: ts⟩ =
      readSequence fuel first (s.push (.char {} c.toNat) .item) ⟨{}, g, ts⟩ := by
  rw [literal]
  split
  · rename_i h
    rw [readSequence]
    dsimp only
    rw [readEscape_special h]
    rfl
  · rename_i h
    have hne {d : Char} (hd : d ∈ specialChars) : c ≠ d := fun he => h (he ▸ hd)
    have hreserved : c ≠ '|' ∧ c ≠ ')' ∧ c ≠ '[' ∧ c ≠ '.' ∧ c ≠ '^' ∧ c ≠ '$' ∧ c ≠ '?' ∧
        c ≠ '*' ∧ c ≠ '+' ∧ c ≠ '{' ∧ c ≠ '(' := by
      refine ⟨?_, ?_, ?_, ?_, ?_, ?_, ?_, ?_, ?_, ?_, ?_⟩ <;> exact hne (by decide)
    simp [readSequence, hreserved]

/-- Signs that are items by themselves. -/
def sign? : Char → Option (Pattern × Last)
  | '.' => some (.any {}, .item)
  | '^' => some (.anchor {} .lineStart, .anchor)
  | '$' => some (.anchor {} .lineEnd, .anchor)
  | _ => none

theorem readSequence_sign {p : Pattern} {last : Last} (h : sign? c = some (p, last)) :
    readSequence (fuel + 1) first s ⟨{}, g, .char c :: ts⟩ =
      readSequence fuel first (s.push p last) ⟨{}, g, ts⟩ := by
  unfold sign? at h
  split at h
  · cases h
    rw [readSequence]
    rfl
  · cases h
    rw [readSequence]
    rfl
  · cases h
    rw [readSequence]
    rfl
  · cases h

theorem readSequence_end :
    readSequence (fuel + 1) first s ⟨{}, g, []⟩ = .ok (s.pattern, ⟨{}, g, []⟩) := by
  rw [readSequence]

/-- A mark that changes how the repetition in front of it goes on. -/
def StartsMark (ts : List Token) : Prop :=
  ts.head? = some (.char '?') ∨ ts.head? = some (.char '+')

/-- Without such a mark a repetition takes as much as it can. -/
theorem repeatLast_most {before item : Pattern} {low : Nat} {high : Option Nat} {r : Reader}
    (h : ¬StartsMark ts) :
    Partial.repeatLast ⟨before, item, .item⟩ low high r ts =
      .ok (⟨before, .rep low high .most item, .repeated⟩, { r with rest := ts }) := by
  unfold Partial.repeatLast
  dsimp only
  split
  · exact absurd (.inl rfl) h
  · exact absurd (.inr rfl) h
  · rfl

/-- What is pushed stands behind the same items, whatever it is. -/
theorem push_eq (s : Partial) :
    ∃ before, ∀ item last, s.push item last = ⟨before, item, last⟩ := by
  unfold Partial.push
  split
  · exact ⟨_, fun _ _ => rfl⟩
  · exact ⟨_, fun _ _ => rfl⟩

/-- The marks of any number and of at most one. -/
def repetition? : Char → Option (Option Nat)
  | '*' => some none
  | '?' => some (some 1)
  | _ => none

/-- An item with a mark behind it is pushed as its repetition. -/
theorem readSequence_repetition {p : Pattern} {high : Option Nat}
    (hc : repetition? c = some high) (h : ¬StartsMark ts) :
    readSequence (fuel + 1) first (s.push p .item) ⟨{}, g, .char c :: ts⟩ =
      readSequence fuel first (s.push (.rep 0 high .most p) .repeated) ⟨{}, g, ts⟩ := by
  obtain ⟨before, hpush⟩ := push_eq s
  rw [hpush, hpush]
  have hread : readSequence (fuel + 1) first ⟨before, p, .item⟩ ⟨{}, g, .char c :: ts⟩ =
      (Partial.repeatLast ⟨before, p, .item⟩ 0 high ⟨{}, g, .char c :: ts⟩ ts).bind
        fun read => readSequence fuel first read.1 read.2 := by
    unfold repetition? at hc
    split at hc
    · cases hc
      rw [readSequence]
      rfl
    · cases hc
      rw [readSequence]
      rfl
    · cases hc
  rw [hread, repeatLast_most h]
  rfl

end ExportLint.Pattern
