import ExportLint.Pattern.Search

/-!
# The stretches that patterns take

A pattern without groups and anchors takes a stretch of the text from a position on, and what comes
after it is matched behind the stretch. The choices that a search goes through, one after the other,
make up all ways to divide the text: a repetition of single characters that is tried at full length
first and then given back is any number of them.
-/
namespace ExportLint.Pattern

variable {p q : Pattern} {L M : List Char → Prop} {f : Char → Bool} {k : Next} {s : Position}
  {c : Char} {cs : List Char}

/-- The position behind a stretch of a text. -/
def Position.behind (s : Position) (a b : List Char) : Position :=
  { s with before := a.reverse ++ s.before, after := b }

@[simp] theorem Position.behind_nil (s : Position) : s.behind [] s.after = s := rfl

@[simp] theorem Position.behind_behind (s : Position) (a b c d : List Char) :
    (s.behind a b).behind c d = s.behind (a ++ c) d := by
  simp [Position.behind]

@[simp] theorem Position.behind_after (s : Position) (a b : List Char) :
    (s.behind a b).after = b := rfl

/-- A matcher takes the stretches of a language, and what comes after it is matched behind. -/
def Takes (m : Matcher) (L : List Char → Prop) : Prop :=
  ∀ k s, (m k s).isSome = true ↔
    ∃ a b, s.after = a ++ b ∧ L a ∧ (k (s.behind a b)).isSome = true

theorem Takes.congr {m : Matcher} (h : Takes m L) (hL : ∀ a, L a ↔ M a) : Takes m M := by
  intro k s
  rw [h k s]
  simp only [hL]

/-- One character that satisfies a test. -/
theorem takes_step (f : Char → Bool) : Takes (step f) fun a => ∃ c, f c = true ∧ a = [c] := by
  intro k s
  cases hs : s.after with
  | nil =>
    rw [step, Position.advance, hs]
    constructor
    · exact fun h => absurd h (by simp)
    · rintro ⟨a, b, hb, ⟨c, -, rfl⟩, -⟩
      cases hb
  | cons c cs =>
    have hbehind : s.behind [c] cs = { s with before := c :: s.before, after := cs } := rfl
    rw [step, Position.advance, hs]
    dsimp only
    rw [← hbehind]
    constructor
    · intro h
      split at h
      · rename_i hc
        exact ⟨[c], cs, rfl, ⟨c, hc, rfl⟩, h⟩
      · cases h
    · rintro ⟨a, b, hb, ⟨d, hd, rfl⟩, h⟩
      obtain ⟨rfl, rfl⟩ := List.cons.inj hb
      rw [if_pos hd]
      exact h

theorem takes_empty : Takes (run .empty) (· = []) := by
  intro k s
  constructor
  · exact fun h => ⟨[], s.after, rfl, rfl, h⟩
  · rintro ⟨a, b, hb, rfl, h⟩
    rw [List.nil_append] at hb
    rw [← hb, s.behind_nil] at h
    exact h

/-- One stretch behind the other. -/
theorem takes_then {m n : Matcher} (hm : Takes m L) (hn : Takes n M) :
    Takes (fun k => m (n k)) fun a => ∃ b c, a = b ++ c ∧ L b ∧ M c := by
  intro k s
  rw [hm]
  simp only [hn k, Position.behind_after, Position.behind_behind]
  constructor
  · rintro ⟨a, _, ha, hL, b, c, rfl, hM, h⟩
    exact ⟨a ++ b, c, by rw [ha, List.append_assoc], ⟨a, b, rfl, hL, hM⟩, h⟩
  · rintro ⟨_, c, ha, ⟨a, b, rfl, hL, hM⟩, h⟩
    exact ⟨a, b ++ c, by rw [ha, List.append_assoc], hL, b, c, rfl, hM, h⟩

theorem takes_seq (hp : Takes (run p) L) (hq : Takes (run q) M) :
    Takes (run (.seq p q)) fun a => ∃ b c, a = b ++ c ∧ L b ∧ M c := by
  rw [run]
  exact takes_then hp hq

/-- Rounds of one character each, as long as there are enough of them. -/
theorem takes_rounds {fuel : Nat} {last : Option Nat} (hfuel : s.after.length < fuel)
    (hlast : last ≠ some s.after.length) :
    (rounds (step f) true fuel none last k s).isSome = true ↔
      ∃ a b, s.after = a ++ b ∧ (∀ c ∈ a, f c = true) ∧ (k (s.behind a b)).isSome = true := by
  induction fuel generalizing s last with
  | zero => exact absurd hfuel (Nat.not_lt_zero _)
  | succ fuel ih =>
    have hstop : ¬((none : Option Nat) = some 0 ∨ last = some s.after.length) := by simp [hlast]
    rw [rounds]
    simp only [if_neg hstop, Option.map_none, if_true, Option.isSome_or, Bool.or_eq_true]
    rw [takes_step f]
    constructor
    · rintro (⟨_, b, hb, ⟨c, hc, rfl⟩, h⟩ | h)
      · have hlength : s.after.length = b.length + 1 := by rw [hb]; rfl
        rw [ih (by simp only [Position.behind_after]; omega)
          (by simp [hlength])] at h
        obtain ⟨a, b', rfl, ha, h⟩ := h
        refine ⟨c :: a, b', hb, List.forall_mem_cons.2 ⟨hc, ha⟩, ?_⟩
        rwa [Position.behind_behind] at h
      · exact ⟨[], s.after, rfl, fun _ hc => absurd hc List.not_mem_nil, h⟩
    · rintro ⟨a, b, hb, ha, h⟩
      cases a with
      | nil =>
        rw [List.nil_append] at hb
        rw [← hb, s.behind_nil] at h
        exact .inr h
      | cons c a =>
        obtain ⟨hc, ha⟩ := List.forall_mem_cons.1 ha
        refine .inl ⟨[c], a ++ b, hb, ⟨c, hc, rfl⟩, ?_⟩
        have hlength : s.after.length = (a ++ b).length + 1 := by rw [hb]; rfl
        rw [ih (by simp only [Position.behind_after]; omega) (by simp [hlength])]
        exact ⟨a, b, rfl, ha, by rwa [Position.behind_behind]⟩

/-- Any number of characters that satisfy a test. -/
theorem takes_star (hp : run p = step f) :
    Takes (run (.rep 0 none .most p)) fun a => ∀ c ∈ a, f c = true := by
  intro k s
  rw [run, hp]
  exact takes_rounds (by omega) (by simp)

/-- A stretch, or nothing. -/
theorem takes_optional (hp : Takes (run p) L) :
    Takes (run (.rep 0 (some 1) .most p)) fun a => a = [] ∨ L a := by
  intro k s
  have hrun : run (.rep 0 (some 1) .most p) k s = (run p k s).or (k s) := by
    simp [run, times, rounds]
  rw [hrun, Option.isSome_or, Bool.or_eq_true, hp]
  constructor
  · rintro (⟨a, b, hb, hL, h⟩ | h)
    · exact ⟨a, b, hb, .inr hL, h⟩
    · exact ⟨[], s.after, rfl, .inl rfl, h⟩
  · rintro ⟨a, b, hb, rfl | hL, h⟩
    · rw [List.nil_append] at hb
      rw [← hb, s.behind_nil] at h
      exact .inr h
    · exact .inl ⟨a, b, hb, hL, h⟩

end ExportLint.Pattern
