import ExportLint.Proofs.LineNumbers

/-!
# Reading what was written

The strict reader takes every sequence that the writer makes of a character for that character. So a
text that is written is read back as it was.
-/
namespace ExportLint.Text.Utf8

/-- A byte that continues a sequence. -/
def IsTail (b : UInt8) : Prop := 0x80 ≤ b.toNat ∧ b.toNat < 0xC0

/-- What may follow a lead byte, by its number. -/
theorem expected_eq (a : UInt8) : expected a =
    if a.toNat < 0xC2 then none
    else if a.toNat < 0xE0 then some (1, 0x80, 0xBF)
    else if a.toNat = 0xE0 then some (2, 0xA0, 0xBF)
    else if a.toNat = 0xED then some (2, 0x80, 0x9F)
    else if a.toNat < 0xF0 then some (2, 0x80, 0xBF)
    else if a.toNat = 0xF0 then some (3, 0x90, 0xBF)
    else if a.toNat < 0xF4 then some (3, 0x80, 0xBF)
    else if a.toNat = 0xF4 then some (3, 0x80, 0x8F)
    else none := by
  simp only [expected, UInt8.lt_iff_toNat_lt, ← UInt8.toNat_inj]
  rfl

theorem step_one {a : UInt8} (ha : a.toNat < 0x80) (rest : List UInt8) :
    step a rest = .char (Char.ofNat a.toNat) 1 := by
  unfold step
  exact if_pos (UInt8.lt_iff_toNat_lt.2 ha)

/-- A lead byte and a byte behind it that it allows. -/
theorem step_more {a b low high : UInt8} {n : Nat} (ha : 0x80 ≤ a.toNat)
    (he : expected a = some (n + 1, low, high)) (hlow : low.toNat ≤ b.toNat)
    (hhigh : b.toNat ≤ high.toNat) (rest : List UInt8) :
    step a (b :: rest) = continuations (leadBits a * 64 + b.toNat % 64) 2 n rest := by
  have hlead : ¬a < 0x80 := by
    rw [UInt8.lt_iff_toNat_lt]
    exact Nat.not_lt_of_le ha
  have hrange : (decide (low ≤ b) && decide (b ≤ high)) = true := by
    simp only [Bool.and_eq_true, decide_eq_true_iff, UInt8.le_iff_toNat_le]
    exact ⟨hlow, hhigh⟩
  unfold step
  rw [if_neg hlead, he]
  dsimp only
  rw [if_pos hrange]
  rfl

theorem continuations_tail {b : UInt8} (h : IsTail b) (bits seen n : Nat) (rest : List UInt8) :
    continuations bits seen (n + 1) (b :: rest) =
      continuations (bits * 64 + b.toNat % 64) (seen + 1) n rest := by
  have hb : isContinuation b = true := by
    simp only [isContinuation, Bool.and_eq_true, decide_eq_true_iff,
      UInt8.le_iff_toNat_le, UInt8.lt_iff_toNat_lt]
    exact h
  rw [continuations, if_pos hb]

theorem leadBits_eq (a : UInt8) : leadBits a =
    if a.toNat < 0xE0 then a.toNat % 32 else if a.toNat < 0xF0 then a.toNat % 16
    else a.toNat % 8 := by
  simp only [leadBits, UInt8.lt_iff_toNat_lt]
  rfl

theorem step_two {a b : UInt8} (ha : 0xC2 ≤ a.toNat ∧ a.toNat < 0xE0) (hb : IsTail b)
    (rest : List UInt8) :
    step a (b :: rest) = .char (Char.ofNat (a.toNat % 32 * 64 + b.toNat % 64)) 2 := by
  obtain ⟨hlow, hhigh⟩ := hb
  have he : expected a = some (0 + 1, 0x80, 0xBF) := by
    rw [expected_eq, if_neg (by omega), if_pos ha.2]
  rw [step_more (by omega) he hlow (Nat.le_of_lt_succ hhigh), leadBits_eq, if_pos ha.2]
  rfl

theorem step_three {a b c : UInt8} (ha : 0xE0 ≤ a.toNat ∧ a.toNat < 0xF0) (hb : IsTail b)
    (hc : IsTail c) (hshort : a.toNat = 0xE0 → 0xA0 ≤ b.toNat)
    (hsurrogate : a.toNat = 0xED → b.toNat < 0xA0) (rest : List UInt8) :
    step a (b :: c :: rest) =
      .char (Char.ofNat ((a.toNat % 16 * 64 + b.toNat % 64) * 64 + c.toNat % 64)) 3 := by
  have hbits : leadBits a = a.toNat % 16 := by
    rw [leadBits_eq, if_neg (by omega), if_pos ha.2]
  obtain ⟨hlow, hhigh⟩ := hb
  obtain ⟨low, high, he, hl, hh⟩ : ∃ low high, expected a = some (1 + 1, low, high) ∧
      low.toNat ≤ b.toNat ∧ b.toNat ≤ high.toNat := by
    rw [expected_eq, if_neg (by omega), if_neg (by omega)]
    split
    · rename_i h
      exact ⟨_, _, rfl, hshort h, Nat.le_of_lt_succ hhigh⟩
    · split
      · rename_i h
        exact ⟨_, _, rfl, hlow, Nat.le_of_lt_succ (hsurrogate h)⟩
      · rw [if_pos ha.2]
        exact ⟨_, _, rfl, hlow, Nat.le_of_lt_succ hhigh⟩
  rw [step_more (by omega) he hl hh, continuations_tail hc, hbits]
  rfl

theorem step_four {a b c e : UInt8} (ha : 0xF0 ≤ a.toNat ∧ a.toNat ≤ 0xF4) (hb : IsTail b)
    (hc : IsTail c) (he : IsTail e) (hshort : a.toNat = 0xF0 → 0x90 ≤ b.toNat)
    (hlong : a.toNat = 0xF4 → b.toNat < 0x90) (rest : List UInt8) :
    step a (b :: c :: e :: rest) =
      .char (Char.ofNat (((a.toNat % 8 * 64 + b.toNat % 64) * 64 + c.toNat % 64) * 64 +
        e.toNat % 64)) 4 := by
  have hbits : leadBits a = a.toNat % 8 := by
    rw [leadBits_eq, if_neg (by omega), if_neg (by omega)]
  obtain ⟨hlow, hhigh⟩ := hb
  obtain ⟨low, high, hexp, hl, hh⟩ : ∃ low high, expected a = some (2 + 1, low, high) ∧
      low.toNat ≤ b.toNat ∧ b.toNat ≤ high.toNat := by
    rw [expected_eq, if_neg (by omega), if_neg (by omega), if_neg (by omega), if_neg (by omega),
      if_neg (by omega)]
    split
    · rename_i h
      exact ⟨_, _, rfl, hshort h, Nat.le_of_lt_succ hhigh⟩
    · split
      · exact ⟨_, _, rfl, hlow, Nat.le_of_lt_succ hhigh⟩
      · rename_i h
        have h4 : a.toNat = 0xF4 := by omega
        rw [if_pos h4]
        exact ⟨_, _, rfl, hlow, Nat.le_of_lt_succ (hlong h4)⟩
  rw [step_more (by omega) hexp hl hh, continuations_tail hc, continuations_tail he, hbits]
  rfl

/-- A character is read from the bytes that it is written in. -/
theorem exists_step_utf8EncodeChar (c : Char) : ∃ a tail, String.utf8EncodeChar c = a :: tail ∧
    ∀ rest, step a (tail ++ rest) = .char c (tail.length + 1) := by
  have hvalid : c.val.toNat < 0xD800 ∨ 0xDFFF < c.val.toNat ∧ c.val.toNat < 0x110000 := c.valid
  have hchar {n : Nat} (h : n = c.val.toNat) : Char.ofNat n = c := by
    rw [h]
    exact Char.ofNat_toNat c
  have hbyte {n : Nat} (h : n < 256) : (UInt8.ofNat n).toNat = n := UInt8.toNat_ofNat_of_lt' h
  have htail (n : Nat) : IsTail (UInt8.ofNat (n % 64 + 128)) := by
    rw [IsTail, hbyte (by omega)]
    omega
  by_cases h1 : c.val.toNat ≤ 0x7f
  · refine ⟨_, _, if_pos h1, fun rest => ?_⟩
    have ha := hbyte (n := c.val.toNat) (by omega)
    rw [List.nil_append, step_one (by omega), ha, hchar rfl]
    rfl
  have hb := hbyte (n := c.val.toNat % 64 + 128) (by omega)
  by_cases h2 : c.val.toNat ≤ 0x7ff
  · refine ⟨_, _, (if_neg h1).trans (if_pos h2), fun rest => ?_⟩
    have ha := hbyte (n := c.val.toNat / 64 % 32 + 192) (by omega)
    refine (step_two (by omega) (htail _) rest).trans ?_
    rw [ha, hb, hchar (by omega)]
    rfl
  have hc := hbyte (n := c.val.toNat / 64 % 64 + 128) (by omega)
  by_cases h3 : c.val.toNat ≤ 0xffff
  · refine ⟨_, _, (if_neg h1).trans ((if_neg h2).trans (if_pos h3)), fun rest => ?_⟩
    have ha := hbyte (n := c.val.toNat / 4096 % 16 + 224) (by omega)
    refine (step_three (by omega) (htail _) (htail _) (by omega) (by omega) rest).trans ?_
    rw [ha, hb, hc, hchar (by omega)]
    rfl
  · refine ⟨_, _, (if_neg h1).trans ((if_neg h2).trans (if_neg h3)), fun rest => ?_⟩
    have ha := hbyte (n := c.val.toNat / 262144 % 8 + 240) (by omega)
    have he := hbyte (n := c.val.toNat / 4096 % 64 + 128) (by omega)
    refine (step_four (by omega) (htail _) (htail _) (htail _) (by omega) (by omega) rest).trans ?_
    rw [ha, hb, hc, he, hchar (by omega)]
    rfl

theorem decodeFrom_skip (n : Nat) (tail rest : List UInt8) :
    decodeFrom n tail.length (tail ++ rest) = decodeFrom (n + tail.length) 0 rest := by
  induction tail generalizing n with
  | nil => rfl
  | cons b tail ih =>
    rw [List.length_cons, List.cons_append, decodeFrom, ih]
    congr 1
    omega

/-- What is written is read back. -/
theorem decode_encode (cs : List Char) : decode (encode (String.ofList cs)) = .ok cs := by
  have hread (n : Nat) : decodeFrom n 0 (cs.flatMap String.utf8EncodeChar) = .ok cs := by
    induction cs generalizing n with
    | nil => rfl
    | cons c cs ih =>
      obtain ⟨a, tail, hc, hstep⟩ := exists_step_utf8EncodeChar c
      rw [List.flatMap_cons, hc, List.cons_append, decodeFrom, hstep]
      dsimp only
      rw [Nat.add_sub_cancel, decodeFrom_skip, ih]
      rfl
  rw [decode, encode_ofList]
  exact hread 0

end ExportLint.Text.Utf8
