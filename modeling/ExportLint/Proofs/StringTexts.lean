import ExportLint.Json.Reader
import ExportLint.Json.Writer

/-!
# Strings read back from their texts

Every character of a string stands for itself, or is written as a short escape, a code unit or a
pair of them. The reader makes the same character of each of these.
-/
namespace ExportLint.Json

variable {n : Nat} {rest start acc : List Char} {c : Char}

theorem hexValue?_hexDigit (hn : n < 16) : hexValue? (hexDigit n) = some n := by
  have hall : ∀ k : Fin 16, hexValue? (hexDigit k) = some k.val := by decide
  exact hall ⟨n, hn⟩

/-- Four hexadecimal digits. -/
def quad (n : Nat) : List Char :=
  [hexDigit (n / 4096 % 16), hexDigit (n / 256 % 16), hexDigit (n / 16 % 16), hexDigit (n % 16)]

theorem hexQuad?_quad (hn : n < 0x10000) (rest : List Char) :
    hexQuad? (quad n ++ rest) = some (n, rest) := by
  have hvalue : ((n / 4096 % 16 * 16 + n / 256 % 16) * 16 + n / 16 % 16) * 16 + n % 16 = n := by
    omega
  have hlt (k : Nat) : k % 16 < 16 := Nat.mod_lt k (by omega)
  simp only [quad, List.cons_append, List.nil_append, hexQuad?, hexValue?_hexDigit (hlt _),
    Option.bind_eq_bind, Option.bind_some, hvalue]

/-- A code unit that is not half of a pair is read as its character. -/
theorem readUnicodeEscape_quad (hn : n < 0x10000) (hlow : isLowSurrogate n = false)
    (hhigh : isHighSurrogate n = false) (hrest : rest ≠ []) :
    readUnicodeEscape start (quad n ++ rest) = .ok (Char.ofNat n, rest) := by
  rw [readUnicodeEscape, hexQuad?_quad hn]
  obtain ⟨c, cs, rfl⟩ := List.exists_cons_of_ne_nil hrest
  simp [hhigh, hlow, unitChar]

/-- A pair of code units is read as one character. -/
theorem readUnicodeEscape_pair (hn : n < 0x100000) (hrest : rest ≠ []) :
    readUnicodeEscape start (quad (0xD800 + n / 1024) ++
      '\\' :: 'u' :: (quad (0xDC00 + n % 1024) ++ rest)) = .ok (Char.ofNat (0x10000 + n), rest) := by
  have hhigh : isHighSurrogate (0xD800 + n / 1024) = true := by
    simp [isHighSurrogate]
    omega
  have hlow : isLowSurrogate (0xDC00 + n % 1024) = true := by
    simp [isLowSurrogate]
    omega
  have hlen : 6 < ('\\' :: 'u' :: (quad (0xDC00 + n % 1024) ++ rest)).length := by
    have hpos := List.length_pos_iff.2 hrest
    simp only [quad, List.length_cons, List.length_append, List.length_nil]
    omega
  rw [readUnicodeEscape, hexQuad?_quad (by omega)]
  simp only [hhigh, hlen, decide_true, Bool.and_self, if_true, hexQuad?_quad
    (show 0xDC00 + n % 1024 < 0x10000 by omega), hlow]
  have hvalue : 0x10000 + (0xD800 + n / 1024 - 0xD800) * 1024 + (0xDC00 + n % 1024 - 0xDC00) =
      0x10000 + n := by omega
  rw [hvalue]

theorem readString_unicode {fuel : Nat} {digits after : List Char} {d : Char}
    (h : readUnicodeEscape ('u' :: digits) digits = .ok (d, after)) :
    readString start (fuel + 1) acc ('\\' :: 'u' :: digits) =
      readString start fuel (d :: acc) after := by
  simp only [readString, h]

theorem readString_plain {fuel : Nat} (hquote : c ≠ '"') (hback : c ≠ '\\')
    (hcontrol : ¬c.toNat < 32) :
    readString start (fuel + 1) acc (c :: rest) = readString start fuel (c :: acc) rest := by
  rw [readString, if_neg hcontrol]
  · exact hquote
  · exact hback

/-- A character is never half of a pair. -/
theorem not_surrogate (c : Char) :
    isLowSurrogate c.toNat = false ∧ isHighSurrogate c.toNat = false := by
  have hvalid : c.toNat < 0xD800 ∨ 0xDFFF < c.toNat ∧ c.toNat < 0x110000 := c.valid
  simp only [isLowSurrogate, isHighSurrogate, Bool.and_eq_false_iff, decide_eq_false_iff_not]
  omega

/-- A character in quotes is read as itself. -/
theorem readString_escapeChar {fuel : Nat} (ascii : Bool) (c : Char) (hrest : rest ≠ []) :
    readString start (fuel + 1) acc (escapeChar ascii c ++ rest) =
      readString start fuel (c :: acc) rest := by
  obtain ⟨hlow, hhigh⟩ := not_surrogate c
  have hunit (hn : c.toNat < 0x10000) :
      readString start (fuel + 1) acc (unitEscape c.toNat ++ rest) =
        readString start fuel (c :: acc) rest := by
    refine readString_unicode ((readUnicodeEscape_quad hn hlow hhigh hrest).trans ?_)
    rw [Char.ofNat_toNat]
  unfold escapeChar
  split
  · rfl
  · rfl
  · rfl
  · rfl
  · rfl
  · rfl
  · rfl
  · rename_i hquote hback _ _ _ _ _
    split
    · exact hunit (by omega)
    · rename_i hcontrol
      split
      · rw [unitEscapes]
        split
        · exact hunit ‹_›
        · have hvalid : c.toNat < 0xD800 ∨ 0xDFFF < c.toNat ∧ c.toNat < 0x110000 := c.valid
          rw [List.append_assoc]
          refine readString_unicode ((readUnicodeEscape_pair (by omega) hrest).trans ?_)
          rw [Nat.add_sub_cancel' (by omega), Char.ofNat_toNat]
      · exact readString_plain hquote hback hcontrol

/-- The characters of a string, as they stand in quotes. -/
def escaped (ascii : Bool) (s : List Char) : List Char := s.flatMap (escapeChar ascii)

theorem unitEscapes_ne_nil (n : Nat) : unitEscapes n ≠ [] := by
  rw [unitEscapes]
  split <;> exact List.cons_ne_nil _ _

theorem escapeChar_ne_nil (ascii : Bool) (c : Char) : escapeChar ascii c ≠ [] := by
  unfold escapeChar
  split <;> try exact List.cons_ne_nil _ _
  split
  · exact List.cons_ne_nil _ _
  · split
    · exact unitEscapes_ne_nil _
    · exact List.cons_ne_nil _ _

theorem length_le_escaped (ascii : Bool) (s : List Char) : s.length ≤ (escaped ascii s).length := by
  induction s with
  | nil => exact Nat.le_refl 0
  | cons c s ih =>
    have hpos := List.length_pos_iff.2 (escapeChar_ne_nil ascii c)
    rw [escaped, List.flatMap_cons, List.length_append, List.length_cons, ← escaped]
    omega

theorem readString_escaped {fuel : Nat} (ascii : Bool) (s : List Char) (hfuel : s.length < fuel) :
    readString start fuel acc (escaped ascii s ++ '"' :: rest) =
      .ok (String.ofList (acc.reverse ++ s), rest) := by
  induction s generalizing fuel acc with
  | nil =>
    obtain ⟨fuel, rfl⟩ := Nat.exists_eq_add_one.2 hfuel
    simp [escaped, readString]
  | cons c s ih =>
    obtain ⟨fuel, rfl⟩ := Nat.exists_eq_add_one.2 (Nat.zero_lt_of_lt hfuel)
    rw [escaped, List.flatMap_cons, List.append_assoc, readString_escapeChar ascii c (by simp),
      ← escaped, ih (Nat.lt_of_succ_lt_succ hfuel), List.reverse_cons, List.append_assoc,
      List.singleton_append]

end ExportLint.Json
