import ExportLint.Proofs.JsonTexts
import ExportLint.Text.Lines

/-!
# The line ends of written values

Carriage returns are escaped in strings and stand nowhere else, so a written text keeps its lines
when all line ends are made alike.
-/
namespace ExportLint.Json

open Decimal (Binary64 Numeral NumberForm digitsOf padDigits)

section Lines

theorem return_not_mem_digitsOf (n : Nat) : '\r' ∉ digitsOf n := by
  intro h
  have hdigit := allDigits_digitsOf n _ h
  cases hdigit

theorem return_not_mem_numeral (form : NumberForm) (d : Numeral) : '\r' ∉ d.render form := by
  have hdigits (n : Nat) : '\r' ∉ digitsOf n := return_not_mem_digitsOf n
  have htake (n k : Nat) : '\r' ∉ (digitsOf n).take k := fun h => hdigits n (List.mem_of_mem_take h)
  have hdrop (n k : Nat) : '\r' ∉ (digitsOf n).drop k := fun h => hdigits n (List.mem_of_mem_drop h)
  have htail (n : Nat) : '\r' ∉ (digitsOf n).tail := fun h => hdigits n (List.mem_of_mem_tail h)
  unfold Numeral.render
  dsimp only
  split
  · split
    · simp [hdigits, List.mem_replicate]
    · split
      · simp [htake, hdrop]
      · simp [hdigits, List.mem_replicate]
  · split <;> split <;> simp [htake, htail, hdigits, padDigits, List.mem_replicate]

theorem return_not_mem_real (x : Binary64) : '\r' ∉ (x.render numberForm).toList := by
  have hsign (s : Bool) : '\r' ∉ (if s then "-" else "").toList := by cases s <;> decide
  cases x with
  | nan => decide
  | infinite s => cases s <;> decide
  | finite s m e =>
    rw [Binary64.render]
    split
    · rw [String.toList_append, List.mem_append]
      exact not_or.2 ⟨hsign s, by decide⟩
    · rw [String.toList_append, String.toList_ofList, List.mem_append]
      exact not_or.2 ⟨hsign s, return_not_mem_numeral _ _⟩

theorem return_not_mem_int (i : Int) : '\r' ∉ (toString i).toList := by
  rw [Int.toString_eq_repr, Int.repr_eq_if]
  split
  · rw [Nat.toList_repr]
    exact return_not_mem_digitsOf _
  · rw [String.toList_append, Nat.toList_repr, List.mem_append]
    exact not_or.2 ⟨by decide, return_not_mem_digitsOf _⟩

theorem return_not_mem_escapeChar (ascii : Bool) (c : Char) : '\r' ∉ escapeChar ascii c := by
  have hhex (n : Nat) : '\r' ≠ hexDigit (n % 16) := by
    have hall : ∀ k : Fin 16, '\r' ≠ hexDigit k := by decide
    exact hall ⟨n % 16, Nat.mod_lt n (by omega)⟩
  have hunit (n : Nat) : '\r' ∉ unitEscape n := by simp [unitEscape, hhex]
  unfold escapeChar
  split
  all_goals try decide
  rename_i hreturn _ _ _
  split
  · exact hunit _
  · split
    · rw [unitEscapes]
      split <;> simp [hunit]
    · exact fun h => hreturn (List.mem_singleton.1 h).symm

theorem return_not_mem_quote (ascii : Bool) (s : String) : '\r' ∉ (quote ascii s).toList := by
  simp [toList_quote, escaped, return_not_mem_escapeChar]

theorem return_not_mem_break (lay : Layout) (depth : Nat) : '\r' ∉ (lay.break depth).toList := by
  rw [Layout.break]
  split <;> simp [List.mem_replicate]

theorem return_not_mem_colon (lay : Layout) : '\r' ∉ lay.colon.toList := by
  rw [Layout.colon]
  split <;> decide

mutual

/-- Carriage returns are escaped, and lines end with line feeds. -/
theorem return_not_mem_write (lay : Layout) (depth : Nat) :
    ∀ v : Json, '\r' ∉ (write lay depth v).toList
  | .null => by simp [write]
  | .bool b => by cases b <;> simp [write]
  | .int i => return_not_mem_int i
  | .real x => return_not_mem_real x
  | .str s => return_not_mem_quote lay.ascii s
  | .arr [] => by simp [write]
  | .arr (v :: vs) => by
    simp [toList_write_list, return_not_mem_write lay (depth + 1) v, return_not_mem_break,
      return_not_mem_items lay (depth + 1) vs]
  | .obj [] => by simp [write]
  | .obj ((k, v) :: ms) => by
    simp [toList_write_object, return_not_mem_write lay (depth + 1) v, return_not_mem_break,
      return_not_mem_quote, return_not_mem_colon, return_not_mem_members lay (depth + 1) ms]

theorem return_not_mem_items (lay : Layout) (depth : Nat) :
    ∀ vs : List Json, '\r' ∉ (writeItems lay depth vs).toList
  | [] => by simp [writeItems]
  | v :: vs => by
    simp [toList_writeItems, return_not_mem_write lay depth v, return_not_mem_break,
      return_not_mem_items lay depth vs]

theorem return_not_mem_members (lay : Layout) (depth : Nat) :
    ∀ ms : List (String × Json), '\r' ∉ (writeMembers lay depth ms).toList
  | [] => by simp [writeMembers]
  | (k, v) :: ms => by
    simp [toList_writeMembers, return_not_mem_write lay depth v, return_not_mem_break,
      return_not_mem_quote, return_not_mem_colon, return_not_mem_members lay depth ms]

end

end Lines

theorem universalNewlines_of_not_mem {cs : List Char} (h : '\r' ∉ cs) :
    Text.universalNewlines cs = cs := by
  induction cs with
  | nil => rfl
  | cons c cs ih =>
    obtain ⟨hc, hcs⟩ := not_or.1 (List.mem_cons.not.1 h)
    rw [Text.universalNewlines, ih hcs]
    · exact fun _ he => absurd he.symm hc
    · exact fun he => hc he.symm

end ExportLint.Json
