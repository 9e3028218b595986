import ExportLint.Json.Reader
import ExportLint.Report.Html

/-!
# Texts on pages

A page may refer to a character by a name or by a number. Escaping writes five characters as
references, so that no text opens or closes a tag. Resolving the references gives the text back,
whatever other names are known.
-/
namespace ExportLint.Report.Html

/-- What references stand for. Names come with their semicolons, where they have them. -/
structure References where
  named : List Char → Option (List Char)
  numbered : Nat → List Char

namespace References

/-- The references that escaping writes stand for what is escaped. -/
structure Standard (r : References) : Prop where
  ampersand : r.named "amp;".toList = some ['&']
  less : r.named "lt;".toList = some ['<']
  greater : r.named "gt;".toList = some ['>']
  quote : r.named "quot;".toList = some ['"']
  apostrophe : r.numbered 0x27 = ['\'']

def isNameChar (c : Char) : Bool := !(['\t', '\n', '\x0c', ' ', '<', '&', '#', ';'].contains c)

/-- The longest known name that a text begins with, and the rest of the text behind it. A name has
two characters at least. -/
def longest? (r : References) (cs : List Char) : Option (List Char) :=
  ((List.range cs.length).reverse.filter (2 ≤ ·)).findSome? fun n =>
    (r.named (cs.take n)).map (· ++ cs.drop n)

/-- What a name stands for. An unknown one stands for itself. -/
def resolve (r : References) (name : List Char) : List Char :=
  ((r.named name).or (r.longest? name)).getD ('&' :: name)

/-- A semicolon that ends a reference belongs to it. -/
def ending (cs : List Char) : Nat := if cs.head? = some ';' then 1 else 0

/-- A reference by number behind its mark: the digits of a base and what ends them. -/
def numeral? (r : References) (base mark : Nat) (cs : List Char) : Option (List Char × Nat) :=
  let digits := cs.takeWhile fun c => (Json.hexValue? c).any (· < base)
  let n := digits.foldl (fun n c => n * base + (Json.hexValue? c).getD 0) 0
  if digits.isEmpty then none
  else some (r.numbered n, mark + digits.length + ending (cs.drop digits.length))

/-- A reference by number, behind the ampersand. -/
def number? (r : References) : List Char → Option (List Char × Nat)
  | '#' :: 'x' :: ds => r.numeral? 16 2 ds
  | '#' :: 'X' :: ds => r.numeral? 16 2 ds
  | '#' :: ds => r.numeral? 10 1 ds
  | _ => none

/-- A reference by name, behind the ampersand. Names are read up to a length. -/
def name? (r : References) (cs : List Char) : Option (List Char × Nat) :=
  let name := (cs.takeWhile isNameChar).take 32
  let length := name.length + ending (cs.drop name.length)
  if name.isEmpty then none else some (r.resolve (cs.take length), length)

/-- The reference that a text begins with behind an ampersand: what it stands for and how long it
is. -/
def reference? (r : References) (cs : List Char) : Option (List Char × Nat) :=
  (r.number? cs).or (r.name? cs)

/-- A text with its references resolved. -/
def unescape (r : References) : List Char → List Char
  | [] => []
  | c :: cs =>
    if c = '&' then
      match r.reference? cs with
      | some (text, n) => text ++ r.unescape (cs.drop n)
      | none => '&' :: r.unescape cs
    else c :: r.unescape cs
termination_by cs => cs.length

end References

variable {r : References} {c : Char}

theorem escapeChar_eq_self (h : c ∉ ['&', '<', '>', '"', '\'']) : escapeChar c = [c] := by
  simp only [List.mem_cons, List.not_mem_nil, or_false, not_or] at h
  obtain ⟨h₁, h₂, h₃, h₄, h₅⟩ := h
  unfold escapeChar
  split
  · exact (h₁ rfl).elim
  · exact (h₂ rfl).elim
  · exact (h₃ rfl).elim
  · exact (h₄ rfl).elim
  · exact (h₅ rfl).elim
  · rfl

theorem toList_escape (s : String) : (escape s).toList = s.toList.flatMap escapeChar := by
  rw [escape, String.toList_ofList]

theorem escape_append (s t : String) : escape (s ++ t) = escape s ++ escape t := by
  apply String.toList_inj.1
  rw [String.toList_append, toList_escape, toList_escape, toList_escape, String.toList_append,
    List.flatMap_append]

/-- The two marks of a tag. -/
def isAngle (c : Char) : Bool := c == '<' || c == '>'

theorem isAngle_of_mem_escapeChar {d : Char} (h : d ∈ escapeChar c) : isAngle d = false := by
  by_cases hc : c ∈ ['&', '<', '>', '"', '\'']
  · have hmarks : (['&', '<', '>', '"', '\''].all fun c =>
        (escapeChar c).all fun d => !isAngle d) = true := by decide
    simpa using List.all_eq_true.1 (List.all_eq_true.1 hmarks c hc) d h
  · rw [escapeChar_eq_self hc, List.mem_singleton] at h
    subst h
    simp only [List.mem_cons, not_or] at hc
    simp [isAngle, hc.2.1, hc.2.2.1]

/-- No text opens or closes a tag. -/
theorem isAngle_of_mem_escape {s : String} {d : Char} (h : d ∈ (escape s).toList) :
    isAngle d = false := by
  rw [toList_escape, List.mem_flatMap] at h
  obtain ⟨c, -, hd⟩ := h
  exact isAngle_of_mem_escapeChar hd

namespace References

theorem unescape_reference {cs text : List Char} {n : Nat} (h : r.reference? cs = some (text, n)) :
    r.unescape ('&' :: cs) = text ++ r.unescape (cs.drop n) := by
  rw [unescape, if_pos rfl, h]

/-- A name with a semicolon is read as far as that. -/
theorem unescape_named (name : List Char) {text : List Char}
    (hname : r.named (name ++ [';']) = some text) (hne : name ≠ [])
    (hchars : name.all isNameChar = true) (hlen : name.length ≤ 32) (rest : List Char) :
    r.unescape ('&' :: (name ++ ';' :: rest)) = text ++ r.unescape rest := by
  have hfirst : (name ++ ';' :: rest).takeWhile isNameChar = name := by
    rw [List.takeWhile_append_of_pos (List.all_eq_true.1 hchars)]
    simp [isNameChar]
  have hsplit : name ++ ';' :: rest = (name ++ [';']) ++ rest := by simp
  have htake : (name ++ ';' :: rest).take (name.length + 1) = name ++ [';'] := by
    rw [hsplit, List.take_left' (by simp)]
  have hdrop : (name ++ ';' :: rest).drop (name.length + 1) = rest := by
    rw [hsplit, List.drop_left' (by simp)]
  have hnumber : r.number? (name ++ ';' :: rest) = none := by
    cases name with
    | nil => exact (hne rfl).elim
    | cons c cs =>
      have hc : c ≠ '#' := by
        rintro rfl
        cases hchars
      rw [List.cons_append, number?] <;> simp [hc]
  have href : r.reference? (name ++ ';' :: rest) = some (text, name.length + 1) := by
    rw [reference?, hnumber, Option.none_or, name?, hfirst, List.take_of_length_le hlen,
      List.drop_left, ending, List.head?_cons, if_pos rfl, htake, resolve, hname]
    simp [hne]
  rw [unescape_reference href, hdrop]

theorem unescape_escapeChar (hr : r.Standard) (c : Char) (rest : List Char) :
    r.unescape (escapeChar c ++ rest) = c :: r.unescape rest := by
  by_cases hc : c ∈ ['&', '<', '>', '"', '\'']
  · simp only [List.mem_cons, List.not_mem_nil, or_false] at hc
    rcases hc with rfl | rfl | rfl | rfl | rfl
    · exact unescape_named ['a', 'm', 'p'] hr.ampersand (by decide) (by decide) (by decide) rest
    · exact unescape_named ['l', 't'] hr.less (by decide) (by decide) (by decide) rest
    · exact unescape_named ['g', 't'] hr.greater (by decide) (by decide) (by decide) rest
    · exact unescape_named ['q', 'u', 'o', 't'] hr.quote (by decide) (by decide) (by decide) rest
    · have href : r.reference? ("#x27;".toList ++ rest) = some (['\''], 5) := by
        rw [← hr.apostrophe]
        rfl
      exact unescape_reference href
  · rw [escapeChar_eq_self hc]
    simp only [List.mem_cons, not_or] at hc
    rw [List.singleton_append, unescape, if_neg hc.1]

/-- Resolving references gives back what was escaped, also where references stood in it. -/
theorem unescape_escape (hr : r.Standard) (s : String) :
    r.unescape (escape s).toList = s.toList := by
  rw [toList_escape]
  induction s.toList with
  | nil => rw [List.flatMap_nil, unescape]
  | cons c cs ih => rw [List.flatMap_cons, unescape_escapeChar hr, ih]

end References

end ExportLint.Report.Html
