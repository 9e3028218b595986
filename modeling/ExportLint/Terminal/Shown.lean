import ExportLint.Text.Lines
import ExportLint.Text.Width

/-!
# Text as a terminal shows it

Before a text is shown, short names of symbols between colons become the symbols, controls that
would move the cursor go away, and tabs become blanks up to the next stop.
-/
namespace ExportLint.Terminal

/-- Symbols by their short names: the numbers that can follow a path, and common signs. -/
def symbols : List (String × String) :=
  [("100", "💯"), ("1234", "🔢"), ("a", "🅰"), ("b", "🅱"), ("boom", "💥"), ("bug", "🐛"),
    ("bulb", "💡"), ("fire", "🔥"), ("heart", "❤"), ("key", "🔑"), ("lock", "🔒"), ("m", "Ⓜ"),
    ("memo", "📝"), ("o", "⭕"), ("ok", "🆗"), ("rocket", "🚀"), ("smile", "😄"), ("sparkles", "✨"),
    ("star", "⭐"), ("tada", "🎉"), ("v", "✌"), ("warning", "⚠"), ("x", "❌"), ("zap", "⚡")]

/-- Endings of a short name that choose between the plain and the coloured form of its symbol. -/
def forms : List (String × Char) :=
  [("-text", Char.ofNat 0xFE0E), ("-emoji", Char.ofNat 0xFE0F)]

/-- The symbol of what stands between two colons. -/
def symbol? (name : String) : Option String :=
  match forms.find? fun f => name.endsWith f.1 with
  | some (ending, form) =>
    (symbols.lookup (name.dropEnd ending.length).copy.toLower).map (·.push form)
  | none => symbols.lookup name.toLower

/-- What stands before the next colon, without blanks, and what follows that colon. -/
def upToColon? : List Char → Option (List Char × List Char)
  | [] => none
  | ':' :: cs => some ([], cs)
  | c :: cs =>
    if Text.Letter.isBlank c then none
    else (upToColon? cs).map fun (name, rest) => (c :: name, rest)

theorem length_upToColon? {cs name rest : List Char} (h : upToColon? cs = some (name, rest)) :
    rest.length < cs.length := by
  fun_induction upToColon? cs generalizing name with
  | case1 => simp at h
  | case2 cs => simp only [Option.some.injEq, Prod.mk.injEq] at h; simp [h.2]
  | case3 => simp at h
  | case4 c cs hc hb ih =>
    obtain ⟨⟨n, r⟩, hr, he⟩ := Option.map_eq_some_iff.1 h
    simp only [Prod.mk.injEq] at he
    have hn : upToColon? cs = some (n, rest) := by rw [hr, he.2]
    have := ih hn
    simp only [List.length_cons]
    omega

/-- A text with short names replaced. One that stands for nothing stays as it is. -/
def withSymbols : List Char → List Char
  | [] => []
  | c :: cs =>
    if c = ':' then
      match h : upToColon? cs with
      | some (name, rest) =>
        have := length_upToColon? h
        match symbol? (String.ofList name) with
        | some s => s.toList ++ withSymbols rest
        | none => ':' :: name ++ ':' :: withSymbols rest
      | none => ':' :: withSymbols cs
    else c :: withSymbols cs
  termination_by cs => cs.length

/-- Controls that move the cursor: bell, backspace, vertical tab, form feed, carriage return. -/
def movesCursor (c : Char) : Bool := [7, 8, 11, 12, 13].contains c.toNat

/-- The distance of two tab stops. -/
def tabWidth : Nat := 8

/-- A line whose tabs are blanks up to the next stop, from a column on. -/
def expandTabs (column : Nat) : List Char → List Char
  | [] => []
  | '\t' :: cs =>
    let n := tabWidth - column % tabWidth
    List.replicate n ' ' ++ expandTabs (column + n) cs
  | '\n' :: cs => '\n' :: expandTabs 0 cs
  | c :: cs => c :: expandTabs (column + Text.Width.ofChar c) cs

/-- A text with its symbols and without the controls that move the cursor. -/
def cleaned (cs : List Char) : List Char := (withSymbols cs).filter fun c => !movesCursor c

/-- A text as it is shown. -/
def shown (s : String) : String := String.ofList (expandTabs 0 (cleaned s.toList))

end ExportLint.Terminal
