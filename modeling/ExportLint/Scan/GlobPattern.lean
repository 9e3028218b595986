import ExportLint.Pattern.Search
import ExportLint.Scan.Glob

/-!
# Globs as regular patterns

A glob is written as a pattern token by token, between the anchors of a line. Characters that mean
something in a pattern are escaped.
-/
namespace ExportLint

namespace Pattern

/-- Characters with a meaning of their own in a pattern, or in one of its modes. -/
def specialChars : List Char := "()[]\x7b\x7d?*+-|^$\\.&~# \t\n\r\x0b\x0c".toList

/-- The text of a pattern for one character. -/
def escapeChar (c : Char) : List Char := if c ∈ specialChars then ['\\', c] else [c]

/-- The pattern matches at the start of the text. -/
def occursAtStart (p : Pattern) (text : String) : Bool := (run p some ⟨[], text.toList, []⟩).isSome

end Pattern

namespace Glob

/-- The text of a pattern for one token of a glob. -/
def Token.patternText : Token → List Char
  | .directories => "(?:.*/)?".toList
  | .anything => ".*".toList
  | .withinStep => "[^/]*".toList
  | .oneChar => "[^/]".toList
  | .literal c => Pattern.escapeChar c

/-- A glob as the text of a pattern. -/
def patternText (glob : String) : String :=
  String.ofList ('^' :: ((tokens glob.toList).flatMap Token.patternText ++ ['$']))

end Glob

end ExportLint
