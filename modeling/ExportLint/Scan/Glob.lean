import ExportLint.Text.Lines

/-!
# Globs

A glob describes relative paths. A star stands for any characters within a step, a question mark for
one of them, two stars for any characters, and two stars with a slash for any number of leading
directories. What matches may also have one line feed at its end.
-/
namespace ExportLint

namespace Glob

inductive Token where
  /-- Any number of whole directories. -/
  | directories
  | anything
  /-- Any characters within a step. -/
  | withinStep
  | oneChar
  | literal (c : Char)
  deriving DecidableEq, Repr

/-- The tokens of a glob, the longest first. -/
def tokens : List Char → List Token
  | '*' :: '*' :: '/' :: cs => .directories :: tokens cs
  | '*' :: '*' :: cs => .anything :: tokens cs
  | '*' :: cs => .withinStep :: tokens cs
  | '?' :: cs => .oneChar :: tokens cs
  | c :: cs => .literal c :: tokens cs
  | [] => []

/-- Some characters that satisfy `p` can be passed so that the rest is accepted. -/
def after (p : Char → Bool) (accepts : List Char → Bool) : List Char → Bool
  | [] => accepts []
  | c :: cs => accepts (c :: cs) || (p c && after p accepts cs)

/-- The rest behind some slash is accepted, and no line feed comes before it. -/
def afterSlash (accepts : List Char → Bool) : List Char → Bool
  | [] => false
  | c :: cs => (c == '/' && accepts cs) || (c != '\n' && afterSlash accepts cs)

def isSlash (c : Char) : Bool := c == '/'

def isLineFeed (c : Char) : Bool := c == '\n'

def matchTokens : List Token → List Char → Bool
  | [], cs => cs.isEmpty || cs == ['\n']
  | .directories :: ts, cs => matchTokens ts cs || afterSlash (matchTokens ts) cs
  | .anything :: ts, cs => after (fun c => !isLineFeed c) (matchTokens ts) cs
  | .withinStep :: ts, cs => after (fun c => !isSlash c) (matchTokens ts) cs
  | .oneChar :: ts, cs =>
    match cs with
    | c :: cs => !isSlash c && matchTokens ts cs
    | [] => false
  | .literal a :: ts, cs =>
    match cs with
    | c :: cs => a == c && matchTokens ts cs
    | [] => false

end Glob

/-- A path matches a glob. -/
def globMatches (glob path : String) : Bool :=
  Glob.matchTokens (Glob.tokens glob.toList) path.toList

/-- A path matches one of some globs. -/
def matchesAny (globs : List String) (path : String) : Bool := globs.any fun g => globMatches g path

end ExportLint
