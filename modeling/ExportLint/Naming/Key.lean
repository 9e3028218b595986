import ExportLint.Json.Value
import ExportLint.Text.CaseMap
import ExportLint.Text.Lines

/-!
# Keys of settings

Keys may be written with underscores between their words. Such a key stands for the camel-case key,
so that both spellings name one setting. Free-form options keep their keys.
-/
namespace ExportLint.Naming

open Text (Letter.isAsciiAlpha Letter.isAsciiDigit Letter.isAsciiUpper)

def isAlnum (c : Char) : Bool := Letter.isAsciiAlpha c || Letter.isAsciiDigit c

/-- Drop every underscore between an ASCII letter or digit and a capital or a digit. -/
def closeGaps : List Char → List Char
  | a :: '_' :: b :: cs =>
    if isAlnum a && (Letter.isAsciiUpper b || Letter.isAsciiDigit b) then a :: closeGaps (b :: cs)
    else a :: closeGaps ('_' :: b :: cs)
  | c :: cs => c :: closeGaps cs
  | [] => []

/-- Lower case for the first letter behind leading underscores, if it is an ASCII capital. -/
def lowerFirst (cs : List Char) : List Char :=
  let lead := cs.takeWhile (· == '_')
  match cs.dropWhile (· == '_') with
  | [] => cs
  | c :: rest => lead ++ Text.CaseMap.asciiLower c :: rest

def camelCase (key : String) : String :=
  String.ofList (lowerFirst (closeGaps (Text.CaseMap.title key).toList))

/-- A key has an underscore between other characters. -/
def hasInnerUnderscore (key : String) : Bool :=
  (Text.dropTrailing '_' (key.toList.dropWhile (· == '_'))).contains '_'

def settingKey (key : String) : String :=
  if hasInnerUnderscore key then camelCase key else key

mutual

/-- Settings with every key in camel case. What stands under `options` is left alone. -/
def camelizeKeys : Json → Json
  | .obj ms => .obj (Json.Members.ofList (camelizeMembers ms))
  | .arr vs => .arr (camelizeItems vs)
  | v => v

def camelizeMembers : List (String × Json) → List (String × Json)
  | [] => []
  | (k, v) :: ms =>
    (settingKey k, if k = "options" then v else camelizeKeys v) :: camelizeMembers ms

def camelizeItems : List Json → List Json
  | [] => []
  | v :: vs => camelizeKeys v :: camelizeItems vs

end

end ExportLint.Naming
