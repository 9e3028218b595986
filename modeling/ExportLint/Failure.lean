import ExportLint.Disk.Basic
import ExportLint.Json.Reader
import ExportLint.Named
import ExportLint.Schema.Validated

/-!
# Failures

Everything that can keep an operation from giving an answer, by its cause.
-/
namespace ExportLint

inductive Failure where
  /-- The configuration was refused. -/
  | configuration (errors warnings : List String)
  /-- A record has fields at fault. -/
  | fields (faults : List FieldFault)
  | encoding (error : Text.Utf8.DecodeError)
  /-- An integer has more digits than are read. -/
  | longInteger (digits : Nat)
  | disk (error : DiskError)
  /-- A file was there and was not written. -/
  | unwritten (error : WriteError)
  /-- A source has no content. -/
  | sourceMissing (path : String)
  /-- A source has content that cannot be read as code. -/
  | sourceRefused (path reason : String)
  /-- A value is none of the named alternatives of a kind. -/
  | notMember (value kind : String)
  /-- A choice must be one of some keys. -/
  | notOneOf (choice : String) (keys : List String)
  /-- A key is not known for its use. -/
  | unknownKey (use key : String)
  /-- A value has the wrong type for its use. -/
  | wrongType
  /-- A value lacks the part that is asked for. -/
  | missingPart
  /-- A list is too short for its use, or a name stands for nothing. -/
  | nothingThere
  /-- A log level has no meaning. -/
  | unknownLevel
  /-- A text is not a pattern, or not a replacement. -/
  | badPattern
  /-- A pattern repeats a part more often than can be counted. -/
  | hugeCount
  /-- A pattern asks for the characters of ASCII and for those of Unicode. -/
  | mixedFlags
  /-- An integer has more digits than are written. -/
  | unwritableInteger
  /-- A value is nested deeper than can be written. -/
  | tooDeep
  /-- A tag closes none that is open. It is given with the place where it starts. -/
  | badMarkup (tag : String) (start : Nat)
  deriving DecidableEq, Repr

namespace Failure

def configurationMessage (errors : List String) : String :=
  "Invalid export consistency configuration: " ++
    (if errors.isEmpty then "invalid configuration" else "; ".intercalate errors)

def message : Failure → String
  | .configuration errors _ => configurationMessage errors
  | .fields faults => "\n".intercalate (faults.map (·.text))
  | .encoding e => e.message
  | .longInteger n => (Json.ReadFault.longInteger n).message
  | .disk e => e.message
  | .unwritten e => e.message
  | .sourceMissing p => "Source not found: " ++ p
  | .sourceRefused p reason => "Failed to parse " ++ p ++ ": " ++ reason
  | .notMember v kind => v ++ " is not a valid " ++ kind
  | .notOneOf choice keys => choice ++ " must be one of " ++ ", ".intercalate keys
  | .unknownKey use key => "Unknown " ++ use ++ " key: " ++ key
  | .wrongType => "wrong type"
  | .missingPart => "missing part"
  | .nothingThere => "nothing there"
  | .unknownLevel => "unknown level"
  | .badPattern => "bad pattern"
  | .hugeCount => "the repetition number is too large"
  | .mixedFlags => "ASCII and UNICODE flags are incompatible"
  | .unwritableInteger => "Exceeds the limit (" ++ toString Json.digitLimit ++
    " digits) for integer string conversion; use sys.set_int_max_str_digits() to increase the limit"
  | .tooDeep => "Circular reference detected (depth exceeded)"
  | .badMarkup tag start =>
    "closing tag '[" ++ tag ++ "]' at position " ++ toString start ++
      (if tag = "/" then " has nothing to close" else " doesn't match any open tag")

end Failure

/-- The failure to write a file. -/
def WriteError.failure : WriteError → Failure
  | .disk e => .disk e
  | e => .unwritten e

theorem WriteError.message_failure (e : WriteError) : e.failure.message = e.message := by
  cases e <;> rfl

/-- The valid value, or a failure with the faults of its fields. -/
def Validated.orFail {α : Type} : Validated α → Except Failure α
  | .valid a => .ok a
  | .invalid faults => .error (.fields faults)

/-- The member of a closed set that a text names. -/
def memberNamed {α : Type} [Named α] (kind : String) (s : String) : Except Failure α :=
  match Named.ofName? s with
  | some a => .ok a
  | none => .error (.notMember (Text.quoted s) kind)

end ExportLint
