/-!
# Validation that reports everything

Reading a record tries every field and reports all faults, in the order of the fields. A value is
valid only if none of its parts is at fault.
-/
namespace ExportLint

/-- What is wrong with a part of a value. The path leads from the value to that part. -/
structure FieldFault where
  path : List String
  message : String
  deriving DecidableEq, Repr

namespace FieldFault

/-- The path with points between its steps, and the message. -/
def text (f : FieldFault) : String :=
  if f.path.isEmpty then f.message else ".".intercalate f.path ++ ": " ++ f.message

/-- The fault seen from one step further out. -/
def under (step : String) (f : FieldFault) : FieldFault := { f with path := step :: f.path }

end FieldFault

/-- A value, or everything that is wrong with it. -/
inductive Validated (α : Type) where
  | valid (a : α)
  | invalid (faults : List FieldFault)
  deriving Repr

namespace Validated

variable {α β : Type}

def map (f : α → β) : Validated α → Validated β
  | .valid a => .valid (f a)
  | .invalid es => .invalid es

/-- Both parts are read, and the faults of the first come first. -/
def ap : Validated (α → β) → Validated α → Validated β
  | .valid f, .valid a => .valid (f a)
  | .valid _, .invalid es => .invalid es
  | .invalid es, .valid _ => .invalid es
  | .invalid es, .invalid fs => .invalid (es ++ fs)

instance : Applicative Validated where
  pure := .valid
  map := map
  seq f a := ap f (a ())

/-- A further test on a value that is valid so far. -/
def andThen (v : Validated α) (f : α → Validated β) : Validated β :=
  match v with
  | .valid a => f a
  | .invalid es => .invalid es

/-- One fault at the value itself. -/
def fail (message : String) : Validated α := .invalid [⟨[], message⟩]

def under (step : String) : Validated α → Validated α
  | .valid a => .valid a
  | .invalid es => .invalid (es.map (·.under step))

@[simp] theorem under_valid (step : String) (a : α) : under step (.valid a) = .valid a := rfl

/-- A pair is valid exactly when both parts are. -/
theorem ap_eq_valid_iff {f : Validated (α → β)} {v : Validated α} {b : β} :
    ap f v = .valid b ↔ ∃ g a, f = .valid g ∧ v = .valid a ∧ g a = b := by
  cases f <;> cases v <;> simp [ap]

end Validated

end ExportLint
