/-!
# Closed sets of named alternatives

A type with finitely many values, each of which has a name. A text names a value exactly when it is
that value's name.
-/
namespace ExportLint

class Named (α : Type) where
  /-- The values in their order. -/
  all : List α
  name : α → String

namespace Named

variable {α : Type} [Named α]

/-- The value with a name. -/
def ofName? (s : String) : Option α := (all : List α).find? fun a => name a == s

end Named

end ExportLint
