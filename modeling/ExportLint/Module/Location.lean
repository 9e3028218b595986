import ExportLint.Schema.Field

/-!
# Places in source files

Lines and columns are counted from one; a column counts bytes.
-/
namespace ExportLint

structure Location where
  file : String
  startLine : Int
  startColumn : Int
  endLine : Int
  endColumn : Int
  deriving DecidableEq, Repr

namespace Location

def read : Schema.Reader Location :=
  Schema.record "SourceLocation" fun ms =>
    Location.mk <$> Schema.field ms "filePath" Schema.string
      <*> Schema.field ms "startLine" Schema.integer
      <*> Schema.field ms "startColumn" Schema.integer
      <*> Schema.field ms "endLine" Schema.integer
      <*> Schema.field ms "endColumn" Schema.integer

def toJson (l : Location) : Json :=
  .obj [("filePath", .str l.file), ("startLine", .int l.startLine),
    ("startColumn", .int l.startColumn), ("endLine", .int l.endLine),
    ("endColumn", .int l.endColumn)]

/-- The file, the first line and the first column. -/
def text (l : Location) : String :=
  l.file ++ ":" ++ toString l.startLine ++ ":" ++ toString l.startColumn

end Location

end ExportLint
