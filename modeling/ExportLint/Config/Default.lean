import ExportLint.Config.Basic

/-!
# Standard settings

The settings of a project that says nothing, as the data that overrides are merged into. Rules that
have no options of their own leave them out.
-/
namespace ExportLint.Config

def quietRule (name description severity : String) : Json :=
  .obj [("name", .str name), ("description", .str description), ("severity", .str severity)]

/-- The rules in the order in which they are listed and saved. -/
def standardRules : List Json :=
  [quietRule "consistent-naming" "Export names follow the naming convention of their kind"
      "warning",
    quietRule "no-duplicate-exports" "A name is exported at most once per file" "error",
    quietRule "default-export-naming" "A named default export matches the file base name" "warning",
    .obj [("name", .str "export-patterns"), ("description", .str "Forbid selected export forms"),
      ("enabled", .bool false), ("severity", .str "warning"),
      ("options", .obj [("noDefaultExport", .bool false), ("noNamespaceExport", .bool false),
        ("noReexport", .bool false)])],
    .obj [("name", .str "no-global-conflicts"),
      ("description", .str "A name is exported from at most one file in the project"),
      ("severity", .str "error"),
      ("options", .obj [("ignoreNames", .arr []), ("ignoreReexports", .bool false)])],
    quietRule "import-export-match" "Imported names exist in the target module" "error",
    quietRule "no-missing-exports" "Imported names declared in the target module are exported"
      "error",
    .obj [("name", .str "type-export-consistency"),
      ("description", .str "Type-level exports use type-only syntax"), ("severity", .str "warning"),
      ("options", .obj [("preferTypeOnlyImports", .bool true)])],
    .obj [("name", .str "no-unused-exports"),
      ("description", .str "Exports are imported somewhere in the project"),
      ("enabled", .bool false), ("severity", .str "info"),
      ("options", .obj [("entryPoints",
        Json.strings ["**/index.ts", "**/index.tsx", "**/main.ts", "**/main.tsx"])])],
    quietRule "no-circular-dependencies" "Module imports and re-exports form no cycles" "error",
    .obj [("name", .str "internal-access"),
      ("description", .str "Internal modules are only imported from inside their boundary"),
      ("severity", .str "warning"),
      ("options", .obj [("internalMarkers", Json.strings ["internal", "_internal", "private"])])]]

/-- The standard settings for a project root. -/
def standardData (root : String) : Json.Members :=
  [("rootPath", .str root), ("scanOptions", ScanOptions.standard.toJson),
    ("rules", .arr standardRules), ("namingConventions", Conventions.standard.toJson),
    ("autoFix", FixPolicy.toJson {}), ("reporting", ReportingOptions.toJson {})]

end ExportLint.Config
