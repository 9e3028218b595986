import ExportLint.Path.Steps

/-!
# Resolving specifiers

A specifier names a file of the project: relative to the importing file if it starts with a point,
or below the source directory of the root. No file system is consulted; the candidates are tried in
their order against the files of the project, whose paths count in normal form.
-/
namespace ExportLint

structure Resolver where
  root : String
  files : List String
  deriving DecidableEq, Repr

namespace Resolver

/-- Suffixes that a specifier may leave out, in the order in which they are tried. -/
def suffixes : List String := [".ts", ".tsx", ".js", ".jsx", ".mts", ".cts"]

/-- Suffixes of compiled files, which stand for their sources. -/
def compiledSuffixes : List String := [".js", ".jsx", ".mjs", ".cjs"]

/-- The path that a specifier stands for. Names of packages stand for none. -/
def target? (r : Resolver) (importer specifier : String) : Option String :=
  match specifier.toList with
  | '.' :: _ => some (Path.normal (Path.join (Path.directory importer) specifier))
  | '@' :: '/' :: rest =>
    some (Path.normal (Path.join (Path.join r.root "src") (String.ofList rest)))
  | _ => none

/-- The paths that may be meant by one: itself, the source of a compiled file, the path with a
suffix, and the index of a directory. -/
def candidates (path : String) : List String :=
  let (stem, suffix) := Path.splitExtension path
  [path] ++ (if compiledSuffixes.contains suffix then suffixes.map (stem ++ ·) else []) ++
    suffixes.map (path ++ ·) ++ suffixes.map fun s => Path.join path ("index" ++ s)

/-- The last file with a normal form. -/
def file? (r : Resolver) (path : String) : Option String :=
  r.files.reverse.find? fun f => Path.normal f == path

/-- The file that a specifier stands for in an importing file. -/
def resolve? (r : Resolver) (importer specifier : String) : Option String :=
  (r.target? importer specifier).bind fun path => (candidates path).findSome? r.file?

theorem file?_mem {r : Resolver} {path f : String} (h : r.file? path = some f) : f ∈ r.files :=
  List.mem_reverse.1 (List.mem_of_find?_eq_some h)

end Resolver

end ExportLint
