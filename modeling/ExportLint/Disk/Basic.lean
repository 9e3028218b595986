import ExportLint.Path.Basic
import ExportLint.Text.Quoted
import ExportLint.Text.Utf8

/-!
# The file system

A file system is a value: a list of entries at their places and the place that relative paths start
from. A place is the list of steps from the root. Operations either give a new value or say what
stands in their way. A file that can be read may still refuse to be written, and the null device
takes whatever is written to it and holds nothing. A name may have any length and any characters,
and every directory may be searched and takes new entries, so it can always be told whether a path
names anything.
-/
namespace ExportLint

/-- What stands in the way of an operation on files. -/
inductive Obstacle where
  | missing
  | exists
  | notDirectory
  | isDirectory
  | tooManyLinks
  deriving DecidableEq, Repr

namespace Obstacle

def number : Obstacle → Nat
  | .missing => 2
  | .exists => 17
  | .notDirectory => 20
  | .isDirectory => 21
  | .tooManyLinks => 40

def reason : Obstacle → String
  | .missing => "No such file or directory"
  | .exists => "File exists"
  | .notDirectory => "Not a directory"
  | .isDirectory => "Is a directory"
  | .tooManyLinks => "Too many levels of symbolic links"

end Obstacle

/-- Why an operation on a path failed. -/
inductive DiskError where
  | blocked (obstacle : Obstacle) (path : String)
  | sameFile (source target : String)
  deriving DecidableEq, Repr

def DiskError.message : DiskError → String
  | .blocked o p => "[Errno " ++ toString o.number ++ "] " ++ o.reason ++ ": " ++ Text.quoted p
  | .sameFile a b =>
    "PosixPath(" ++ Text.quoted a ++ ") and PosixPath(" ++ Text.quoted b ++ ") are the same file"

/-- Why a file was not written. -/
inductive WriteError where
  | disk (error : DiskError)
  /-- The file may only be read. -/
  | notWritable (path : String)
  /-- The times of the file cannot be set. -/
  | notOwned
  deriving DecidableEq, Repr

def WriteError.message : WriteError → String
  | .disk e => e.message
  | .notWritable p => "[Errno 13] Permission denied: " ++ Text.quoted p
  | .notOwned => "[Errno 1] Operation not permitted"

inductive File where
  | ordinary (bytes : List UInt8)
  /-- A file that can be read and not be written. -/
  | readOnly (bytes : List UInt8)
  /-- The null device. -/
  | null
  deriving DecidableEq, Repr

namespace File

/-- What is read from a file. -/
def bytes : File → List UInt8
  | .ordinary b => b
  | .readOnly b => b
  | .null => []

/-- A file stands for what is read from it. -/
instance : Coe File (List UInt8) := ⟨bytes⟩

/-- A file after other bytes are written to it. -/
def write (path : String) (new : List UInt8) : File → Except WriteError File
  | .ordinary _ => .ok (.ordinary new)
  | .readOnly _ => .error (.notWritable path)
  | .null => .ok .null

/-- A new copy of a file. What can only be read has a copy that can only be read. -/
def copy : File → File
  | .null => .ordinary []
  | f => f

/-- What is in place of a file that another one is copied over. A copy takes over the times of the
file, and those of the null device cannot be set. -/
def copyOver (path : String) (source : File) : File → Except WriteError File
  | .ordinary _ => .ok source.copy
  | .readOnly _ => .error (.notWritable path)
  | .null => .error .notOwned

@[simp] theorem bytes_copy (f : File) : f.copy.bytes = f.bytes := by cases f <;> rfl

end File

abbrev Place := List String

inductive Entry where
  | file (file : File)
  | link (target : String)
  | directory
  deriving DecidableEq, Repr

/-- The length of a link. What is no link has none. -/
def Entry.linkLength : Entry → Nat
  | .link target => target.length
  | _ => 0

structure Disk where
  /-- Where relative paths start. -/
  here : Place
  entries : List (Place × Entry)
  deriving Repr

namespace Disk

/-- What is there without being listed: the way to a current directory, and the null device. -/
def standing? (here p : Place) : Option Entry :=
  if p.isPrefixOf here || p == ["dev"] then some .directory
  else if p == ["dev", "null"] then some (.file .null)
  else none

/-- The entry at a place itself. -/
def entryAt? (d : Disk) (p : Place) : Option Entry :=
  (d.entries.lookup p).or (standing? d.here p)

/-- Put an entry at a place. -/
def put (d : Disk) (p : Place) (e : Entry) : Disk :=
  { d with entries := (p, e) :: d.entries.filter fun x => x.1 ≠ p }

def drop (d : Disk) (p : Place) : Disk :=
  { d with entries := d.entries.filter fun x => x.1 ≠ p }

theorem lookup_filter_ne {es : List (Place × Entry)} {p q : Place} (h : q ≠ p) :
    (es.filter fun x => x.1 ≠ p).lookup q = es.lookup q := by
  induction es with
  | nil => rfl
  | cons x xs ih =>
    obtain ⟨a, e⟩ := x
    by_cases ha : a = p
    · subst ha
      simp only [ne_eq, not_true_eq_false, decide_false, List.filter_cons_of_neg,
        Bool.false_eq_true, not_false_eq_true]
      rw [List.lookup_cons]
      have : (q == a) = false := by simpa using h
      rw [this, ← ih]
    · by_cases hq : q = a
      · subst hq; simp [ha]
      · have hb : (q == a) = false := by simpa using hq
        simp only [ne_eq, ha, not_false_eq_true, decide_true, List.filter_cons_of_pos]
        rw [List.lookup_cons, List.lookup_cons, hb]
        simpa using ih

@[simp] theorem entryAt?_put_same (d : Disk) (p : Place) (e : Entry) :
    (d.put p e).entryAt? p = some e := by simp [entryAt?, put]

theorem entryAt?_put_other (d : Disk) {p q : Place} (e : Entry) (h : q ≠ p) :
    (d.put p e).entryAt? q = d.entryAt? q := by
  have hb : (q == p) = false := by simpa using h
  have hl : (d.put p e).entries.lookup q = d.entries.lookup q := by
    simp only [put, List.lookup_cons, hb]
    exact lookup_filter_ne h
  simp only [entryAt?, hl]
  rfl

/-- Links that may be followed on the way to a place. -/
def linkLimit : Nat := 40

/-- Follow steps from a place on. With `last`, a link in last place is followed too. A place may
lack its last step; every other step must be a directory. -/
def follow (d : Disk) (last : Bool) : Nat → Nat → Place → List String → Except Obstacle Place
  | _, _, at_, [] => .ok at_
  | 0, _, _, _ :: _ => .error .tooManyLinks
  | fuel + 1, links, at_, s :: rest =>
    if s = ".." then follow d last fuel links at_.dropLast rest
    else
      let next := at_ ++ [s]
      match d.entryAt? next with
      | none => if rest.isEmpty then .ok next else .error .missing
      | some .directory => follow d last fuel links next rest
      | some (.file _) => if rest.isEmpty then .ok next else .error .notDirectory
      | some (.link target) =>
        if rest.isEmpty && !last then .ok next
        else
          match links with
          | 0 => .error .tooManyLinks
          | n + 1 =>
            let start := if Path.rootOf target = "" then at_ else []
            follow d last fuel n start (Path.stepsOf target ++ rest)

/-- The length of the longest link. -/
def longestLink (d : Disk) : Nat := d.entries.foldl (fun n x => max n x.2.linkLength) 0

/-- The number of steps that following may take. -/
def fuelFor (d : Disk) (ss : List String) : Nat :=
  (ss.length + 1) + linkLimit * (d.longestLink + 1)

/-- A path ends in a slash, so what it names must be a directory. -/
def endsInSlash (p : String) : Bool := p.toList.getLast? == some '/'

/-- The place of a path. -/
def locate (d : Disk) (last : Bool) (p : String) : Except Obstacle Place :=
  let ss := Path.stepsOf p
  let start := if Path.rootOf p = "" then d.here else []
  d.follow (last || endsInSlash p) (d.fuelFor ss) linkLimit start ss

/-- What a path names, with links followed. -/
def find (d : Disk) (p : String) : Except Obstacle Entry :=
  if p.isEmpty then .error .missing
  else
    match d.locate true p with
    | .error o => .error o
    | .ok place =>
      match d.entryAt? place with
      | none => .error .missing
      | some (.file f) => if endsInSlash p then .error .notDirectory else .ok (.file f)
      | some e => .ok e

/-- A path names something. Where it cannot be followed to its end, there is nothing. -/
def exists? (d : Disk) (p : String) : Bool := (d.find p).toOption.isSome

/-- A path names a file that is no device. -/
def isFile (d : Disk) (p : String) : Bool :=
  match d.find p with
  | .ok (.file f) => f != .null
  | _ => false

def isDirectory (d : Disk) (p : String) : Bool :=
  match d.find p with
  | .ok .directory => true
  | _ => false

def isLink (d : Disk) (p : String) : Bool :=
  match d.locate false p with
  | .ok place => match d.entryAt? place with
    | some (.link _) => true
    | _ => false
  | .error _ => false

/-- The file that a path names. -/
def openFile (d : Disk) (p : String) : Except DiskError File :=
  match d.find p with
  | .ok (.file f) => .ok f
  | .ok _ => .error (.blocked .isDirectory p)
  | .error o => .error (.blocked o p)

def readBytes (d : Disk) (p : String) : Except DiskError (List UInt8) :=
  match d.openFile p with
  | .ok f => .ok f
  | .error e => .error e

/-- Put a file where a path leads: a new one, or what becomes of the one that is there. Its directory
must exist. -/
def store (d : Disk) (p : String) (new : File) (onto : File → Except WriteError File) :
    Except WriteError Disk :=
  if p.isEmpty then .error (.disk (.blocked .missing p))
  else
    match d.locate true p with
    | .error o => .error (.disk (.blocked o p))
    | .ok place =>
      match d.entryAt? place with
      | some .directory => .error (.disk (.blocked .isDirectory p))
      | some (.file f) =>
        if endsInSlash p then .error (.disk (.blocked .notDirectory p))
        else
          match onto f with
          | .ok f => .ok (d.put place (.file f))
          | .error e => .error e
      | some (.link _) => .error (.disk (.blocked .tooManyLinks p))
      | none =>
        if endsInSlash p then .error (.disk (.blocked .isDirectory p))
        else
          match d.entryAt? place.dropLast with
          | some .directory => .ok (d.put place (.file new))
          | some _ => .error (.disk (.blocked .notDirectory p))
          | none => .error (.disk (.blocked .missing p))

/-- Write a file. One that is there takes the bytes or refuses them. -/
def writeBytes (d : Disk) (p : String) (bytes : List UInt8) : Except WriteError Disk :=
  d.store p (.ordinary bytes) (File.write p bytes)

/-- Make one directory. -/
def makeDirectory (d : Disk) (p : String) : Except Obstacle Disk :=
  match d.locate false p with
  | .error o => .error o
  | .ok place =>
    match d.entryAt? place with
    | some _ => .error .exists
    | none =>
      match d.entryAt? place.dropLast with
      | some .directory => .ok (d.put place .directory)
      | some _ => .error .notDirectory
      | none => .error .missing

/-- Make a directory and those above it, from the top down. A directory that is there is kept. -/
def makeAllFrom (d : Disk) (root : String) (made : List String) :
    List String → Except DiskError Disk
  | [] => .ok d
  | s :: rest =>
    let p := (Path.mk root (made ++ [s])).text
    match d.makeDirectory p with
    | .ok e => e.makeAllFrom root (made ++ [s]) rest
    | .error o =>
      if d.isDirectory p then d.makeAllFrom root (made ++ [s]) rest
      else
        let shown := if o = .exists && rest.isEmpty then p
          else if o = .notDirectory || !rest.isEmpty then (Path.mk root (made ++ s :: rest)).text
          else p
        .error (.blocked (if rest.isEmpty then o else .notDirectory) shown)

/-- Make a directory and those above it. -/
def makeDirectories (d : Disk) (p : Path) : Except DiskError Disk :=
  d.makeAllFrom p.root [] p.steps

/-- Where a path leads when links are followed as far as there are entries. Behind too many links
the steps that are left are taken as they are. -/
def resolveFrom (d : Disk) : Nat → Nat → Place → List String → Place
  | 0, _, at_, ss => at_ ++ ss
  | _ + 1, _, at_, [] => at_
  | fuel + 1, links, at_, s :: rest =>
    if s = ".." then resolveFrom d fuel links at_.dropLast rest
    else
      let next := at_ ++ [s]
      match d.entryAt? next, links with
      | some (.link target), n + 1 =>
        let start := if Path.rootOf target = "" then at_ else []
        resolveFrom d fuel n start (Path.stepsOf target ++ rest)
      | _, _ => resolveFrom d fuel links next rest

def resolve (d : Disk) (p : String) : Place :=
  let ss := Path.stepsOf p
  let start := if Path.rootOf p = "" then d.here else []
  d.resolveFrom (d.fuelFor ss) linkLimit start ss

/-- Copy a file over another one, or into a directory under its own name. -/
def copyFile (d : Disk) (source target : Path) : Except WriteError Disk :=
  match d.openFile source.text with
  | .error e => .error (.disk e)
  | .ok f =>
    let goal := if d.isDirectory target.text then target ++ ⟨"", [source.name]⟩ else target
    if d.exists? goal.text && d.resolve goal.text == d.resolve source.text then
      .error (.disk (.sameFile source.text goal.text))
    else d.store goal.text f.copy (File.copyOver goal.text f)

/-- The names in a directory. -/
def list (d : Disk) (place : Place) : List String :=
  d.entries.filterMap fun (p, _) =>
    if p.length = place.length + 1 && place.isPrefixOf p then p.getLast? else none

end Disk

end ExportLint
