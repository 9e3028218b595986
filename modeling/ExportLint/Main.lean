import ExportLint.CommandLine.Run
import Std.Time.Format

/-!
# The program

The program reads the files below the working directory, below every path that it is told of, and
behind the links among them. It runs on what it has read and writes what changed.
-/
namespace ExportLint.Main

def pathOf (place : Place) : String := "/" ++ "/".intercalate place

/-- A file as it can be used: one that does not open for writing can only be read. -/
def fileAt (place : Place) : IO File := do
  let bytes := (← IO.FS.readBinFile (pathOf place)).toList
  try
    discard (IO.FS.Handle.mk (pathOf place) .readWrite)
    return .ordinary bytes
  catch _ => return .readOnly bytes

/-- The entries at a place and below it, but for known places. What cannot be read is left out. -/
partial def entriesFrom (known : List Place) (place : Place) : IO (List (Place × Entry)) := do
  if known.contains place then return []
  let path := System.mkFilePath [pathOf place]
  try
    match (← path.symlinkMetadata).type with
    | .file => return [(place, .file (← fileAt place))]
    | .symlink => return [(place, .link (← IO.FS.realPath path).toString)]
    | .dir =>
      let inner ← (← path.readDir).toList.mapM fun e =>
        entriesFrom known (place ++ [e.fileName])
      return (place, .directory) :: inner.flatten
    | .other => return []
  catch _ => return []

/-- Places of which none lies within another one. -/
def outermost (places : List Place) : List Place :=
  places.foldl (fun kept p =>
    if kept.any (·.isPrefixOf p) then kept else p :: kept.filter fun q => !p.isPrefixOf q) []

/-- Where the links among some entries lead. -/
def linked (entries : List (Place × Entry)) : List Place :=
  entries.filterMap fun e =>
    match e.2 with
    | .link target => some (Path.stepsOf target)
    | _ => none

/-- The entries at some places, below them, and where links lead. -/
partial def entriesOf (known places : List Place) : IO (List (Place × Entry)) := do
  let fresh := outermost (places.filter fun p => !known.any (·.isPrefixOf p))
  if fresh.isEmpty then return []
  let found := (← fresh.mapM (entriesFrom known)).flatten
  return found ++ (← entriesOf (fresh ++ known) (linked found))

/-- The places on the way to some others. -/
def waysTo (places : List Place) : List Place :=
  (places.flatMap fun p => (List.range p.length).map p.take).eraseDups

/-- The disk as far as some paths lead. -/
def load (here : Place) (paths : List String) : IO Disk := do
  let places := here :: paths.map (Path.absolute here)
  let found ← entriesOf [] places
  let ways ← (waysTo (places ++ linked found)).filterM fun p => do
    return !found.any (·.1 = p) && (← (System.mkFilePath [pathOf p]).isDir)
  return ⟨here, found ++ ways.map fun p => (p, .directory)⟩

/-- Write what is new on a disk, the directories first. -/
def store (before after : Disk) : IO Unit := do
  let new := after.entries.filter fun e => before.entries.lookup e.1 != some e.2
  for (place, entry) in new do
    if entry = .directory then IO.FS.createDirAll (pathOf place)
  for (place, entry) in new do
    if let .file f := entry then
      if f ≠ .null then IO.FS.writeBinFile (pathOf place) ⟨f.bytes.toArray⟩

/-- The environment that settings are read from, in capitals and in small letters. -/
def settingNames : List String :=
  let names := ["ROOT_PATH", "REPORT_FORMAT", "OUTPUT_PATH", "AUTO_FIX", "LOG_LEVEL"].map
    ("EXPORT_CONSISTENCY_" ++ ·)
  names.map String.toLower ++ names

def environment : IO (List (String × String)) := do
  let found ← settingNames.mapM fun n => do return (← IO.getEnv n).map fun v => (n, v)
  return found.filterMap id

/-- What may be a path: the arguments, what they give to an option, and the settings. -/
def mentioned (arguments : List String) (settings : List (String × String)) : List String :=
  let given (a : String) : String := String.ofList ((a.toList.dropWhile (· ≠ '=')).drop 1)
  arguments ++ arguments.map given ++ settings.map (·.2)

def now : IO Moment := do
  let t ← Std.Time.Timestamp.now
  let n := t.toNanosecondsSinceUnixEpoch.val
  return Moment.ofSeconds (n / 1000000000) ((n % 1000000000) / 1000).toNat

/-- Say how a run ended, as far as it has not said so itself, and give its code. -/
def finish : CommandLine.Ending → IO UInt32
  | .exit code => return code.toUInt32
  | .failed f => do
    IO.eprintln f.message
    return 1
  | .stopped (.help program) => do
    IO.println ("usage: " ++ program ++ " [options]")
    return 0
  | .stopped (.version program) => do
    IO.println (program ++ " " ++ Report.Document.version)
    return 0
  | .stopped stop => do
    IO.eprintln ((stop.faultText?).getD "")
    return 2

end ExportLint.Main

open ExportLint in
/-- The command line. -/
def main (arguments : List String) : IO UInt32 := do
  let here := Path.stepsOf (← IO.currentDir).toString
  let settings ← Main.environment
  let before ← Main.load here (Main.mentioned arguments settings)
  let (ending, session) := CommandLine.run arguments settings before (← Main.now)
  Main.store before session.disk
  IO.print session.output
  IO.eprint session.complaints
  Main.finish ending
