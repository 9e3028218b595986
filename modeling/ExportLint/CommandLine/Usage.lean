import ExportLint.Text.Quoted

/-!
# Faults in the use of a program

What can be wrong with the arguments of a program, and how it is said.
-/
namespace ExportLint.CommandLine

inductive UsageFault where
  /-- An option is cut so short that several start with it. -/
  | ambiguous (argument : String) (names : List String)
  | needsOne (name : String)
  | needsSome (name : String)
  /-- An option that takes no argument has one attached. -/
  | needsNone (name value : String)
  | notAmong (name value : String) (choices : List String)
  | missing (name : String)
  | unrecognized (arguments : List String)
  deriving DecidableEq, Repr

def UsageFault.message : UsageFault → String
  | .ambiguous s names =>
    "ambiguous option: " ++ s ++ " could match " ++ ", ".intercalate names
  | .needsOne name => "argument " ++ name ++ ": expected one argument"
  | .needsSome name => "argument " ++ name ++ ": expected at least one argument"
  | .needsNone name v => "argument " ++ name ++ ": ignored explicit argument " ++ Text.quoted v
  | .notAmong name v choices =>
    "argument " ++ name ++ ": invalid choice: " ++ Text.quoted v ++ " (choose from " ++
      ", ".intercalate (choices.map Text.quoted) ++ ")"
  | .missing name => "the following arguments are required: " ++ name
  | .unrecognized ss => "unrecognized arguments: " ++ " ".intercalate ss

/-- What keeps a program from running: a fault, or a question about the program itself. -/
inductive Stop where
  | help (program : String)
  | version (program : String)
  | usage (program : String) (fault : UsageFault)
  deriving DecidableEq, Repr

/-- What is said about a fault. -/
def Stop.faultText? : Stop → Option String
  | .usage program fault => some (program ++ ": error: " ++ fault.message)
  | _ => none

end ExportLint.CommandLine
