import ExportLint.Failure
import ExportLint.Json.Value

/-!
# Merging settings

Overrides are merged into a base key by key, objects into objects. Rules are merged by their names,
so that a project can change one rule without repeating the others. Everything else is replaced.
-/
namespace ExportLint.Config

/-- Values that may serve as a name. -/
def mayName : Json → Bool
  | .arr _ => false
  | .obj _ => false
  | _ => true

/-- The name of a rule: null if it has none, and null for what is not a rule. -/
def ruleName (rule : Json) : Except Failure Json :=
  let name := (rule.get? "name").getD .null
  if mayName name then .ok name else .error .wrongType

/-- The names of the rules with their positions. -/
def ruleIndex (n : Nat) : List Json → Except Failure (List (Json × Nat))
  | [] => .ok []
  | .obj ms :: rules => do
    let name ← ruleName (.obj ms)
    let rest ← ruleIndex (n + 1) rules
    .ok ((name, n) :: rest)
  | _ :: rules => ruleIndex (n + 1) rules

/-- The last position of a name. -/
def positionOf? (index : List (Json × Nat)) (name : Json) : Option Nat :=
  (index.reverse.find? fun entry => entry.1.equal name).map (·.2)

mutual

/-- The members of a base with overrides merged into them. -/
def mergeMembers (base : Json.Members) : List (String × Json) → Except Failure Json.Members
  | [] => .ok base
  | (k, v) :: rest => do
    let merged ← mergeValue k (base.get? k) v
    mergeMembers (base.set k merged) rest

/-- The value of a key, from the value in the base and the one that overrides it. -/
def mergeValue (key : String) (old : Option Json) : Json → Except Failure Json
  | .obj ms =>
    match old with
    | some (.obj base) => do .ok (.obj (← mergeMembers base ms))
    | _ => .ok (.obj ms)
  | .arr items =>
    match old with
    | some (.arr rules) =>
      if key = "rules" then do
        let index ← ruleIndex 0 rules
        .ok (.arr (← mergeRules index rules items))
      else .ok (.arr items)
    | _ => .ok (.arr items)
  | v => .ok v

/-- Rules with overrides merged into those of the same name. Other overrides are added. -/
def mergeRules (index : List (Json × Nat)) (rules : List Json) :
    List Json → Except Failure (List Json)
  | [] => .ok rules
  | o :: os => do
    let name ← ruleName o
    match positionOf? index name with
    | none => mergeRules index (rules ++ [o]) os
    | some i =>
      let merged ← mergeRule (rules[i]?.getD .null) o
      mergeRules index (rules.set i merged) os

/-- One rule with its override. Only an object overrides a rule. -/
def mergeRule (rule : Json) : Json → Except Failure Json
  | .obj ms =>
    match rule with
    | .obj base => do .ok (.obj (← mergeMembers base ms))
    | _ => .error .missingPart
  | _ => .error .missingPart

end

/-- Overrides merged into a base. Both must be objects, unless there is nothing to override. -/
def merge (base overrides : Json) : Except Failure Json :=
  match base, overrides with
  | base, .obj [] => .ok base
  | .obj ms, .obj os => Json.obj <$> mergeMembers ms os
  | _, .obj ((k, v) :: _) =>
    match v with
    | .obj _ => .error .missingPart
    | .arr _ => .error (if k = "rules" then .missingPart else .wrongType)
    | _ => .error .wrongType
  | _, _ => .error .missingPart

end ExportLint.Config
