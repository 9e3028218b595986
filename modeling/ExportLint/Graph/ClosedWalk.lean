import ExportLint.Graph.Basic

/-!
# Closed walks

A shortest walk through the members of a component that ends where it starts. The search goes
breadth first and keeps the walk to each member that it has met, the last node first.
-/
namespace ExportLint.Graph

/-- Search on from walks that wait, each member being met once. -/
def closeFrom (g : Graph) (members : List String) (start : String) :
    Nat → List (List String) → List String → Option (List String)
  | fuel + 1, walk :: waiting, met =>
    let next := g.next (walk.head?.getD start)
    if next.contains start then some (walk.reverse ++ [start])
    else
      let new := (next.filter fun n => members.contains n && !met.contains n).eraseDups
      g.closeFrom members start fuel (waiting ++ new.map (· :: walk)) (met ++ new)
  | _, _, _ => none

/-- A shortest closed walk through the first of some members. All of them are named if there is
none. -/
def closedWalk (g : Graph) : List String → Option (List String)
  | [] => none
  | start :: rest =>
    let members := start :: rest
    some ((g.closeFrom members start members.length [[start]] []).getD (members ++ [start]))

end ExportLint.Graph
