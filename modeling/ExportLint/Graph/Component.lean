import ExportLint.Graph.Basic

/-!
# Strongly connected components

A component holds the nodes that reach each other. They are searched depth first: nodes are numbered
as they are found, and stay on a stack until their component is known. What a visited node reaches
on the stack is told by the lowest number there. Where that is the number of the node itself, its
component is what lies above it on the stack. Only components with two members or more count as
cycles. Components and their members come in the order of a given list; what is not on the list
comes last, as the search comes upon it.
-/
namespace ExportLint.Graph

/-- A node whose targets are being tried. -/
structure Visit where
  node : String
  number : Nat
  /-- The lowest number on the stack that the node is known to reach. -/
  low : Nat
  /-- The targets that are still to be tried. -/
  rest : List String
  deriving DecidableEq, Repr

/-- A search for components. What comes latest stands first on its stack and among its visits. -/
structure Search where
  /-- The nodes that are still to be started from. -/
  starts : List String
  found : List String := []
  stack : List (String × Nat) := []
  visits : List Visit := []
  components : List (List String) := []
  deriving DecidableEq, Repr

namespace Search

/-- Number a node that is new, and begin to visit it. -/
def enter (g : Graph) (s : Search) (n : String) : Search :=
  { s with
    found := n :: s.found
    stack := (n, s.found.length) :: s.stack
    visits := ⟨n, s.found.length, s.found.length, g.next n⟩ :: s.visits }

/-- Go on from a visit to one of its targets. -/
def tryTarget (g : Graph) (s : Search) (v : Visit) (visits : List Visit) (t : String) : Search :=
  if s.found.contains t then
    let low := (s.stack.lookup t).elim v.low (min v.low)
    { s with visits := { v with low } :: visits }
  else enter g { s with visits := v :: visits } t

/-- Take nodes off a stack, down to a given one. -/
def popTo (n : String) : List (String × Nat) → List String × List (String × Nat)
  | [] => ([], [])
  | (m, _) :: stack =>
    if m = n then ([m], stack)
    else
      let (ms, stack) := popTo n stack
      (m :: ms, stack)

/-- Tell the visit in front what has been reached. -/
def pass (low : Nat) : List Visit → List Visit
  | [] => []
  | v :: visits => { v with low := min v.low low } :: visits

/-- End a visit without targets to try. If its node reaches nothing before itself on the stack, its
component is complete. -/
def finish (s : Search) (v : Visit) (visits : List Visit) : Search :=
  let s := { s with visits := pass v.low visits }
  if v.low = v.number then
    let (members, stack) := popTo v.node s.stack
    { s with stack, components := s.components ++ [members] }
  else s

/-- The next step of a search, unless it is over. -/
def step? (g : Graph) (s : Search) : Option Search :=
  match s.visits with
  | [] =>
    match s.starts with
    | [] => none
    | n :: starts =>
      let s := { s with starts }
      some (if s.found.contains n then s else s.enter g n)
  | v :: visits =>
    match v.rest with
    | [] => some (s.finish v visits)
    | t :: rest => some (s.tryTarget g { v with rest } visits t)

def run (g : Graph) : Nat → Search → Search
  | 0, s => s
  | fuel + 1, s =>
    match s.step? g with
    | none => s
    | some s => run g fuel s

end Search

variable (g : Graph)

/-- A search takes at most two steps for every node that it starts from and for every edge. -/
def searchBound (nodes : List String) : Nat :=
  2 * (nodes.length + (g.map fun e => e.2.length).foldr (· + ·) 0)

/-- Search for the components of all that some nodes reach. -/
def search (nodes : List String) : Search :=
  Search.run g (g.searchBound nodes) { starts := nodes }

/-- The last position of a node on a list. One that is not there counts as behind all that are. -/
def position (nodes : List String) (n : String) : Nat :=
  if nodes.contains n then nodes.length - 1 - nodes.reverse.idxOf n else nodes.eraseDups.length

def sortByPosition {α : Type} (nodes : List String) (key : α → String) (xs : List α) :
    List α :=
  xs.mergeSort fun a b => decide (position nodes (key a) ≤ position nodes (key b))

/-- The components with two members or more among what some nodes reach. -/
def cycles (nodes : List String) : List (List String) :=
  let components := (g.search nodes).components.filter fun c => 1 < c.length
  sortByPosition nodes (fun c => c.head?.getD "") (components.map (sortByPosition nodes id))

end ExportLint.Graph
