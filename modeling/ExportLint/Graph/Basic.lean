/-!
# Directed graphs

A graph maps nodes to the nodes that they lead to.
-/
namespace ExportLint

abbrev Graph := List (String × List String)

namespace Graph

/-- The nodes that a node leads to. -/
def next (g : Graph) (n : String) : List String := (g.lookup n).getD []

end Graph

end ExportLint
