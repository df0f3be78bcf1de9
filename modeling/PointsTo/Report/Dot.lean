import PointsTo.Graph.Basic
import PointsTo.CallGraph

namespace PointsTo

/-- A character in a label: quotes and backslashes are escaped, and a line break ends a line of the label. -/
def dotChar (c : Char) : List Char :=
  if c = '"' || c = '\\' then ['\\', c] else if c = '\n' then ['\\', 'l'] else [c]

def dotLabel (s : String) : String := String.ofList (s.toList.flatMap dotChar)

structure Drawing where
  /-- The labels of the nodes. -/
  nodes : List String
  /-- Source, target and label of each edge. -/
  edges : List (Nat × Nat × String)

namespace Drawing

def nodeLine (i : Nat) (label : String) : String :=
  "    " ++ toString i ++ " [ label = \"" ++ dotLabel label ++ "\" ]\n"

def edgeLine (source target : Nat) (label : String) : String :=
  "    " ++ toString source ++ " -> " ++ toString target ++ " [ label = \"" ++ dotLabel label ++ "\" ]\n"

def text (d : Drawing) : String :=
  "digraph \x7b\n" ++
    String.join (d.nodes.zipIdx.map fun (label, i) => nodeLine i label) ++
    String.join (d.edges.map fun (source, target, label) => edgeLine source target label) ++
    "\x7d\n"

end Drawing

def Graph.dot (g : Graph) : String :=
  Drawing.text {
    nodes := g.nodes.toList.map (·.name)
    edges := g.edges.toList.map fun e => (e.source, e.target, e.kind.text) }

/-- The place of a function in the call graph's own numbering. -/
def CallGraph.place (cg : CallGraph) (f : FuncId) : Nat := cg.places.getD f 0

/-- Functions are labelled with their names and edges with their call sites. -/
def CallGraph.dot (cg : CallGraph) (g : Graph) : Except Fault String := do
  let nodes ← cg.functions.toList.mapM g.functionName
  let edges ← cg.edges.toList.mapM fun e => do
    return (cg.place e.caller, cg.place e.callee, (← g.callSite e.site).label)
  return Drawing.text ⟨nodes, edges⟩

end PointsTo
