import PointsTo.Resolution

namespace PointsTo

/-- The line of a node with the names of what it points to, by ascending number. -/
def pointsToLine (g : Graph) (n : NodeId) (pointees : PointeeSet) : Except Fault String := do
  let name ← g.nodeName n
  let names ← (pointees.toList.mergeSort).mapM g.nodeName
  return name ++ " ==> \x7b " ++ String.join (names.map (· ++ " ")) ++ "\x7d\n"

/-- A line for each settled node whose points-to set is not empty, by ascending number. -/
def pointsToReport (g : Graph) (store : DiffStore) : Except Fault String := do
  return String.join (← store.nonempty.mapM fun (n, pointees) => pointsToLine g n pointees)

/-- An indirect call: a line for the site and a line for each of its targets. -/
def indirectCallLines (g : Graph) (store : DiffStore) (call : IndirectCall) : Except Fault String := do
  let site ← g.callSite call.site
  let caller ←
    match site.caller with
    | some caller => g.functionName caller
    | none => pure "<unknown>"
  let pointer ← g.nodeName call.pointer
  let callees ← (← callTargets g store call.pointer).mapM g.functionName
  return "\tcallsite: " ++ site.label ++ ", caller: " ++ caller ++ ", fn_ptr: " ++ pointer ++ ", callee:\n" ++
    String.join (callees.map fun callee => "\t\t" ++ callee ++ "\n")

def indirectCallReport (g : Graph) (store : DiffStore) : Except Fault String := do
  return "#Indirect calls:\n" ++ String.join (← g.indirectCalls.toList.mapM (indirectCallLines g store))

end PointsTo
