import PointsTo.Graph.Basic
import PointsTo.CallGraph
import PointsTo.DiffStore
import PointsTo.Event

namespace PointsTo

/-- The functions that `pointer` may point to, ascending. Other targets are left out. -/
def callTargets (g : Graph) (store : DiffStore) (pointer : NodeId) : Except Fault (List FuncId) := do
  let found ← (store.get pointer).toList.mapM g.function
  return (found.filterMap id).mergeSort

/-- How far the resolution has come. -/
structure Resolution where
  callGraph : CallGraph
  added : Nat
  log : Array Event

/-- A resolution that met a fault, and what it had done until then. -/
structure Interrupted where
  fault : Fault
  reached : Resolution

namespace Resolution

def ofCallGraph (callGraph : CallGraph) : Resolution := ⟨callGraph, 0, #[]⟩

def record (r : Resolution) (event : Event) : Resolution := { r with log := r.log.push event }

/-- Passes a fault on together with what has been done. -/
def lift (r : Resolution) (x : Except Fault α) : Except Interrupted α := x.mapError (⟨·, r⟩)

/-- Adds the call of one target. -/
def addTarget (g : Graph) (site : CallSiteId) (label : String) (caller : FuncId) (r : Resolution) (o : NodeId) :
    Except Interrupted Resolution := do
  match ← r.lift (g.node o) with
  | ⟨_, .function callee⟩ =>
    let (callGraph, new) := r.callGraph.addEdge site caller callee
    return { r with callGraph, added := if new then r.added + 1 else r.added }
  | ⟨name, _⟩ => return r.record (.notAFunction name label)

/-- Resolves one call. The site counts as indirect even if nothing more comes of it, and without a caller
there is nothing to add. -/
def addCall (g : Graph) (store : DiffStore) (r : Resolution) (call : IndirectCall) :
    Except Interrupted Resolution := do
  let r := { r with callGraph := r.callGraph.setType call.site .indirect }
  let site ← r.lift (g.callSite call.site)
  match site.caller with
  | none => return r.record (.callWithoutCaller site.label)
  | some caller =>
    let targets := store.get call.pointer
    if targets.isEmpty then
      let pointer := ((g.nodes[call.pointer]?).map (·.name)).getD ""
      return r.record (.unresolvedCall site.label pointer)
    targets.toList.foldlM (addTarget g call.site site.label caller) r

end Resolution

/-- Resolves all indirect calls of the graph. -/
def resolveCalls (g : Graph) (store : DiffStore) (callGraph : CallGraph) : Except Interrupted Resolution := do
  let r ← g.indirectCalls.toList.foldlM (Resolution.addCall g store) (.ofCallGraph callGraph)
  return r.record (.resolved r.added)

end PointsTo
