import PointsTo.Solver.Step

namespace PointsTo

/-- At most as many nodes as this can come to be in the graph: those that are there, and the fields of its
objects below the limit. -/
def Graph.nodeBound (g : Graph) : Nat :=
  g.nodes.size + (g.nodes.toList.countP fun node => node.kind == .object) * g.fieldLimit

/-- How many facts the store holds. -/
def DiffStore.mass (s : DiffStore) : Nat :=
  ((s.pending.values ++ s.settled.values).map PointeeSet.count).foldl (· + ·) 0

namespace Solver

/-- At most as many facts as this can be settled in a run. -/
def stepBound (s : Solver) : Nat := s.graph.nodeBound * (s.graph.nodeBound + s.store.mass)

/-- Takes at most `steps` nodes from the queue, one after the other. -/
def drain : (steps : Nat) → Solver → Except Fault Solver
  | 0, s => return s
  | steps + 1, s =>
    match s.queue.pop? with
    | none => return s
    | some (n, queue) => do drain steps (← { s with queue }.process n)

/-- Solves the constraints, from what is settled already and the address edges that are new. -/
def solve (s : Solver) : Except Fault Solver := do
  let s ← { s with queue := .empty }.activate
  drain s.stepBound s

/-- Sets the field limit and gives every node an entry in the store. -/
def prepare (s : Solver) (fieldLimit : Nat) : Solver :=
  let graph := { s.graph with fieldLimit }
  { s with graph, store := (List.range graph.nodes.size).foldl .init s.store }.record
    (.initialized graph.nodes.size graph.edges.size graph.indirectCalls.size)

def propagate (s : Solver) : Except Fault Solver := do
  let s ← s.solve
  return s.record (.propagated s.processed s.copyEdges)

/-- The whole analysis. -/
def analyze (s : Solver) (fieldLimit : Nat) : Except Fault Solver := do
  let s ← (s.prepare fieldLimit).propagate
  return s.record .solved

end Solver

end PointsTo
