import PointsTo.Graph.Field
import PointsTo.DiffStore
import PointsTo.Worklist
import PointsTo.Event

namespace PointsTo

/-- Facts `o ∈ pts p` flow along the edges of the graph, and each node sends on only what it has not sent before. -/
structure Solver where
  graph : Graph
  store : DiffStore
  /-- The nodes that wait to send their pending facts on. -/
  queue : Worklist
  /-- How many address edges have been turned into facts. -/
  cursor : Nat
  /-- How often a node has sent pending facts on. -/
  processed : Nat
  /-- How many copy edges have been added. -/
  copyEdges : Nat
  log : Array Event

/-- What the log says about an access to a field, where `next` is the number of the next new node. -/
def FieldAccess.events (next : NodeId) : FieldAccess → Array Event
  | beyondLimit base offset => #[.beyondFieldLimit base offset]
  | missing base offset => #[.createdField next base offset]
  | _ => #[]

namespace Solver

/-- A solver that has not done anything yet. -/
def ofGraph (graph : Graph) : Solver where
  graph := graph
  store := .empty
  queue := .empty
  cursor := 0
  processed := 0
  copyEdges := 0
  log := #[]

def record (s : Solver) (event : Event) : Solver := { s with log := s.log.push event }

/-- Lets a node wait for its turn if its set grew. -/
def schedule (s : Solver) (n : NodeId) (grew : Bool) : Solver :=
  if grew then { s with queue := (s.queue.push n).1 } else s

/-- Adds facts to the set of `n`. -/
def send (s : Solver) (n : NodeId) (facts : PointeeSet) : Solver :=
  let (store, grew) := s.store.unite n facts
  { s with store }.schedule n grew

/-- Adds a copy edge and, if it is new, sends along it all that is known of its source. -/
def link (s : Solver) (source target : NodeId) : Except Fault Solver := do
  match ← s.graph.addEdge ⟨source, target, .copy⟩ with
  | (graph, none) => return { s with graph }
  | (graph, some _) =>
    return { s with graph, copyEdges := s.copyEdges + 1 }.send target (s.store.get source)

/-- Turns an address edge into a fact. -/
def seed (s : Solver) (e : EdgeId) : Except Fault Solver := do
  let edge ← s.graph.edge e
  let (store, grew) := s.store.add edge.target edge.source
  return { s with store, cursor := s.cursor + 1 }.schedule edge.target grew

/-- Turns the address edges that have not had their turn into facts. -/
def activate (s : Solver) : Except Fault Solver := do
  let s ← (s.graph.addrEdges.toList.drop s.cursor).foldlM seed s
  return s.record (.activated s.queue.length)

/-- Sends facts along a copy edge. -/
def processCopy (facts : PointeeSet) (s : Solver) (e : EdgeId) : Except Fault Solver := do
  return s.send (← s.graph.edge e).target facts

/-- A load edge copies from each of the facts to its target. -/
def processLoad (facts : PointeeSet) (s : Solver) (e : EdgeId) : Except Fault Solver := do
  let edge ← s.graph.edge e
  facts.toList.foldlM (fun s o => s.link o edge.target) s

/-- A store edge copies from its source to each of the facts. -/
def processStore (facts : PointeeSet) (s : Solver) (e : EdgeId) : Except Fault Solver := do
  let edge ← s.graph.edge e
  facts.toList.foldlM (fun s o => s.link edge.source o) s

/-- The node that an access to a field of `o` reaches. With a variant offset the object stands for every one
of its fields. -/
def reach (s : Solver) (offset : Offset) (o : NodeId) : Except Fault (Solver × NodeId) :=
  match offset with
  | .variant => return (s, o)
  | .constant k => do
    let found ← s.graph.locate o k
    let log := s.log ++ found.events s.graph.nodes.size
    let (graph, n) := s.graph.access found
    return ({ s with graph, log }, n)

/-- Adds to `target` what an access to a field of `o` reaches, and says whether that is new. -/
def sendField (target : NodeId) (offset : Offset) (s : Solver) (o : NodeId) : Except Fault (Solver × Bool) := do
  let (s, n) ← s.reach offset o
  let (store, grew) := (s.store.init n).add target n
  return ({ s with store }, grew)

/-- A field access adds to its target what it reaches from each of the facts. -/
def processGep (facts : PointeeSet) (s : Solver) (e : EdgeId) : Except Fault Solver := do
  let edge ← s.graph.edge e
  match edge.kind with
  | .gep offset =>
    let (s, grew) ← facts.toList.foldlM (fun (s, grew) o => do
      let (s, new) ← sendField edge.target offset s o
      return (s, grew || new)) (s, false)
    return s.schedule edge.target grew
  | _ => throw (.misfiledEdge e)

/-- Sends the pending facts of `n` on along all of its edges. -/
def process (s : Solver) (n : NodeId) : Except Fault Solver := do
  let (facts, store) := s.store.flush n
  let s := { s with store }
  if facts.isEmpty then return s
  let s := { s with processed := s.processed + 1 }
  let s ← (s.graph.outgoing .copy n).foldlM (processCopy facts) s
  let s ← (s.graph.outgoing .load n).foldlM (processLoad facts) s
  let s ← (s.graph.incoming .store n).foldlM (processStore facts) s
  (s.graph.outgoing .gep n).foldlM (processGep facts) s

end Solver

end PointsTo
