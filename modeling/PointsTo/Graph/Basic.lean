import PointsTo.Graph.Node
import PointsTo.Graph.Edge
import Std.Data.TreeMap

namespace PointsTo

/-- The edges of one family by their ends, each entry ascending. -/
structure Incidence where
  bySource : Std.TreeMap NodeId (Array EdgeId)
  byTarget : Std.TreeMap NodeId (Array EdgeId)

namespace Incidence

def empty : Incidence := ⟨∅, ∅⟩

def outgoing (t : Incidence) (n : NodeId) : Array EdgeId := t.bySource.getD n #[]

def incoming (t : Incidence) (n : NodeId) : Array EdgeId := t.byTarget.getD n #[]

/-- Enters the edge `e` at both of its ends. -/
def insert (t : Incidence) (e : EdgeId) (source target : NodeId) : Incidence where
  bySource := t.bySource.alter source fun es => some ((es.getD #[]).push e)
  byTarget := t.byTarget.alter target fun es => some ((es.getD #[]).push e)

end Incidence

structure FunctionEntry where
  name : String
  /-- The node of the function as an object whose address can be taken. -/
  node : NodeId
deriving DecidableEq, Repr

structure CallSite where
  label : String
  caller : Option FuncId
deriving DecidableEq, Repr

/-- A call through the function pointer `pointer`. -/
structure IndirectCall where
  site : CallSiteId
  pointer : NodeId
deriving DecidableEq, Repr

/-- The fields that exist, by base object and offset. -/
abbrev FieldTable := Std.TreeMap (NodeId × Nat) NodeId lexOrd.compare

/-- Offsets from this one on are not told apart unless a limit is set. -/
def defaultFieldLimit : Nat := 512

structure Graph where
  nodes : Array Node
  edges : Array Edge
  addrIncidence : Incidence
  copyIncidence : Incidence
  loadIncidence : Incidence
  storeIncidence : Incidence
  gepIncidence : Incidence
  /-- The address edges in the order in which they were added. -/
  addrEdges : Array EdgeId
  fields : FieldTable
  fieldLimit : Nat
  functions : Array FunctionEntry
  callSites : Array CallSite
  indirectCalls : Array IndirectCall

namespace Graph

def empty : Graph where
  nodes := #[]
  edges := #[]
  addrIncidence := .empty
  copyIncidence := .empty
  loadIncidence := .empty
  storeIncidence := .empty
  gepIncidence := .empty
  addrEdges := #[]
  fields := ∅
  fieldLimit := defaultFieldLimit
  functions := #[]
  callSites := #[]
  indirectCalls := #[]

instance : Inhabited Graph := ⟨empty⟩

def node (g : Graph) (n : NodeId) : Except Fault Node :=
  match g.nodes[n]? with
  | some node => .ok node
  | none => .error (.unknownNode n)

def nodeName (g : Graph) (n : NodeId) : Except Fault String := (g.node n).map (·.name)

def addNode (g : Graph) (node : Node) : Graph × NodeId :=
  ({ g with nodes := g.nodes.push node }, g.nodes.size)

def addValue (g : Graph) (name : String) : Graph × NodeId := g.addNode ⟨name, .value⟩

def addObject (g : Graph) (name : String) : Graph × NodeId := g.addNode ⟨name, .object⟩

def addArray (g : Graph) (name : String) : Graph × NodeId := g.addNode ⟨name, .array⟩

/-- Adds a function together with its node. -/
def addFunction (g : Graph) (name : String) : Graph × FuncId × NodeId :=
  let f := g.functions.size
  let n := g.nodes.size
  ({ g with
      nodes := g.nodes.push ⟨name, .function f⟩
      functions := g.functions.push ⟨name, n⟩ }, f, n)

def functionOf? (g : Graph) (n : NodeId) : Option FuncId :=
  match g.nodes[n]? with
  | some ⟨_, .function f⟩ => some f
  | _ => none

/-- The function of a node, if it is the node of one. -/
def function (g : Graph) (n : NodeId) : Except Fault (Option FuncId) :=
  (g.node n).map fun _ => g.functionOf? n

def functionEntry (g : Graph) (f : FuncId) : Except Fault FunctionEntry :=
  match g.functions[f]? with
  | some entry => .ok entry
  | none => .error (.unknownFunction f)

def functionName (g : Graph) (f : FuncId) : Except Fault String := (g.functionEntry f).map (·.name)

def callSite (g : Graph) (c : CallSiteId) : Except Fault CallSite :=
  match g.callSites[c]? with
  | some site => .ok site
  | none => .error (.unknownCallSite c)

def addCallSite (g : Graph) (label : String) (caller : Option FuncId) : Graph × CallSiteId :=
  ({ g with callSites := g.callSites.push ⟨label, caller⟩ }, g.callSites.size)

def addIndirectCall (g : Graph) (site : CallSiteId) (pointer : NodeId) : Graph :=
  { g with indirectCalls := g.indirectCalls.push ⟨site, pointer⟩ }

def edge (g : Graph) (e : EdgeId) : Except Fault Edge :=
  match g.edges[e]? with
  | some edge => .ok edge
  | none => .error (.unknownEdge e)

def incidence (g : Graph) : EdgeFamily → Incidence
  | .addr => g.addrIncidence
  | .copy => g.copyIncidence
  | .load => g.loadIncidence
  | .store => g.storeIncidence
  | .gep => g.gepIncidence

/-- The edges of a family that leave `n`, ascending. -/
def outgoing (g : Graph) (family : EdgeFamily) (n : NodeId) : List EdgeId :=
  ((g.incidence family).outgoing n).toList

/-- The edges of a family that enter `n`, ascending. -/
def incoming (g : Graph) (family : EdgeFamily) (n : NodeId) : List EdgeId :=
  ((g.incidence family).incoming n).toList

/-- Is this very edge, with its kind and offset, in the graph? -/
def containsEdge (g : Graph) (edge : Edge) : Bool :=
  (g.outgoing edge.kind.family edge.source).any fun e => g.edges[e]? == some edge

/-- Enters a new edge into all tables. -/
def appendEdge (g : Graph) (edge : Edge) : Graph :=
  let e := g.edges.size
  let enter (t : Incidence) : Incidence := t.insert e edge.source edge.target
  match edge.kind with
  | .addr =>
    { g with
      edges := g.edges.push edge
      addrEdges := g.addrEdges.push e
      addrIncidence := enter g.addrIncidence }
  | .copy => { g with edges := g.edges.push edge, copyIncidence := enter g.copyIncidence }
  | .load => { g with edges := g.edges.push edge, loadIncidence := enter g.loadIncidence }
  | .store => { g with edges := g.edges.push edge, storeIncidence := enter g.storeIncidence }
  | .gep _ => { g with edges := g.edges.push edge, gepIncidence := enter g.gepIncidence }

/-- Adds an edge between nodes of the graph. An edge that is there already is not added again. -/
def insertEdge (g : Graph) (edge : Edge) : Graph × Option EdgeId :=
  if g.containsEdge edge then (g, none) else (g.appendEdge edge, some g.edges.size)

/-- As `insertEdge`, for any two numbers; both ends must be nodes. -/
def addEdge (g : Graph) (edge : Edge) : Except Fault (Graph × Option EdgeId) :=
  if g.nodes.size ≤ edge.source then .error (.unknownNode edge.source)
  else if g.nodes.size ≤ edge.target then .error (.unknownNode edge.target)
  else .ok (g.insertEdge edge)

/-- A one-line summary of the graph. -/
def summary (g : Graph) : String :=
  "ConstraintGraph(" ++ toString g.nodes.size ++ " nodes, " ++ toString g.edges.size ++ " edges)"

end Graph

end PointsTo
