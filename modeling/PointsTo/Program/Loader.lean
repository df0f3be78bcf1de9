import PointsTo.Program.Reader
import PointsTo.Graph.Basic
import PointsTo.CallGraph
import PointsTo.Event

namespace PointsTo

/-- What is wrong with a name that is used. -/
inductive NameError
  | unknown (name : String)
  | notAFunction (name : String)
deriving DecidableEq, Repr

/-- What a name is used for in a call. -/
inductive CallRole
  | caller
  | callee
  | pointer
deriving DecidableEq, Repr

inductive LoadError
  | malformed
  | duplicateName (name : String)
  | inEdge (cause : NameError)
  | inCall (role : CallRole) (label : String) (cause : NameError)
deriving DecidableEq, Repr

def NameError.message : NameError → String
  | unknown name => "Unknown node `" ++ name ++ "`"
  | notAFunction name => "Node `" ++ name ++ "` is not a function"

def CallRole.text : CallRole → String
  | caller => "caller"
  | callee => "callee"
  | pointer => "function pointer"

def LoadError.message : LoadError → String
  | malformed => "Malformed constraint graph description"
  | duplicateName name => "Duplicate node name `" ++ name ++ "`"
  | inEdge cause => cause.message
  | inCall role label cause =>
    "Invalid " ++ role.text ++ " of callsite `" ++ label ++ "`: " ++ cause.message

/-- What has been loaded so far: the graphs, the node of each name, and the log. -/
structure Loader where
  graph : Graph
  callGraph : CallGraph
  names : Std.TreeMap String NodeId
  log : Array Event

/-- Why a description was not loaded, and the log until then. -/
structure Rejected where
  error : LoadError
  log : Array Event

/-- A loaded program: its constraint graph, and a call graph with all functions and the direct calls. -/
structure Program where
  graph : Graph
  callGraph : CallGraph

namespace Loader

def empty : Loader := ⟨.empty, .empty, ∅, #[]⟩

def record (l : Loader) (event : Event) : Loader := { l with log := l.log.push event }

def addNode (l : Loader) (entry : NodeEntry) : Except LoadError Loader :=
  if l.names.contains entry.name then .error (.duplicateName entry.name)
  else
    let names := l.names.insert entry.name l.graph.nodes.size
    match entry.sort with
    | .value => .ok { l with graph := (l.graph.addValue entry.name).1, names }
    | .object => .ok { l with graph := (l.graph.addObject entry.name).1, names }
    | .array => .ok { l with graph := (l.graph.addArray entry.name).1, names }
    | .function =>
      let (graph, f, _) := l.graph.addFunction entry.name
      .ok { l with graph, callGraph := l.callGraph.addFunction f, names }

/-- The node of a name. -/
def node (l : Loader) (name : String) : Except NameError NodeId :=
  match l.names[name]? with
  | some n => .ok n
  | none => .error (.unknown name)

/-- The function of a name. -/
def function (l : Loader) (name : String) : Except NameError FuncId := do
  match l.graph.functionOf? (← l.node name) with
  | some f => .ok f
  | none => .error (.notAFunction name)

def addEdge (l : Loader) (entry : EdgeEntry) : Except LoadError Loader := do
  let source ← (l.node entry.source).mapError .inEdge
  let target ← (l.node entry.target).mapError .inEdge
  let l :=
    if entry.offset.isSome && entry.family ≠ .gep then l.record (.ignoredOffset entry.source entry.target)
    else l
  match l.graph.insertEdge ⟨source, target, entry.kind⟩ with
  | (graph, some _) => return { l with graph }
  | (graph, none) =>
    return { l with graph }.record (.duplicateEdge entry.family entry.source entry.target)

def addDirectCall (l : Loader) (entry : DirectCallEntry) : Except LoadError Loader := do
  let caller ← (l.function entry.caller).mapError (.inCall .caller entry.label)
  let callee ← (l.function entry.callee).mapError (.inCall .callee entry.label)
  let (graph, site) := l.graph.addCallSite entry.label (some caller)
  let (callGraph, _) := l.callGraph.addEdge site caller callee
  return { l with graph, callGraph := callGraph.setType site .direct }

def addIndirectCall (l : Loader) (entry : IndirectCallEntry) : Except LoadError Loader := do
  let caller ← entry.caller.mapM fun name => (l.function name).mapError (.inCall .caller entry.label)
  let pointer ← (l.node entry.pointer).mapError (.inCall .pointer entry.label)
  let (graph, site) := l.graph.addCallSite entry.label caller
  return { l with graph := graph.addIndirectCall site pointer }

def program (l : Loader) : Program := ⟨l.graph, l.callGraph⟩

/-- Adds the entries of a list one after the other. -/
def addAll (add : Loader → α → Except LoadError Loader) (l : Loader) (entries : List α) :
    Except Rejected Loader :=
  entries.foldlM (fun l entry => (add l entry).mapError (⟨·, l.log⟩)) l

end Loader

/-- Loads a description. -/
def Description.load (d : Description) : Except Rejected Loader := do
  let l ← Loader.empty.addAll Loader.addNode d.nodes
  let l ← l.addAll Loader.addEdge d.edges
  let l ← l.addAll Loader.addDirectCall d.directCalls
  let l ← l.addAll Loader.addIndirectCall d.indirectCalls
  return l.record (.loaded l.graph.nodes.size l.graph.edges.size d.directCalls.length d.indirectCalls.length)

/-- Loads the description that a text spells. -/
def loadText (text : String) : Except Rejected Loader :=
  match Description.ofText? text with
  | some d => d.load
  | none => .error ⟨.malformed, #[]⟩

/-- A one-line summary of a program. -/
def Program.summary (p : Program) : String :=
  "LoadedProgram \x7b consg: " ++ p.graph.summary ++ ", call_graph: " ++ p.callGraph.summary ++ " \x7d"

end PointsTo
