import PointsTo.Index
import Std.Data.TreeMap

namespace PointsTo

/-- How the callees of a call site are known. -/
inductive CallType
  | direct
  | indirect
deriving DecidableEq, Repr

structure CallEdge where
  site : CallSiteId
  caller : FuncId
  callee : FuncId
deriving DecidableEq, Repr

structure CallGraph where
  /-- The functions in the order of their first mention. -/
  functions : Array FuncId
  /-- The place of each function in that order. -/
  places : Std.TreeMap FuncId Nat
  edges : Array CallEdge
  /-- The edges of each call site, ascending. -/
  siteEdges : Std.TreeMap CallSiteId (Array EdgeId)
  types : Std.TreeMap CallSiteId CallType

namespace CallGraph

def empty : CallGraph := ⟨#[], ∅, #[], ∅, ∅⟩

instance : Inhabited CallGraph := ⟨empty⟩

/-- Mentions a function. -/
def addFunction (cg : CallGraph) (f : FuncId) : CallGraph :=
  if cg.places.contains f then cg
  else { cg with functions := cg.functions.push f, places := cg.places.insert f cg.functions.size }

def setType (cg : CallGraph) (site : CallSiteId) (type : CallType) : CallGraph :=
  { cg with types := cg.types.insert site type }

def type? (cg : CallGraph) (site : CallSiteId) : Option CallType := cg.types[site]?

/-- The edges of a call site. -/
def edgesAt (cg : CallGraph) (site : CallSiteId) : List CallEdge :=
  (cg.siteEdges.getD site #[]).toList.filterMap (cg.edges[·]?)

def hasEdge (cg : CallGraph) (site : CallSiteId) (callee : FuncId) : Bool :=
  (cg.edgesAt site).any (·.callee == callee)

/-- Adds the call of `callee` at `site`, and says whether it is new. Both functions count as mentioned even
if the site calls `callee` already, and the caller plays no part in that question. -/
def addEdge (cg : CallGraph) (site : CallSiteId) (caller callee : FuncId) : CallGraph × Bool :=
  let cg := (cg.addFunction caller).addFunction callee
  if cg.hasEdge site callee then (cg, false)
  else
    let e := cg.edges.size
    ({ cg with
        edges := cg.edges.push ⟨site, caller, callee⟩
        siteEdges := cg.siteEdges.alter site fun es => some ((es.getD #[]).push e) }, true)

/-- A list in ascending order without repetitions. -/
def distinct (fs : List FuncId) : List FuncId :=
  (fs.foldl (fun s f => s.insert f ()) (∅ : Std.TreeMap FuncId Unit)).keys

/-- The functions called at a site, ascending. -/
def callees (cg : CallGraph) (site : CallSiteId) : List FuncId := distinct ((cg.edgesAt site).map (·.callee))

/-- The functions called by a function, ascending. -/
def calleesOf (cg : CallGraph) (caller : FuncId) : List FuncId :=
  distinct ((cg.edges.toList.filter (·.caller == caller)).map (·.callee))

/-- A one-line summary of the call graph. -/
def summary (cg : CallGraph) : String :=
  "CallGraph(" ++ toString cg.functions.size ++ " functions, " ++ toString cg.edges.size ++ " edges)"

end CallGraph

end PointsTo
