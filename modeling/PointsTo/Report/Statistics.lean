import PointsTo.Solver.Run
import PointsTo.CallGraph
import PointsTo.Rounding

namespace PointsTo

structure CallStatistics where
  functions : Nat
  edges : Nat
  directCalls : Nat
  directEdges : Nat
  indirectCalls : Nat
  indirectEdges : Nat
  /-- Indirect calls of the program without any edge. -/
  unresolvedCalls : Nat
deriving DecidableEq, Repr

namespace CallStatistics

/-- Counts a call site with its edges. A site whose type is not known counts as direct. -/
def addSite (types : Std.TreeMap CallSiteId CallType) (c : CallStatistics) (site : CallSiteId) (edges : Nat) :
    CallStatistics :=
  match types[site]? with
  | some .indirect =>
    { c with indirectCalls := c.indirectCalls + 1, indirectEdges := c.indirectEdges + edges }
  | _ => { c with directCalls := c.directCalls + 1, directEdges := c.directEdges + edges }

def ofGraphs (g : Graph) (cg : CallGraph) : CallStatistics :=
  cg.siteEdges.toList.foldl (fun c (site, edges) => c.addSite cg.types site edges.size) {
    functions := cg.functions.size
    edges := cg.edges.size
    directCalls := 0
    directEdges := 0
    indirectCalls := 0
    indirectEdges := 0
    unresolvedCalls := g.indirectCalls.toList.countP fun call => (cg.siteEdges.getD call.site #[]).isEmpty }

def text (c : CallStatistics) : String :=
  "Call Graph Statistics: \n" ++
  "#Functions: " ++ toString c.functions ++ "\n" ++
  "#Call graph edges: " ++ toString c.edges ++ "\n" ++
  "#Direct calls: " ++ toString c.directCalls ++ ", #call graph edges: " ++ toString c.directEdges ++ "\n" ++
  "#Indirect calls: " ++ toString c.indirectCalls ++ ", #call graph edges: " ++ toString c.indirectEdges ++ "\n" ++
  "#Unresolved indirect calls: " ++ toString c.unresolvedCalls ++ "\n"

end CallStatistics

/-- Two decimals of a number of hundredths. -/
def hundredthsText (n : Nat) : String :=
  toString (n / 100) ++ "." ++ toString (n % 100 / 10) ++ toString (n % 10)

/-- The average of `total` over `count`: a quotient in double precision with two decimals, where a half goes
to the even neighbour. -/
def averageText (total count : Nat) : String :=
  if total = 0 || count = 0 then hundredthsText 0
  else
    let (p, q) := roundQuotient total count
    hundredthsText (divNearest (100 * p) q)

structure PointsToStatistics where
  /-- Nodes whose settled set is not empty. -/
  pointers : Nat
  /-- The sizes of all settled sets together. -/
  relations : Nat
  processed : Nat
  copyEdges : Nat
deriving DecidableEq, Repr

namespace PointsToStatistics

def ofSolver (s : Solver) : PointsToStatistics where
  pointers := s.store.settled.values.countP fun set => !set.isEmpty
  relations := (s.store.settled.values.map PointeeSet.count).foldl (· + ·) 0
  processed := s.processed
  copyEdges := s.copyEdges

def text (p : PointsToStatistics) : String :=
  "Points-to Statistics: \n" ++
  "#Pointers: " ++ toString p.pointers ++ "\n" ++
  "#Points-to relations: " ++ toString p.relations ++ "\n" ++
  "#Avg points-to size: " ++ averageText p.relations p.pointers ++ "\n" ++
  "#Processed nodes: " ++ toString p.processed ++ "\n" ++
  "#Added copy edges: " ++ toString p.copyEdges ++ "\n"

end PointsToStatistics

def statisticsReport (s : Solver) (cg : CallGraph) : String :=
  "##########################################################\n" ++
  (CallStatistics.ofGraphs s.graph cg).text ++
  "----------------------------------------------------------\n" ++
  (PointsToStatistics.ofSolver s).text ++
  "##########################################################\n"

end PointsTo
