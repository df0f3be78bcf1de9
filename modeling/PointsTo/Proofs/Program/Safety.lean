import PointsTo.Report.Dot
import PointsTo.Report.Tables
import PointsTo.Proofs.Resolution
import PointsTo.Proofs.Program.Exactness
import PointsTo.Proofs.Solver.FieldLimit
import PointsTo.Proofs.Solver.Range

namespace PointsTo

namespace Graph
variable {g : Graph}

theorem exists_nodeName {n : NodeId} (bound : n < g.nodes.size) : ∃ name, g.nodeName n = .ok name := by
  have found : g.nodes[n]? = some g.nodes[n] := by simp [bound]
  exact ⟨g.nodes[n].name, by rw [nodeName, node, found]; rfl⟩

theorem exists_functionName {f : FuncId} (bound : f < g.functions.size) : ∃ name, g.functionName f = .ok name := by
  have found : g.functions[f]? = some g.functions[f] := by simp [bound]
  exact ⟨g.functions[f].name, by rw [functionName, functionEntry, found]; rfl⟩

theorem exists_callSite {c : CallSiteId} (bound : c < g.callSites.size) :
    ∃ site ∈ g.callSites, g.callSite c = .ok site := by
  have found : g.callSites[c]? = some g.callSites[c] := by simp [bound]
  exact ⟨_, Array.getElem_mem bound, by rw [callSite, found]⟩

end Graph

/-- Every function of the call graph is one of the graph, and every call site that an edge or a type is about is there;
the tables of the call graph point into it. -/
structure CallGraph.InRange (cg : CallGraph) (g : Graph) : Prop where
  filed : cg.WellFormed
  functions : ∀ f ∈ cg.functions, f < g.functions.size
  sites : ∀ edge ∈ cg.edges, edge.site < g.callSites.size
  types : ∀ site type, cg.type? site = some type → site < g.callSites.size

namespace CallGraph.InRange
variable {cg : CallGraph} {g : Graph} (inRange : cg.InRange g)

include inRange

theorem grown {h : Graph} (grown : g.Grown h) : cg.InRange h where
  filed := inRange.filed
  functions := by rw [grown.functions]; exact inRange.functions
  sites := by rw [grown.callSites]; exact inRange.sites
  types := by rw [grown.callSites]; exact inRange.types

theorem fieldLimit (limit : Nat) : cg.InRange { g with fieldLimit := limit } :=
  ⟨inRange.filed, inRange.functions, inRange.sites, inRange.types⟩

theorem setType {site : CallSiteId} (bound : site < g.callSites.size) (type : CallType) :
    (cg.setType site type).InRange g where
  filed := inRange.filed.setType site type
  functions := inRange.functions
  sites := inRange.sites
  types site' type' known := by
    rw [CallGraph.type?, CallGraph.setType, Std.TreeMap.getElem?_insert] at known
    split at known
    · rename_i same
      exact Nat.compare_eq_eq.mp same ▸ bound
    · exact inRange.types site' type' known

theorem addEdge {site : CallSiteId} {caller callee : FuncId} (bound : site < g.callSites.size)
    (callerBound : caller < g.functions.size) (calleeBound : callee < g.functions.size) :
    (cg.addEdge site caller callee).1.InRange g := by
  have filed := inRange.filed.addEdge site caller callee
  have functions (f : FuncId) (member : f ∈ (cg.mention caller callee).functions) : f < g.functions.size := by
    rcases inRange.filed.mem_functions_mention.mp member with old | rfl | rfl
    · exact inRange.functions f old
    · exact callerBound
    · exact calleeBound
  have types (site' : CallSiteId) (type : CallType) (known : (cg.mention caller callee).type? site' = some type) :
      site' < g.callSites.size := by
    rw [CallGraph.type?, types_mention] at known
    exact inRange.types site' type known
  by_cases known : ∃ edge ∈ cg.edges, edge.site = site ∧ edge.callee = callee
  · rw [addEdge_of_known inRange.filed known] at filed ⊢
    refine ⟨filed, functions, ?_, types⟩
    rw [edges_mention]
    exact inRange.sites
  · rw [addEdge_of_new inRange.filed known] at filed ⊢
    refine ⟨filed, functions, fun edge member => ?_, types⟩
    rcases Array.mem_push.mp member with old | rfl
    · rw [edges_mention] at old
      exact inRange.sites edge old
    · exact bound

theorem dot : ∃ text, cg.dot g = .ok text := by
  have functions : ∃ names, cg.functions.toList.mapM g.functionName = .ok names :=
    mapM_total fun f member => Graph.exists_functionName (inRange.functions f (Array.mem_toList_iff.mp member))
  have edge (e : CallEdge) (member : e ∈ cg.edges.toList) : ∃ line, (do
      return (cg.place e.caller, cg.place e.callee, (← g.callSite e.site).label) : Except Fault _) = .ok line := by
    obtain ⟨site, _, found⟩ := Graph.exists_callSite (inRange.sites e (Array.mem_toList_iff.mp member))
    exact ⟨_, bind_eq_ok_iff.mpr ⟨site, found, rfl⟩⟩
  obtain ⟨names, runN⟩ := functions
  obtain ⟨edges, runE⟩ := mapM_total edge
  exact ⟨_, bind_eq_ok_iff.mpr ⟨names, runN, bind_eq_ok_iff.mpr ⟨edges, runE, rfl⟩⟩⟩

end CallGraph.InRange

section resolution
variable {g : Graph} {store : DiffStore} (graph : g.InRange)

include graph

theorem Resolution.inRange_of_mem_requests {call : IndirectCall} {edge : CallEdge} (member : call ∈ g.indirectCalls)
    (requested : edge ∈ requests g store call) :
    edge.site < g.callSites.size ∧ edge.caller < g.functions.size ∧ edge.callee < g.functions.size := by
  obtain ⟨same, ⟨site, found, caller⟩, o, _, function⟩ := mem_requests.mp requested
  refine ⟨same ▸ graph.sites call member, ?_, graph.functionNumbers o edge.callee function⟩
  exact graph.callers site (Array.mem_iff_getElem?.mpr ⟨edge.site, found⟩) edge.caller caller

theorem Resolution.inRange_serve {s : CallGraph × Nat} (inRange : s.1.InRange g) {call : IndirectCall}
    (member : call ∈ g.indirectCalls) : (serve g store s call).1.InRange g := by
  apply List.foldlRecOn (motive := fun s : CallGraph × Nat => s.1.InRange g)
  · exact inRange.setType (graph.sites call member) .indirect
  · intro s inRangeS edge requested
    obtain ⟨site, caller, callee⟩ := inRange_of_mem_requests graph member requested
    exact inRangeS.addEdge site caller callee

theorem resolveCalls_total {cg : CallGraph} (facts : ∀ k, ∀ x ∈ store.get k, x < g.nodes.size)
    (inRange : cg.InRange g) : ∃ r, resolveCalls g store cg = .ok r ∧ r.callGraph.InRange g := by
  obtain ⟨r, run, state⟩ := resolveCalls_state graph.sites facts cg
  have served : (g.indirectCalls.toList.foldl (Resolution.serve g store) (cg, 0)).1.InRange g := by
    apply List.foldlRecOn (motive := fun s : CallGraph × Nat => s.1.InRange g)
    · exact inRange
    · intro s inRangeS call member
      exact Resolution.inRange_serve graph inRangeS (Array.mem_toList_iff.mp member)
  rw [← state] at served
  exact ⟨r, run, served⟩

end resolution

section reports
variable {g : Graph} {store : DiffStore} (graph : g.InRange) (below : store.Below g.nodes.size)

include below

theorem pointsToReport_total : ∃ text, pointsToReport g store = .ok text := by
  have line (entry : NodeId × PointeeSet) (member : entry ∈ store.nonempty) :
      ∃ text, pointsToLine g entry.1 entry.2 = .ok text := by
    obtain ⟨k, key, rfl⟩ := List.mem_map.mp (List.mem_filter.mp member).1
    obtain ⟨name, runN⟩ := Graph.exists_nodeName (below.settledKeys k (DiffStore.mem_keys.mp key))
    obtain ⟨names, runP⟩ : ∃ names, ((store.get k).toList.mergeSort).mapM g.nodeName = .ok names :=
      mapM_total fun x pointee => Graph.exists_nodeName
        ((below.get k).elements x (PointeeSet.mem_toList.mp (List.mem_mergeSort.mp pointee)))
    exact ⟨_, bind_eq_ok_iff.mpr ⟨name, runN, bind_eq_ok_iff.mpr ⟨names, runP, rfl⟩⟩⟩
  obtain ⟨lines, run⟩ := mapM_total line
  exact ⟨_, bind_eq_ok_iff.mpr ⟨lines, run, rfl⟩⟩

include graph

theorem indirectCallLines_total {call : IndirectCall} (member : call ∈ g.indirectCalls) :
    ∃ text, indirectCallLines g store call = .ok text := by
  obtain ⟨⟨label, caller⟩, listed, runS⟩ := Graph.exists_callSite (graph.sites call member)
  obtain ⟨pointer, runP⟩ := Graph.exists_nodeName (graph.pointers call member)
  have targets := callTargets_eq (below.get call.pointer).elements
  obtain ⟨callees, runC⟩ : ∃ names,
      ((store.get call.pointer).toList.filterMap g.functionOf?).mergeSort.mapM g.functionName = .ok names := by
    refine mapM_total fun f target => Graph.exists_functionName ?_
    obtain ⟨o, _, function⟩ := List.mem_filterMap.mp (List.mem_mergeSort.mp target)
    exact graph.functionNumbers o f (Graph.functionOf?_eq_some_iff.mp function)
  have rest (lines : String → List String → String) : ∃ text, (do
      let pointer ← g.nodeName call.pointer
      let callees ← (← callTargets g store call.pointer).mapM g.functionName
      return lines pointer callees : Except Fault String) = .ok text :=
    ⟨_, bind_eq_ok_iff.mpr ⟨pointer, runP, bind_eq_ok_iff.mpr ⟨_, targets, bind_eq_ok_iff.mpr ⟨callees, runC, rfl⟩⟩⟩⟩
  unfold indirectCallLines
  rw [runS]
  cases caller with
  | none => exact rest _
  | some caller =>
    obtain ⟨name, run⟩ := Graph.exists_functionName (graph.callers _ listed caller rfl)
    change ∃ text, g.functionName caller >>= _ = .ok text
    rw [run]
    exact rest _

theorem indirectCallReport_total : ∃ text, indirectCallReport g store = .ok text := by
  obtain ⟨lines, run⟩ := mapM_total fun call member =>
    indirectCallLines_total graph below (Array.mem_toList_iff.mp member)
  exact ⟨_, bind_eq_ok_iff.mpr ⟨lines, run, rfl⟩⟩

end reports

namespace Description

theorem load_represents {d : Description} {l : Loader} (loaded : d.load = .ok l) : l.Represents d := by
  rcases d.load_proceeds with ⟨l', loaded', rep⟩ | ⟨rejected, refused, _⟩
  · cases loaded'.symm.trans loaded
    exact rep
  · cases refused.symm.trans loaded

end Description

namespace Loader.Represents
variable {l : Loader} {d : Description} (rep : l.Represents d)

include rep

theorem functionOf_lt {name : String} (function : name ∈ d.functionNames) :
    d.functionOf name < l.graph.functions.size := by
  rw [rep.functions_size]
  exact List.idxOf_lt_length_of_mem function

theorem callsFiled : l.graph.CallsFiled where
  callers site member f caller := by
    have listed : site ∈ d.callSites := rep.program.callSites ▸ Array.mem_toList_iff.mpr member
    rcases List.mem_append.mp listed with direct | indirect
    · obtain ⟨call, called, rfl⟩ := List.mem_map.mp direct
      cases caller
      exact rep.functionOf_lt (rep.named.directCalls call called).1
    · obtain ⟨call, called, rfl⟩ := List.mem_map.mp indirect
      obtain ⟨name, known, rfl⟩ := Option.map_eq_some_iff.mp caller
      exact rep.functionOf_lt ((rep.named.indirectCalls call called).1 name known)
  sites call member := by
    have listed : call ∈ d.pointers := rep.program.indirectCalls ▸ Array.mem_toList_iff.mpr member
    obtain ⟨i, bound, rfl⟩ := List.mem_mapIdx.mp listed
    rw [rep.callSites_size]
    exact Nat.add_lt_add_left bound _
  pointers call member := by
    have listed : call ∈ d.pointers := rep.program.indirectCalls ▸ Array.mem_toList_iff.mpr member
    obtain ⟨i, bound, rfl⟩ := List.mem_mapIdx.mp listed
    exact rep.nodeOf_lt (rep.named.indirectCalls _ (List.getElem_mem bound)).2

theorem callGraph_inRange : l.callGraph.InRange l.graph where
  filed := rep.program.filed
  functions f member := by
    have listed : f ∈ List.range d.functionNames.length := rep.program.mentioned ▸ Array.mem_toList_iff.mpr member
    rw [rep.functions_size]
    exact List.mem_range.mp listed
  sites edge member := by
    have listed : edge ∈ d.callEdges := rep.program.calls ▸ Array.mem_toList_iff.mpr member
    rw [rep.callSites_size]
    exact Nat.lt_of_lt_of_le (Description.site_lt_of_mem_callEdges listed) (Nat.le_add_right ..)
  types site type known := by
    have types := (rep.program.types site).symm.trans known
    rw [rep.callSites_size]
    split at types
    · rename_i bound
      exact Nat.lt_of_lt_of_le bound (Nat.le_add_right ..)
    · cases types

end Loader.Represents

open Solver in
/-- A loaded program is analyzed, its calls are resolved and its reports are written without a fault. In every state of
the analysis, and in the call graph before and after the resolution, every number is that of an entry of its table; and
where the tables stay small, no number outgrows its type and no dense set the machine word. -/
theorem loaded_runs {d : Description} {l : Loader} (loaded : d.load = .ok l) (limit : Nat) :
    ∃ s r, (ofGraph l.graph).analyze limit = .ok s ∧ resolveCalls s.graph s.store l.callGraph = .ok r ∧
      (∃ text, pointsToReport s.graph s.store = .ok text) ∧
      (∃ text, indirectCallReport s.graph s.store = .ok text) ∧
      (∃ text, r.callGraph.dot s.graph = .ok text) ∧
      ((ofGraph l.graph).prepare limit).Steps s ∧
      (∀ t, ((ofGraph l.graph).prepare limit).Steps t → t.InRange ∧ (t.graph.Small → t.Fits)) ∧
      l.callGraph.InRange s.graph ∧ r.callGraph.InRange s.graph := by
  have rep := Description.load_represents loaded
  have built : l.graph.Built := rep.program.built
  obtain ⟨s, done⟩ := exists_analyzed built limit
  have steps := done.steps built
  have inRange := steps.inRange built rep.callsFiled
  have facts (k : NodeId) : ∀ x ∈ s.store.get k, x < s.graph.nodes.size := (inRange.store.get k).elements
  have start := (rep.callGraph_inRange.fieldLimit limit).grown done.grown
  obtain ⟨r, resolved, calls⟩ := resolveCalls_total inRange.graph facts start
  refine ⟨s, r, done.run, resolved, pointsToReport_total inRange.store,
    indirectCallReport_total inRange.graph inRange.store, calls.dot, steps, fun t run => ?_, start, calls⟩
  have inRangeT := run.inRange built rep.callsFiled
  exact ⟨inRangeT, inRangeT.fits⟩

/-- A handler is kept in a field of a table and called from there: `slot = &t->1; *slot = h; g = *slot; g()`. -/
def dispatch : Description where
  nodes := [⟨"main", .function⟩, ⟨"handler", .function⟩, ⟨"table", .object⟩, ⟨"t", .value⟩, ⟨"slot", .value⟩,
    ⟨"h", .value⟩, ⟨"g", .value⟩]
  edges := [⟨.addr, "table", "t", none⟩, ⟨.gep, "t", "slot", some 1⟩, ⟨.addr, "handler", "h", none⟩,
    ⟨.store, "h", "slot", none⟩, ⟨.load, "slot", "g", none⟩, ⟨.copy, "g", "h", none⟩]
  directCalls := [⟨"first", "main", "main"⟩]
  indirectCalls := [⟨"second", some "main", "g"⟩, ⟨"third", none, "h"⟩]

open Solver in
theorem loaded_runs_dispatch : ∃ l s r, dispatch.load = .ok l ∧ (ofGraph l.graph).analyze 8 = .ok s ∧
    resolveCalls s.graph s.store l.callGraph = .ok r ∧ (∃ text, pointsToReport s.graph s.store = .ok text) ∧
    (∃ text, indirectCallReport s.graph s.store = .ok text) ∧ (∃ text, r.callGraph.dot s.graph = .ok text) ∧
    s.InRange ∧ s.graph.Small ∧ s.Fits ∧ l.callGraph.InRange s.graph ∧ r.callGraph.InRange s.graph := by
  have evaluated : (dispatch.analyzed 8).any fun r => r.2.graph.nodes.size = 8 ∧ r.2.graph.edges.size = 8 ∧
      r.2.graph.functions.size = 2 ∧ r.2.graph.callSites.size = 3 := by decide +kernel
  obtain ⟨l, s, loaded, ran, holds⟩ := Description.of_analyzed evaluated
  obtain ⟨nodes, edges, functions, callSites⟩ := of_decide_eq_true holds
  have small : s.graph.Small := by
    constructor
    · rw [nodes]; decide
    · rw [edges]; decide
    · rw [functions]; decide
    · rw [callSites]; decide
  obtain ⟨s', r, ran', resolved, points, indirect, dot, steps, range, before, after⟩ := loaded_runs loaded 8
  cases ran.symm.trans ran'
  obtain ⟨inRange, fits⟩ := range s steps
  exact ⟨l, s, r, loaded, ran, resolved, points, indirect, dot, inRange, small, fits small, before, after⟩

end PointsTo
