import Mathlib.Algebra.BigOperators.Group.List.Lemmas
import Mathlib.Algebra.Ring.Nat
import Mathlib.Data.List.Dedup
import PointsTo.Report.Statistics
import PointsTo.Proofs.Program.Safety

namespace PointsTo

namespace CallGraph

/-- The call site of each call. -/
def sites (cg : CallGraph) : List CallSiteId := cg.edges.toList.map (·.site)

def isIndirect (cg : CallGraph) (site : CallSiteId) : Bool := cg.type? site = some .indirect

theorem mem_sites {cg : CallGraph} {site : CallSiteId} : site ∈ cg.sites ↔ ∃ edge ∈ cg.edges, edge.site = site := by
  simp [sites]

theorem length_numbersAt (cg : CallGraph) (site : CallSiteId) : (cg.numbersAt site).length = cg.sites.count site := by
  rw [sites, List.count, List.countP_map, ← filterMap_edges, List.countP_filterMap, numbersAt,
    ← List.countP_eq_length_filter]
  congr 1
  funext e
  cases cg.edges[e]? <;> rfl

namespace Built
variable {cg : CallGraph} (built : cg.Built)

include built

theorem keys_perm : cg.siteEdges.keys.Perm cg.sites.dedup := by
  apply (List.perm_ext_iff_of_nodup ?_ (List.nodup_dedup _)).mpr
  · intro site
    rw [Std.TreeMap.mem_keys, built.mem_siteEdges, List.mem_dedup, mem_sites]
  · exact Std.TreeMap.nodup_keys

theorem size_siteEdges (site : CallSiteId) : (cg.siteEdges.getD site #[]).size = cg.sites.count site := by
  rw [← length_numbersAt, ← built.wellFormed.filed, Array.length_toList]

theorem isEmpty_siteEdges (site : CallSiteId) : (cg.siteEdges.getD site #[]).isEmpty = decide (site ∉ cg.sites) := by
  rw [Array.isEmpty, built.size_siteEdges]
  exact decide_eq_decide.mpr List.count_eq_zero

/-- Every call site with a call has one entry, which counts its calls. -/
theorem toList_siteEdges : cg.siteEdges.toList.map (fun entry => (entry.1, entry.2.size)) =
    cg.siteEdges.keys.map fun site => (site, cg.sites.count site) := by
  rw [← Std.TreeMap.map_fst_toList_eq_keys, List.map_map]
  apply List.map_congr_left
  intro entry member
  have found := Std.TreeMap.mem_toList_iff_getElem?_eq_some.mp member
  have size := built.size_siteEdges entry.1
  rw [Std.TreeMap.getD_eq_getD_getElem?, found, Option.getD_some] at size
  exact congrArg (Prod.mk entry.1) size

end Built

end CallGraph

namespace CallStatistics

theorem addSite_of_indirect {cg : CallGraph} {site : CallSiteId} (indirect : cg.isIndirect site = true)
    (c : CallStatistics) (edges : Nat) : c.addSite cg.types site edges =
      { c with indirectCalls := c.indirectCalls + 1, indirectEdges := c.indirectEdges + edges } := by
  have type : cg.types[site]? = some .indirect := of_decide_eq_true indirect
  rw [addSite, type]

theorem addSite_of_direct {cg : CallGraph} {site : CallSiteId} (direct : cg.isIndirect site = false)
    (c : CallStatistics) (edges : Nat) : c.addSite cg.types site edges =
      { c with directCalls := c.directCalls + 1, directEdges := c.directEdges + edges } := by
  have type : cg.types[site]? ≠ some .indirect := of_decide_eq_false direct
  unfold addSite
  split
  · rename_i indirect
    exact absurd indirect type
  · rfl

/-- The sites of a list are counted by their types. -/
theorem foldl_addSite (cg : CallGraph) (edges : CallSiteId → Nat) (sites : List CallSiteId) (c : CallStatistics) :
    sites.foldl (fun c site => c.addSite cg.types site (edges site)) c =
      { c with
        directCalls := c.directCalls + sites.countP (!cg.isIndirect ·)
        directEdges := c.directEdges + ((sites.filter (!cg.isIndirect ·)).map edges).sum
        indirectCalls := c.indirectCalls + sites.countP cg.isIndirect
        indirectEdges := c.indirectEdges + ((sites.filter cg.isIndirect).map edges).sum } := by
  induction sites generalizing c with
  | nil => rfl
  | cons site sites ih =>
    rw [List.foldl_cons, ih]
    cases type : cg.isIndirect site with
    | true =>
      rw [addSite_of_indirect type]
      simp [type, Nat.add_assoc, Nat.add_comm]
    | false =>
      rw [addSite_of_direct type]
      simp [type, Nat.add_assoc, Nat.add_comm]

/-- The statistics of a call graph, read off its calls. -/
theorem ofGraphs_eq {cg : CallGraph} (built : cg.Built) (g : Graph) :
    ofGraphs g cg = {
      functions := cg.functions.size
      edges := cg.edges.size
      directCalls := cg.sites.dedup.countP (!cg.isIndirect ·)
      directEdges := cg.sites.countP (!cg.isIndirect ·)
      indirectCalls := cg.sites.dedup.countP cg.isIndirect
      indirectEdges := cg.sites.countP cg.isIndirect
      unresolvedCalls := g.indirectCalls.toList.countP fun call => call.site ∉ cg.sites } := by
  have keys := built.keys_perm
  have edges (p : CallSiteId → Bool) :
      ((cg.siteEdges.keys.filter p).map fun site => cg.sites.count site).sum = cg.sites.countP p := by
    rw [((keys.filter p).map _).sum_eq, List.sum_map_count_dedup_filter_eq_countP]
  have entries (c : CallStatistics) :
      cg.siteEdges.toList.foldl (fun c entry => c.addSite cg.types entry.1 entry.2.size) c =
        cg.siteEdges.keys.foldl (fun c site => c.addSite cg.types site (cg.sites.count site)) c := by
    have folded := congrArg (List.foldl (fun (c : CallStatistics) entry => c.addSite cg.types entry.1 entry.2) c)
      built.toList_siteEdges
    simpa only [List.foldl_map] using folded
  refine (entries _).trans ?_
  rw [foldl_addSite]
  simp only [edges, keys.countP_eq, built.isEmpty_siteEdges, Nat.zero_add]

end CallStatistics

namespace Description

theorem sites_callEdges (d : Description) : d.callEdges.map (·.site) = List.range d.directCalls.length := by
  apply List.ext_getElem <;> simp [callEdges]

theorem sites_pointers (d : Description) :
    d.pointers.map (·.site) = List.range' d.directCalls.length d.indirectCalls.length := by
  apply List.ext_getElem <;> simp [pointers]

/-- An indirect call comes to nothing: its caller is not known, or its pointer points to no function. -/
def Unresolved (d : Description) (s : Solver) (call : IndirectCallEntry) : Prop :=
  call.caller = none ∨ ∀ o ∈ (s.store.get (d.nodeOf call.pointer)).toList, s.graph.functionOf? o = none

instance (d : Description) (s : Solver) (call : IndirectCallEntry) : Decidable (d.Unresolved s call) :=
  inferInstanceAs (Decidable (_ ∨ _))

theorem not_unresolved_iff {d : Description} {s : Solver} {call : IndirectCallEntry} :
    ¬ d.Unresolved s call ↔ (∃ name, call.caller = some name) ∧
      ∃ o ∈ s.store.get (d.nodeOf call.pointer), ∃ f, s.graph.kind? o = some (.function f) := by
  simp only [Unresolved, not_or, not_forall, ← ne_eq, Option.ne_none_iff_exists', PointeeSet.mem_toList,
    Graph.functionOf?_eq_some_iff, exists_prop]

end Description

theorem CallGraph.WellFormed.nodup_functions {cg : CallGraph} (wf : cg.WellFormed) : cg.functions.toList.Nodup := by
  rw [List.nodup_iff_getElem?_ne_getElem?]
  intro i j less bound same
  simp only [Array.getElem?_toList] at same
  obtain ⟨f, found⟩ : ∃ f, cg.functions[j]? = some f := ⟨cg.functions[j], by simp⟩
  have first := (wf.places f i).mpr (same.trans found)
  cases first.symm.trans ((wf.places f j).mpr found)
  omega

/-- What is known of the calls after a whole run, of which `new` have been added by the resolution. -/
structure Description.Resolved (d : Description) (s : Solver) (r : Resolution) (new : List CallEdge) : Prop where
  built : r.callGraph.Built
  functions : r.callGraph.functions.toList = List.range d.functionNames.length
  edges : r.callGraph.edges.toList = d.callEdges ++ new
  implied : ∀ edge ∈ new, edge.Implied s.graph s.store
  called : ∀ edge : CallEdge, edge.Implied s.graph s.store → edge.site ∈ r.callGraph.sites
  added : r.added = new.length
  types : ∀ site, r.callGraph.type? site =
    if site ∈ d.pointers.map (·.site) then some .indirect else
      if site < d.directCalls.length then some .direct else none
  callSites : s.graph.callSites.toList = d.callSites
  indirectCalls : s.graph.indirectCalls.toList = d.pointers

/-- A list that starts with all numbers below `n` and holds no other number, and none twice, ends with them. -/
theorem eq_range_of_prefix {n : Nat} {fs : List Nat} (start : List.range n <+: fs) (distinct : fs.Nodup)
    (below : ∀ f ∈ fs, f < n) : fs = List.range n := by
  obtain ⟨rest, rfl⟩ := start
  cases rest with
  | nil => exact List.append_nil _
  | cons f rest =>
    have last : f ∈ List.range n ++ f :: rest := List.mem_append_right _ List.mem_cons_self
    have first : f ∈ List.range n := List.mem_range.mpr (below f last)
    exact absurd rfl ((List.nodup_append.mp distinct).2.2 f first f List.mem_cons_self)

open Solver in
/-- A whole run of a described program: the analysis ends in `s` and the resolution in `r`, which has added the calls
`new`. -/
structure Description.Runs (d : Description) (l : Loader) (limit : Nat) (s : Solver) (r : Resolution)
    (new : List CallEdge) : Prop where
  represents : l.Represents d
  analyzed : Analyzed l.graph limit s
  inRange : s.InRange
  resolves : resolveCalls s.graph s.store l.callGraph = .ok r
  gains : l.callGraph.Gains (s.graph.indirectCalls.toList.flatMap (Resolution.requests s.graph s.store)) new r.callGraph
  calls : r.callGraph.InRange s.graph
  added : r.added = new.length
  types : ∀ site, r.callGraph.type? site =
    if site ∈ s.graph.indirectCalls.toList.map (·.site) then some .indirect else l.callGraph.type? site

open Solver in
theorem Description.exists_runs {d : Description} {l : Loader} (loaded : d.load = .ok l) (limit : Nat) :
    ∃ s r new, d.Runs l limit s r new := by
  have rep := Description.load_represents loaded
  have builtG : l.graph.Built := rep.program.built
  obtain ⟨s, done⟩ := exists_analyzed builtG limit
  have inRange := (done.steps builtG).inRange builtG rep.callsFiled
  have facts (k : NodeId) : ∀ x ∈ s.store.get k, x < s.graph.nodes.size := (inRange.store.get k).elements
  have start := (rep.callGraph_inRange.fieldLimit limit).grown done.grown
  obtain ⟨r, new, resolved, gains, added, types⟩ :=
    resolveCalls_gains inRange.graph.sites facts (Description.load_callGraph_built loaded)
  obtain ⟨r', resolved', calls⟩ := resolveCalls_total inRange.graph facts start
  cases resolved.symm.trans resolved'
  exact ⟨s, r, new, rep, done, inRange, resolved, gains, calls, added, types⟩

theorem Description.Runs.resolved {d : Description} {l : Loader} {limit : Nat} {s : Solver} {r : Resolution}
    {new : List CallEdge} (runs : d.Runs l limit s r new) : d.Resolved s r new := by
  obtain ⟨rep, done, _, _, gains, calls, added, types⟩ := runs
  have indirectCalls : s.graph.indirectCalls.toList = d.pointers := by
    rw [done.grown.indirectCalls]
    exact rep.program.indirectCalls
  refine ⟨gains.built, ?_, ?_, ?_, ?_, added, ?_, ?_, indirectCalls⟩
  · refine eq_range_of_prefix ?_ gains.filed.nodup_functions fun f member => ?_
    · rw [← rep.program.mentioned]
      exact gains.functions
    · rw [← rep.functions_size]
      have bound := calls.functions f (Array.mem_toList_iff.mp member)
      rwa [done.grown.functions] at bound
  · rw [gains.edges]
    exact congrArg (· ++ new) rep.program.calls
  · intro edge member
    exact mem_allRequests.mp (gains.among edge member)
  · intro edge implied
    obtain ⟨known, member, site, _⟩ := gains.listed edge (mem_allRequests.mpr implied)
    exact CallGraph.mem_sites.mpr ⟨known, member, site⟩
  · intro site
    rw [types, indirectCalls]
    congr 1
    exact rep.program.types site
  · rw [done.grown.callSites]
    exact rep.program.callSites

open Solver in
theorem Description.exists_resolved {d : Description} {l : Loader} (loaded : d.load = .ok l) (limit : Nat) :
    ∃ s r new, (ofGraph l.graph).analyze limit = .ok s ∧ resolveCalls s.graph s.store l.callGraph = .ok r ∧
      d.Resolved s r new := by
  obtain ⟨s, r, new, runs⟩ := d.exists_runs loaded limit
  exact ⟨s, r, new, runs.analyzed.run, runs.resolves, runs.resolved⟩

namespace Description.Resolved
variable {d : Description} {s : Solver} {r : Resolution} {new : List CallEdge} (resolved : d.Resolved s r new)

include resolved

theorem sites_eq : r.callGraph.sites = List.range d.directCalls.length ++ new.map (·.site) := by
  rw [CallGraph.sites, resolved.edges, List.map_append, sites_callEdges]

theorem isIndirect_iff {site : CallSiteId} :
    r.callGraph.isIndirect site = true ↔ site ∈ d.pointers.map (·.site) := by
  rw [CallGraph.isIndirect, resolved.types, decide_eq_true_eq]
  split
  · simp [*]
  · split <;> simp [*]

/-- The sites of new calls are those of indirect calls. -/
theorem isIndirect_of_new {site : CallSiteId} (member : site ∈ new.map (·.site)) :
    r.callGraph.isIndirect site = true := by
  obtain ⟨edge, added, rfl⟩ := List.mem_map.mp member
  obtain ⟨call, listed, site, _⟩ := resolved.implied edge added
  have inside : call ∈ d.pointers := resolved.indirectCalls ▸ Array.mem_toList_iff.mpr listed
  exact resolved.isIndirect_iff.mpr (List.mem_map.mpr ⟨call, inside, site⟩)

theorem not_isIndirect {site : CallSiteId} (direct : site ∈ List.range d.directCalls.length) :
    r.callGraph.isIndirect site = false := by
  rw [Bool.eq_false_iff, ne_eq, resolved.isIndirect_iff, sites_pointers, List.mem_range'_1]
  exact fun inside => Nat.not_lt.mpr inside.1 (List.mem_range.mp direct)

theorem countP_direct : r.callGraph.sites.countP (!r.callGraph.isIndirect ·) = d.directCalls.length := by
  have last : (new.map (·.site)).countP (!r.callGraph.isIndirect ·) = 0 :=
    List.countP_eq_zero.mpr fun site member => by simp [resolved.isIndirect_of_new member]
  have first : (List.range d.directCalls.length).countP (!r.callGraph.isIndirect ·) = d.directCalls.length := by
    rw [List.countP_eq_length.mpr fun site member => by simp [resolved.not_isIndirect member], List.length_range]
  rw [resolved.sites_eq, List.countP_append, first, last, Nat.add_zero]

theorem countP_indirect : r.callGraph.sites.countP r.callGraph.isIndirect = new.length := by
  have first : (List.range d.directCalls.length).countP r.callGraph.isIndirect = 0 :=
    List.countP_eq_zero.mpr fun site member => by simp [resolved.not_isIndirect member]
  have last : (new.map (·.site)).countP r.callGraph.isIndirect = new.length := by
    rw [List.countP_eq_length.mpr fun site member => resolved.isIndirect_of_new member, List.length_map]
  rw [resolved.sites_eq, List.countP_append, first, last, Nat.zero_add]

theorem countP_directSites :
    r.callGraph.sites.dedup.countP (!r.callGraph.isIndirect ·) = d.directCalls.length := by
  have sites : (r.callGraph.sites.dedup.filter (!r.callGraph.isIndirect ·)).Perm
      (List.range d.directCalls.length) := by
    apply (List.perm_ext_iff_of_nodup ((List.nodup_dedup _).filter _) List.nodup_range).mpr
    intro site
    rw [List.mem_filter, List.mem_dedup, resolved.sites_eq, List.mem_append]
    constructor
    · rintro ⟨direct | added, type⟩
      · exact direct
      · rw [resolved.isIndirect_of_new added] at type
        cases type
    · intro direct
      exact ⟨Or.inl direct, by rw [resolved.not_isIndirect direct]; rfl⟩
  rw [List.countP_eq_length_filter, sites.length_eq, List.length_range]

/-- An indirect call has a call or stands among those without. -/
theorem countP_indirectSites : r.callGraph.sites.dedup.countP r.callGraph.isIndirect +
    d.pointers.countP (fun call => call.site ∉ r.callGraph.sites) = d.indirectCalls.length := by
  have table : (d.pointers.map (·.site)).Nodup := by
    rw [sites_pointers]
    exact List.nodup_range'
  have sites : (r.callGraph.sites.dedup.filter r.callGraph.isIndirect).Perm
      ((d.pointers.map (·.site)).filter (· ∈ r.callGraph.sites)) := by
    apply (List.perm_ext_iff_of_nodup ((List.nodup_dedup _).filter _) (table.filter _)).mpr
    intro site
    rw [List.mem_filter, List.mem_filter, List.mem_dedup, resolved.isIndirect_iff, decide_eq_true_eq]
    exact and_comm
  have both := List.length_eq_countP_add_countP (fun call : IndirectCall => decide (call.site ∈ r.callGraph.sites))
    (l := d.pointers)
  simp only [decide_eq_true_eq] at both
  rw [List.countP_eq_length_filter, sites.length_eq, ← List.countP_eq_length_filter, List.countP_map]
  refine both.symm.trans ?_
  simp [pointers]

theorem site_eq {i : Nat} {call : IndirectCallEntry} (found : d.indirectCalls[i]? = some call) :
    s.graph.callSites[d.directCalls.length + i]? = some ⟨call.label, call.caller.map d.functionOf⟩ := by
  rw [← Array.getElem?_toList, resolved.callSites, Description.callSites, List.getElem?_append_right (by simp)]
  simp [found]

/-- The calls that are implied, told from the indirect calls of the description. -/
theorem implied_iff {edge : CallEdge} : edge.Implied s.graph s.store ↔
    ∃ (i : Nat) (call : IndirectCallEntry), d.indirectCalls[i]? = some call ∧ edge.site = d.directCalls.length + i ∧
      call.caller.map d.functionOf = some edge.caller ∧
      ∃ o ∈ s.store.get (d.nodeOf call.pointer), s.graph.kind? o = some (.function edge.callee) := by
  constructor
  · rintro ⟨entry, listed, atSite, ⟨place, atPlace, caller⟩, target⟩
    have inside : entry ∈ d.pointers := resolved.indirectCalls ▸ Array.mem_toList_iff.mpr listed
    obtain ⟨i, bound, rfl⟩ := List.mem_mapIdx.mp inside
    have found := List.getElem?_eq_getElem bound
    rw [← atSite, resolved.site_eq found] at atPlace
    cases atPlace
    exact ⟨i, _, found, atSite.symm, caller, target⟩
  · rintro ⟨i, call, found, atSite, caller, target⟩
    refine ⟨⟨d.directCalls.length + i, d.nodeOf call.pointer⟩, ?_, atSite.symm,
      ⟨⟨call.label, call.caller.map d.functionOf⟩, ?_, caller⟩, target⟩
    · obtain ⟨bound, same⟩ := List.getElem?_eq_some_iff.mp found
      rw [← Array.mem_toList_iff, resolved.indirectCalls, pointers, List.mem_mapIdx]
      exact ⟨i, bound, by rw [same]⟩
    · rw [atSite]
      exact resolved.site_eq found

/-- The site of an indirect call has a call if the call does not come to nothing. -/
theorem mem_sites_iff {i : Nat} {call : IndirectCallEntry} (found : d.indirectCalls[i]? = some call) :
    d.directCalls.length + i ∈ r.callGraph.sites ↔ ¬ d.Unresolved s call := by
  rw [not_unresolved_iff]
  constructor
  · intro member
    rw [resolved.sites_eq, List.mem_append, List.mem_range] at member
    obtain ⟨edge, added, same⟩ := List.mem_map.mp (member.resolve_left (by omega))
    obtain ⟨j, call', found', atSite, caller, o, target, function⟩ :=
      resolved.implied_iff.mp (resolved.implied edge added)
    have index : j = i := Nat.add_left_cancel (atSite.symm.trans same)
    subst index
    cases found'.symm.trans found
    obtain ⟨name, known, _⟩ := Option.map_eq_some_iff.mp caller
    exact ⟨⟨name, known⟩, o, target, edge.callee, function⟩
  · rintro ⟨⟨name, known⟩, o, target, f, function⟩
    refine resolved.called ⟨d.directCalls.length + i, d.functionOf name, f⟩ (resolved.implied_iff.mpr ?_)
    exact ⟨i, call, found, rfl, by rw [known]; rfl, o, target, function⟩

theorem countP_unresolved : d.pointers.countP (fun call => call.site ∉ r.callGraph.sites) =
    d.indirectCalls.countP (d.Unresolved s ·) := by
  rw [pointers, List.mapIdx_eq_zipIdx_map, List.countP_map]
  have calls : d.indirectCalls.zipIdx.countP (fun entry => d.Unresolved s entry.1) =
      d.indirectCalls.countP (d.Unresolved s ·) := by
    have first : d.indirectCalls.zipIdx.map (·.1) = d.indirectCalls := List.zipIdx_map_fst ..
    nth_rewrite 2 [← first]
    rw [List.countP_map]
    rfl
  rw [← calls]
  apply List.countP_congr
  intro entry member
  have found := List.mem_zipIdx_iff_getElem?.mp member
  simp only [Function.comp_apply, decide_eq_true_eq]
  rw [resolved.mem_sites_iff found, not_not]

end Description.Resolved

theorem CallGraph.WellFormed.edgesAt_eq_nil {cg : CallGraph} (wf : cg.WellFormed) {site : CallSiteId} :
    cg.edgesAt site = [] ↔ site ∉ cg.sites := by
  simp [wf.edgesAt_eq, CallGraph.sites]

open Solver in
/-- The statistics of a whole run add up. All functions of the description are counted, every direct call with its one
edge, and every indirect call either with its edges or as unresolved; the edges are the direct ones and those that the
resolution has added. -/
theorem callStatistics_add_up {d : Description} {l : Loader} (loaded : d.load = .ok l) (limit : Nat) :
    ∃ s r, (ofGraph l.graph).analyze limit = .ok s ∧ resolveCalls s.graph s.store l.callGraph = .ok r ∧
      let c := CallStatistics.ofGraphs s.graph r.callGraph
      c.functions = d.nodes.countP (·.sort = .function) ∧
      c.directCalls = d.directCalls.length ∧ c.directEdges = d.directCalls.length ∧
      c.indirectCalls + c.unresolvedCalls = d.indirectCalls.length ∧
      c.directEdges + c.indirectEdges = c.edges ∧ c.indirectEdges = r.added ∧
      c.unresolvedCalls = d.indirectCalls.countP (d.Unresolved s ·) ∧
      ∀ i call, d.indirectCalls[i]? = some call →
        (r.callGraph.edgesAt (d.directCalls.length + i) = [] ↔ d.Unresolved s call) := by
  obtain ⟨s, r, new, analyzed, ran, resolved⟩ := d.exists_resolved loaded limit
  have functions : r.callGraph.functions.size = d.nodes.countP (·.sort = .function) := by
    rw [← Array.length_toList, resolved.functions, List.length_range, Description.functionNames, List.length_map,
      List.countP_eq_length_filter]
  have edges : r.callGraph.edges.size = d.directCalls.length + new.length := by
    rw [← Array.length_toList, resolved.edges, List.length_append, Description.callEdges, List.length_mapIdx]
  refine ⟨s, r, analyzed, ran, ?_⟩
  rw [CallStatistics.ofGraphs_eq resolved.built, resolved.indirectCalls]
  refine ⟨functions, resolved.countP_directSites, resolved.countP_direct, resolved.countP_indirectSites, ?_, ?_,
    resolved.countP_unresolved, fun i call found => ?_⟩
  · dsimp only
    rw [resolved.countP_direct, resolved.countP_indirect, edges]
  · exact resolved.countP_indirect.trans resolved.added.symm
  · rw [resolved.built.wellFormed.edgesAt_eq_nil, resolved.mem_sites_iff found, not_not]

/-- Three indirect calls: one may go to two functions, one has no caller, and one goes through a pointer that points to
itself only. -/
def switchboard : Description where
  nodes := [⟨"main", .function⟩, ⟨"p", .value⟩, ⟨"open", .function⟩, ⟨"close", .function⟩, ⟨"q", .object⟩]
  edges := [⟨.addr, "open", "p", none⟩, ⟨.addr, "close", "p", none⟩, ⟨.addr, "q", "q", none⟩]
  directCalls := [⟨"first", "main", "open"⟩]
  indirectCalls := [⟨"second", some "main", "p"⟩, ⟨"third", none, "p"⟩, ⟨"fourth", some "main", "q"⟩]

open Solver in
theorem callStatistics_add_up_switchboard : ∃ l s r, switchboard.load = .ok l ∧ (ofGraph l.graph).analyze 8 = .ok s ∧
    resolveCalls s.graph s.store l.callGraph = .ok r ∧ r.added = 2 ∧
    let c := CallStatistics.ofGraphs s.graph r.callGraph
    c.functions = 3 ∧ c.edges = 3 ∧ c.directCalls = 1 ∧ c.directEdges = 1 ∧ c.indirectCalls = 1 ∧
      c.indirectEdges = 2 ∧ c.unresolvedCalls = 2 := by
  have evaluated : (switchboard.analyzed 8).any fun run =>
      switchboard.indirectCalls.countP (switchboard.Unresolved run.2 ·) = 2 ∧
      (resolveCalls run.2.graph run.2.store run.1.callGraph).toOption.any (·.added = 2) := by decide +kernel
  obtain ⟨l, s, loaded, ran, holds⟩ := Description.of_analyzed evaluated
  obtain ⟨two, resolves⟩ := of_decide_eq_true holds
  obtain ⟨r, resolved, added⟩ := exists_of_any resolves
  obtain ⟨s', r', ran', resolved', functions, directCalls, directEdges, calls, edges, indirectEdges, unresolved, _⟩ :=
    callStatistics_add_up loaded 8
  cases ran.symm.trans ran'
  cases resolved.symm.trans resolved'
  rw [of_decide_eq_true added] at indirectEdges
  rw [directEdges, indirectEdges] at edges
  rw [two] at unresolved
  rw [unresolved] at calls
  exact ⟨l, s, r, loaded, ran, resolved, of_decide_eq_true added, functions, edges.symm, directCalls, directEdges,
    Nat.add_right_cancel calls, indirectEdges, unresolved⟩

end PointsTo
