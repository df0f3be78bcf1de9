import PointsTo.Proofs.CallTargets
import PointsTo.Proofs.Results
import PointsTo.Proofs.CallGraph.Growth

namespace PointsTo

namespace Resolution

/-- The calls that a call through a pointer asks for, in the order of the walk through its targets. -/
def requests (g : Graph) (store : DiffStore) (call : IndirectCall) : List CallEdge :=
  match (g.callSites[call.site]?).bind (·.caller) with
  | none => []
  | some caller => ((store.get call.pointer).toList.filterMap g.functionOf?).map (⟨call.site, caller, ·⟩)

/-- What a resolution has made of the call graph, with the number of calls added. -/
def state (r : Resolution) : CallGraph × Nat := (r.callGraph, r.added)

/-- Marks the call site of a call as indirect, and asks for its calls. -/
def serve (g : Graph) (store : DiffStore) (s : CallGraph × Nat) (call : IndirectCall) : CallGraph × Nat :=
  (requests g store call).foldl CallGraph.request (s.1.setType call.site .indirect, s.2)

variable {g : Graph} {store : DiffStore}

theorem mem_requests {call : IndirectCall} {edge : CallEdge} :
    edge ∈ requests g store call ↔ call.site = edge.site ∧
      (∃ site, g.callSites[edge.site]? = some site ∧ site.caller = some edge.caller) ∧
      ∃ o ∈ store.get call.pointer, g.kind? o = some (.function edge.callee) := by
  obtain ⟨site, caller, callee⟩ := edge
  unfold requests
  split
  · rename_i unknown
    refine ⟨nofun, ?_⟩
    rintro ⟨rfl, ⟨entry, found, called⟩, _⟩
    rw [found, Option.bind_some, called] at unknown
    cases unknown
  · rename_i caller' known
    obtain ⟨entry, found, called⟩ := Option.bind_eq_some_iff.mp known
    simp only [List.mem_map, List.mem_filterMap, PointeeSet.mem_toList, Graph.functionOf?_eq_some_iff]
    constructor
    · rintro ⟨f, target, same⟩
      cases same
      exact ⟨rfl, ⟨entry, found, called⟩, target⟩
    · rintro ⟨rfl, ⟨entry', found', called'⟩, target⟩
      cases found.symm.trans found'
      cases called.symm.trans called'
      exact ⟨callee, target, rfl⟩

section targets
variable (site : CallSiteId) (label : String) (caller : FuncId)

theorem addTarget_function {o : NodeId} {callee : FuncId} (function : g.functionOf? o = some callee) (r : Resolution) :
    ∃ t, addTarget g site label caller r o = .ok t ∧ t.state = CallGraph.request r.state ⟨site, caller, callee⟩ := by
  obtain ⟨⟨name, _⟩, found, rfl⟩ := Option.map_eq_some_iff.mp (Graph.functionOf?_eq_some_iff.mp function)
  rw [addTarget, Graph.node, found]
  exact ⟨_, rfl, rfl⟩

theorem addTarget_other {o : NodeId} (bound : o < g.nodes.size) (other : g.functionOf? o = none) (r : Resolution) :
    ∃ t, addTarget g site label caller r o = .ok t ∧ t.state = r.state := by
  have found : g.nodes[o]? = some g.nodes[o] := by simp [bound]
  rw [Graph.functionOf?, found] at other
  rw [addTarget, Graph.node, found]
  cases node : g.nodes[o] with
  | mk name kind =>
    rw [node] at other
    cases kind with
    | function => cases other
    | _ => exact ⟨_, rfl, rfl⟩

theorem addTargets_state {os : List NodeId} (inside : ∀ o ∈ os, o < g.nodes.size) (r : Resolution) :
    ∃ t, os.foldlM (addTarget g site label caller) r = .ok t ∧
      t.state = ((os.filterMap g.functionOf?).map (⟨site, caller, ·⟩)).foldl CallGraph.request r.state := by
  induction os generalizing r with
  | nil => exact ⟨r, rfl, rfl⟩
  | cons o os ih =>
    have rest (o' : NodeId) (member : o' ∈ os) : o' < g.nodes.size := inside o' (List.mem_cons_of_mem o member)
    cases function : g.functionOf? o with
    | none =>
      obtain ⟨m, first, same⟩ :=
        addTarget_other site label caller (inside o List.mem_cons_self) function r
      rw [List.foldlM_cons, first, List.filterMap_cons_none function, ← same]
      exact ih rest m
    | some callee =>
      obtain ⟨m, first, next⟩ := addTarget_function site label caller function r
      rw [List.foldlM_cons, first, List.filterMap_cons_some function, List.map_cons, List.foldl_cons, ← next]
      exact ih rest m

end targets

theorem addCall_state {call : IndirectCall} (bound : call.site < g.callSites.size)
    (inside : ∀ o ∈ store.get call.pointer, o < g.nodes.size) (r : Resolution) :
    ∃ t, addCall g store r call = .ok t ∧ t.state = serve g store r.state call := by
  have found : g.callSites[call.site]? = some g.callSites[call.site] := by simp [bound]
  have entry : g.callSite call.site = .ok g.callSites[call.site] := by rw [Graph.callSite, found]
  unfold serve requests addCall
  dsimp only
  rw [entry, found, Option.bind_some]
  cases g.callSites[call.site] with
  | mk label caller =>
    cases caller with
    | none => exact ⟨_, rfl, rfl⟩
    | some caller =>
      have targets := addTargets_state call.site label caller
        (fun o member => inside o (PointeeSet.mem_toList.mp member))
        { r with callGraph := r.callGraph.setType call.site .indirect }
      change ∃ t, (if (store.get call.pointer).isEmpty then Except.ok _ else _) = .ok t ∧ _
      split
      · rename_i vacant
        have none : (store.get call.pointer).toList = [] :=
          List.eq_nil_iff_forall_not_mem.mpr fun o member =>
            PointeeSet.isEmpty_iff.mp vacant o (PointeeSet.mem_toList.mp member)
        rw [none]
        exact ⟨_, rfl, rfl⟩
      · exact targets

theorem type?_serve (s : CallGraph × Nat) (call : IndirectCall) (site : CallSiteId) :
    (serve g store s call).1.type? site = if call.site = site then some .indirect else s.1.type? site := by
  rw [CallGraph.type?, serve, CallGraph.types_requestAll, CallGraph.setType, Std.TreeMap.getElem?_insert,
    CallGraph.type?]
  simp only [Nat.compare_eq_eq]

variable (g store) in
theorem type?_serveAll (calls : List IndirectCall) (s : CallGraph × Nat) (site : CallSiteId) :
    (calls.foldl (serve g store) s).1.type? site =
      if site ∈ calls.map (·.site) then some .indirect else s.1.type? site := by
  induction calls generalizing s with
  | nil => rfl
  | cons call calls ih =>
    rw [List.foldl_cons, ih, type?_serve, List.map_cons]
    by_cases here : call.site = site
    · simp [here]
    · simp [here, Ne.symm here]

variable (g store) in
theorem progress_serveAll {cg : CallGraph} {asked : List CallEdge} {s : CallGraph × Nat}
    (progress : cg.Progress asked s) (calls : List IndirectCall) :
    cg.Progress (asked ++ calls.flatMap (requests g store)) (calls.foldl (serve g store) s) := by
  induction calls generalizing asked s with
  | nil => rwa [List.flatMap_nil, List.append_nil]
  | cons call calls ih =>
    obtain ⟨new, gains, count⟩ := progress
    have typed : cg.Progress asked (s.1.setType call.site .indirect, s.2) := ⟨new, gains.setType .., count⟩
    rw [List.flatMap_cons, ← List.append_assoc]
    exact ih (typed.requestAll (requests g store call))

theorem serveAll_eq {calls : List IndirectCall} {s : CallGraph × Nat}
    (typed : ∀ call ∈ calls, s.1.type? call.site = some .indirect)
    (known : ∀ call ∈ calls, ∀ edge ∈ requests g store call,
      s.1.addEdge edge.site edge.caller edge.callee = (s.1, false)) : calls.foldl (serve g store) s = s := by
  induction calls with
  | nil => rfl
  | cons call calls ih =>
    have first : serve g store s call = s := by
      rw [serve, CallGraph.setType_of_type (typed call List.mem_cons_self)]
      exact CallGraph.requestAll_eq (known call List.mem_cons_self)
    rw [List.foldl_cons, first]
    exact ih (fun other member => typed other (List.mem_cons_of_mem call member))
      fun other member => known other (List.mem_cons_of_mem call member)

end Resolution

/-- The table of indirect calls implies the call: it has an entry for the call site, which knows its caller, and the
points-to set of the pointer holds the function. -/
def CallEdge.Implied (edge : CallEdge) (g : Graph) (store : DiffStore) : Prop :=
  ∃ call ∈ g.indirectCalls, call.site = edge.site ∧
    (∃ site, g.callSites[edge.site]? = some site ∧ site.caller = some edge.caller) ∧
    ∃ o ∈ store.get call.pointer, g.kind? o = some (.function edge.callee)

open Resolution

section resolve
variable {g : Graph} {store : DiffStore} (sites : ∀ call ∈ g.indirectCalls, call.site < g.callSites.size)
  (facts : ∀ k, ∀ o ∈ store.get k, o < g.nodes.size)

theorem mem_allRequests {edge : CallEdge} :
    edge ∈ g.indirectCalls.toList.flatMap (requests g store) ↔ edge.Implied g store := by
  simp only [List.mem_flatMap, Array.mem_toList_iff, mem_requests, CallEdge.Implied]

include sites facts

theorem resolveCalls_state (cg : CallGraph) :
    ∃ r, resolveCalls g store cg = .ok r ∧ r.state = g.indirectCalls.toList.foldl (serve g store) (cg, 0) := by
  obtain ⟨r, run, state⟩ : ∃ r, g.indirectCalls.toList.foldlM (addCall g store) (.ofCallGraph cg) = .ok r ∧
      r.state = g.indirectCalls.toList.foldl (serve g store) (cg, 0) :=
    foldlM_view fun call member r =>
      addCall_state (sites call (Array.mem_toList_iff.mp member)) (facts call.pointer) r
  exact ⟨_, bind_eq_ok_iff.mpr ⟨r, run, rfl⟩, state⟩

/-- What a resolution leaves behind. -/
theorem resolveCalls_gains {cg : CallGraph} (built : cg.Built) :
    ∃ r new, resolveCalls g store cg = .ok r ∧
      cg.Gains (g.indirectCalls.toList.flatMap (requests g store)) new r.callGraph ∧ r.added = new.length ∧
      ∀ site, r.callGraph.type? site =
        if site ∈ g.indirectCalls.toList.map (·.site) then some .indirect else cg.type? site := by
  obtain ⟨r, run, state⟩ := resolveCalls_state sites facts cg
  have start : cg.Progress [] (cg, 0) := ⟨[], built.gains, rfl⟩
  obtain ⟨new, gains, count⟩ := progress_serveAll g store start g.indirectCalls.toList
  rw [← state] at gains count
  refine ⟨r, new, run, gains, count, fun site => ?_⟩
  have types := type?_serveAll g store g.indirectCalls.toList (cg, 0) site
  rwa [← state] at types

theorem resolveCalls_again {cg after : CallGraph} {new : List CallEdge}
    (gains : cg.Gains (g.indirectCalls.toList.flatMap (requests g store)) new after)
    (typed : ∀ call ∈ g.indirectCalls, after.type? call.site = some .indirect) :
    ∃ r, resolveCalls g store after = .ok r ∧ r.added = 0 ∧ r.callGraph = after := by
  obtain ⟨r, run, state⟩ := resolveCalls_state sites facts after
  have same : g.indirectCalls.toList.foldl (serve g store) (after, 0) = (after, 0) := by
    apply serveAll_eq
    · intro call member
      exact typed call (Array.mem_toList_iff.mp member)
    · intro call member edge request
      exact gains.addEdge_eq (List.mem_flatMap.mpr ⟨call, member, request⟩)
  rw [same] at state
  exact ⟨r, run, congrArg Prod.snd state, congrArg Prod.fst state⟩

end resolve

/-- The resolution keeps all calls and appends each implied call whose site does not call the function yet, once; it
counts them, and marks the call sites of the table as indirect and no others. A second resolution adds nothing and
leaves the call graph as it is. -/
theorem resolveCalls_adds_implied {g : Graph} {store : DiffStore} {cg : CallGraph}
    (sites : ∀ call ∈ g.indirectCalls, call.site < g.callSites.size)
    (facts : ∀ k, ∀ o ∈ store.get k, o < g.nodes.size) (built : cg.Built) :
    ∃ r new, resolveCalls g store cg = .ok r ∧ r.callGraph.WellFormed ∧
      cg.functions.toList <+: r.callGraph.functions.toList ∧
      r.callGraph.edges.toList = cg.edges.toList ++ new ∧
      (new.map fun edge => (edge.site, edge.callee)).Nodup ∧
      (∀ edge, edge ∈ new ↔ edge.Implied g store ∧
        ¬ ∃ old ∈ cg.edges, old.site = edge.site ∧ old.callee = edge.callee) ∧
      r.added = new.length ∧
      (∀ site, r.callGraph.type? site =
        if site ∈ g.indirectCalls.toList.map (·.site) then some .indirect else cg.type? site) ∧
      ∃ again, resolveCalls g store r.callGraph = .ok again ∧ again.added = 0 ∧ again.callGraph = r.callGraph := by
  obtain ⟨r, new, run, gains, count, types⟩ := resolveCalls_gains sites facts built
  have typed (call : IndirectCall) (member : call ∈ g.indirectCalls) :
      r.callGraph.type? call.site = some .indirect := by
    rw [types, if_pos (List.mem_map_of_mem (Array.mem_toList_iff.mpr member))]
  have distinct : (new.map fun edge => (edge.site, edge.callee)).Nodup := by
    rw [List.Nodup, List.pairwise_map]
    refine gains.distinct.1.imp fun apart same => ?_
    exact apart ⟨congrArg Prod.fst same, congrArg Prod.snd same⟩
  -- the table of call sites gives every call at a site the same caller
  have callers (a : CallEdge) (atA : a ∈ g.indirectCalls.toList.flatMap (requests g store)) (b : CallEdge)
      (atB : b ∈ g.indirectCalls.toList.flatMap (requests g store)) (same : a.site = b.site) :
      a.caller = b.caller := by
    obtain ⟨_, _, _, ⟨siteA, foundA, callerA⟩, _⟩ := mem_allRequests.mp atA
    obtain ⟨_, _, _, ⟨siteB, foundB, callerB⟩, _⟩ := mem_allRequests.mp atB
    rw [same, foundB] at foundA
    cases foundA
    exact Option.some.inj (callerA.symm.trans callerB)
  refine ⟨r, new, run, gains.filed, gains.functions, gains.edges, distinct, fun edge => ?_, count, types,
    resolveCalls_again sites facts gains typed⟩
  rw [gains.mem_new_iff callers, mem_allRequests]

/-- Two functions are called through two pointers. One call site stands in the table twice, one has a direct call
already, and one has no caller. -/
def Graph.sharedSites : Graph :=
  { Graph.empty with
    nodes := #[⟨"main", .function 0⟩, ⟨"open", .function 1⟩, ⟨"close", .function 2⟩, ⟨"p", .value⟩, ⟨"q", .value⟩]
    functions := #[⟨"main", 0⟩, ⟨"open", 1⟩, ⟨"close", 2⟩]
    callSites := #[⟨"first", some 0⟩, ⟨"second", some 0⟩, ⟨"third", none⟩]
    indirectCalls := #[⟨1, 3⟩, ⟨1, 4⟩, ⟨0, 3⟩, ⟨2, 3⟩] }

/-- The pointer `p` may point to both functions, and `q` to itself and to the second one. -/
def DiffStore.sharedTargets : DiffStore :=
  [(3, 1), (3, 2), (4, 4), (4, 2)].foldl (fun store fact => (store.add fact.1 fact.2).1) .empty

theorem DiffStore.sharedTargets_lt (k : NodeId) (o : Nat) (member : o ∈ sharedTargets.get k) : o < 5 := by
  simp only [sharedTargets, List.foldl_cons, List.foldl_nil, mem_get_add, not_mem_get_empty, false_or] at member
  omega

theorem resolveCalls_adds_implied_sharedSites :
    let cg := (CallGraph.empty.addEdge 0 0 1).1
    ∃ r, resolveCalls .sharedSites .sharedTargets cg = .ok r ∧
      r.callGraph.edges.toList = cg.edges.toList ++ [⟨1, 0, 1⟩, ⟨1, 0, 2⟩, ⟨0, 0, 2⟩] ∧ r.added = 3 ∧
      (∀ edge, edge ∈ [⟨1, 0, 1⟩, ⟨1, 0, 2⟩, (⟨0, 0, 2⟩ : CallEdge)] ↔ edge.Implied .sharedSites .sharedTargets ∧
        ¬ ∃ old ∈ cg.edges, old.site = edge.site ∧ old.callee = edge.callee) ∧
      r.callGraph.type? 2 = some .indirect ∧
      ∃ again, resolveCalls .sharedSites .sharedTargets r.callGraph = .ok again ∧ again.added = 0 ∧
        again.callGraph = r.callGraph := by
  intro cg
  obtain ⟨r, new, run, _, _, edges, _, implied, count, types, again⟩ :=
    resolveCalls_adds_implied (g := .sharedSites) (by decide) DiffStore.sharedTargets_lt
      (CallGraph.Built.empty.edge 0 0 1)
  have evaluated : (resolveCalls .sharedSites .sharedTargets cg).toOption.any fun r =>
      r.callGraph.edges.toList = [⟨0, 0, 1⟩, ⟨1, 0, 1⟩, ⟨1, 0, 2⟩, ⟨0, 0, 2⟩] := by decide +kernel
  obtain ⟨r', run', holds⟩ := exists_of_any evaluated
  cases run.symm.trans run'
  have same : new = [⟨1, 0, 1⟩, ⟨1, 0, 2⟩, ⟨0, 0, 2⟩] :=
    List.append_cancel_left (edges.symm.trans (of_decide_eq_true holds))
  subst same
  exact ⟨r, run, edges, count, implied, types 2, again⟩

end PointsTo
