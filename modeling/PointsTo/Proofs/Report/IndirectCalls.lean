import PointsTo.Proofs.Report.Statistics

namespace PointsTo

namespace CallGraph

theorem mem_foldl_insert {fs : List FuncId} {seen : Std.TreeMap FuncId Unit} {f : FuncId} :
    f ∈ fs.foldl (fun s f => s.insert f ()) seen ↔ f ∈ seen ∨ f ∈ fs := by
  induction fs generalizing seen with
  | nil => simp
  | cons first fs ih =>
    rw [List.foldl_cons, ih, Std.TreeMap.mem_insert, Nat.compare_eq_eq, List.mem_cons, or_assoc, or_left_comm,
      eq_comm]

theorem mem_distinct {fs : List FuncId} {f : FuncId} : f ∈ distinct fs ↔ f ∈ fs := by
  rw [distinct, Std.TreeMap.mem_keys, mem_foldl_insert]
  simp

theorem distinct_ascending (fs : List FuncId) : (distinct fs).Pairwise (· < ·) :=
  Std.TreeMap.ordered_keys.imp Nat.compare_eq_lt.mp

theorem WellFormed.mem_callees {cg : CallGraph} (wf : cg.WellFormed) {site : CallSiteId} {f : FuncId} :
    f ∈ cg.callees site ↔ ∃ edge ∈ cg.edges, edge.site = site ∧ edge.callee = f := by
  simp only [callees, mem_distinct, List.mem_map, wf.mem_edgesAt, and_assoc]

theorem mem_calleesOf {cg : CallGraph} {caller f : FuncId} :
    f ∈ cg.calleesOf caller ↔ ∃ edge ∈ cg.edges, edge.caller = caller ∧ edge.callee = f := by
  simp only [calleesOf, mem_distinct, List.mem_map, List.mem_filter, Array.mem_toList_iff, beq_iff_eq, and_assoc]

end CallGraph

/-- What is reported of an indirect call with the given callees. -/
def IndirectCallEntry.lines (call : IndirectCallEntry) (callees : List String) : String :=
  "\tcallsite: " ++ call.label ++ ", caller: " ++ call.caller.getD "<unknown>" ++ ", fn_ptr: " ++ call.pointer ++
    ", callee:\n" ++ String.join (callees.map fun callee => "\t\t" ++ callee ++ "\n")

theorem Description.site_ne_of_mem_callEdges {d : Description} {edge : CallEdge} (direct : edge ∈ d.callEdges) (i : Nat) :
    edge.site ≠ d.directCalls.length + i :=
  Nat.ne_of_lt (Nat.lt_of_lt_of_le (site_lt_of_mem_callEdges direct) (Nat.le_add_right ..))

namespace Description.Runs
variable {d : Description} {l : Loader} {limit : Nat} {s : Solver} {r : Resolution} {new : List CallEdge}
  (runs : d.Runs l limit s r new)

include runs

theorem mem_new_iff {edge : CallEdge} : edge ∈ new ↔ edge.Implied s.graph s.store := by
  refine ⟨runs.resolved.implied edge, fun implied => ?_⟩
  refine (runs.gains.mem_new_iff fun a atA b atB same => ?_).mpr ⟨mem_allRequests.mpr implied, ?_⟩
  · obtain ⟨i, call, found, atI, callerA, _⟩ := runs.resolved.implied_iff.mp (mem_allRequests.mp atA)
    obtain ⟨j, call', found', atJ, callerB, _⟩ := runs.resolved.implied_iff.mp (mem_allRequests.mp atB)
    have index : i = j := Nat.add_left_cancel (atI.symm.trans (same.trans atJ))
    subst index
    cases found.symm.trans found'
    exact Option.some.inj (callerA.symm.trans callerB)
  · -- a direct call has a site of its own
    rintro ⟨old, listed, site, _⟩
    obtain ⟨i, _, _, atSite, _⟩ := runs.resolved.implied_iff.mp implied
    have direct : old ∈ d.callEdges := runs.represents.program.calls ▸ Array.mem_toList_iff.mpr listed
    exact site_ne_of_mem_callEdges direct i (site.trans atSite)

theorem mem_edges_iff {edge : CallEdge} :
    edge ∈ r.callGraph.edges ↔ edge ∈ d.callEdges ∨ edge.Implied s.graph s.store := by
  rw [← Array.mem_toList_iff, runs.resolved.edges, List.mem_append, runs.mem_new_iff]

/-- The callees at the site of an indirect call are the functions in the set of the pointer, if it has a caller. -/
theorem mem_callees_iff {i : Nat} {call : IndirectCallEntry} (found : d.indirectCalls[i]? = some call) {f : FuncId} :
    f ∈ r.callGraph.callees (d.directCalls.length + i) ↔ call.caller.isSome = true ∧
      ∃ o ∈ s.store.get (d.nodeOf call.pointer), s.graph.kind? o = some (.function f) := by
  rw [runs.gains.filed.mem_callees]
  constructor
  · rintro ⟨edge, listed, site, rfl⟩
    rcases runs.mem_edges_iff.mp listed with direct | implied
    · exact absurd site (site_ne_of_mem_callEdges direct i)
    · obtain ⟨j, call', found', atSite, caller, target⟩ := runs.resolved.implied_iff.mp implied
      have index : j = i := Nat.add_left_cancel (atSite.symm.trans site)
      subst index
      cases found'.symm.trans found
      exact ⟨Option.isSome_map ▸ Option.isSome_of_eq_some caller, target⟩
  · rintro ⟨known, target⟩
    obtain ⟨name, caller⟩ := Option.isSome_iff_exists.mp known
    refine ⟨⟨d.directCalls.length + i, d.functionOf name, f⟩, runs.mem_edges_iff.mpr (Or.inr ?_), rfl, rfl⟩
    exact runs.resolved.implied_iff.mpr ⟨i, call, found, rfl, by rw [caller]; rfl, target⟩

theorem mem_calleesOf_iff {f callee : FuncId} : callee ∈ r.callGraph.calleesOf f ↔
    (∃ call ∈ d.directCalls, d.functionOf call.caller = f ∧ d.functionOf call.callee = callee) ∨
      ∃ call ∈ d.indirectCalls, call.caller.map d.functionOf = some f ∧
        ∃ o ∈ s.store.get (d.nodeOf call.pointer), s.graph.kind? o = some (.function callee) := by
  rw [CallGraph.mem_calleesOf]
  constructor
  · rintro ⟨edge, listed, rfl, rfl⟩
    rcases runs.mem_edges_iff.mp listed with direct | implied
    · obtain ⟨i, bound, rfl⟩ := List.mem_mapIdx.mp direct
      exact Or.inl ⟨_, List.getElem_mem bound, rfl, rfl⟩
    · obtain ⟨i, call, found, _, caller, target⟩ := runs.resolved.implied_iff.mp implied
      exact Or.inr ⟨call, List.mem_of_getElem? found, caller, target⟩
  · rintro (⟨call, listed, rfl, rfl⟩ | ⟨call, listed, caller, target⟩)
    · obtain ⟨i, bound, rfl⟩ := List.mem_iff_getElem.mp listed
      exact ⟨_, runs.mem_edges_iff.mpr (Or.inl (List.mem_mapIdx.mpr ⟨i, bound, rfl⟩)), rfl, rfl⟩
    · obtain ⟨i, found⟩ := List.mem_iff_getElem?.mp listed
      refine ⟨⟨d.directCalls.length + i, f, callee⟩, runs.mem_edges_iff.mpr (Or.inr ?_), rfl, rfl⟩
      exact runs.resolved.implied_iff.mpr ⟨i, call, found, rfl, caller, target⟩

theorem exists_targets (pointer : NodeId) :
    ∃ targets, callTargets s.graph s.store pointer = .ok targets ∧ targets.Pairwise (· < ·) ∧
      ∀ f, f ∈ targets ↔ ∃ o ∈ s.store.get pointer, s.graph.kind? o = some (.function f) :=
  callTargets_ascending (runs.analyzed.stable.facts pointer) runs.analyzed.stable.graph
    (PointeeSet.wellFormed_union (runs.analyzed.tidy pointer) _)

theorem nodeName_eq {name : String} (known : name ∈ d.names) : s.graph.nodeName (d.nodeOf name) = .ok name := by
  obtain ⟨entry, found, same⟩ := exists_nodes_nodeOf known
  rw [Graph.nodeName, Graph.node, runs.analyzed.grown.nodes _ _ (runs.represents.nodes_eq found)]
  exact congrArg Except.ok same

theorem functionName_eq {f : FuncId} (bound : f < d.functionNames.length) :
    s.graph.functionName f = .ok (d.functionNames.getD f "") := by
  have found : s.graph.functions[f]? = some (d.functionFor d.functionNames[f]) := by
    rw [runs.analyzed.grown.functions, ← Array.getElem?_toList]
    have listed := congrArg (·[f]?) runs.represents.program.functions
    simpa [bound] using listed
  rw [Graph.functionName, Graph.functionEntry, found, List.getD_eq_getElem?_getD, List.getElem?_eq_getElem bound]
  rfl

theorem functionName_functionOf {name : String} (function : name ∈ d.functionNames) :
    s.graph.functionName (d.functionOf name) = .ok name := by
  have bound : d.functionOf name < d.functionNames.length := List.idxOf_lt_length_of_mem function
  have found : d.functionNames[d.functionOf name]? = some name := List.getElem?_idxOf function
  rw [runs.functionName_eq bound, List.getD_eq_getElem?_getD, found]
  rfl

theorem target_lt {o : NodeId} {f : FuncId} (function : s.graph.kind? o = some (.function f)) :
    f < d.functionNames.length := by
  rw [← runs.represents.functions_size, ← runs.analyzed.grown.functions]
  exact runs.inRange.graph.functionNumbers o f function

theorem lines_eq {i : Nat} {call : IndirectCallEntry} (found : d.indirectCalls[i]? = some call)
    {targets : List FuncId} (listed : callTargets s.graph s.store (d.nodeOf call.pointer) = .ok targets)
    (inside : ∀ f ∈ targets, f < d.functionNames.length) :
    indirectCallLines s.graph s.store ⟨d.directCalls.length + i, d.nodeOf call.pointer⟩ =
      .ok (call.lines (targets.map (d.functionNames.getD · ""))) := by
  obtain ⟨callers, pointer⟩ := runs.represents.named.indirectCalls call (List.mem_of_getElem? found)
  have site : s.graph.callSite (d.directCalls.length + i) = .ok ⟨call.label, call.caller.map d.functionOf⟩ := by
    rw [Graph.callSite, runs.resolved.site_eq found]
  have names : targets.mapM s.graph.functionName = .ok (targets.map (d.functionNames.getD · "")) :=
    mapM_eq_ok fun f member => runs.functionName_eq (inside f member)
  have rest (caller : String) : (do
      let pointer ← s.graph.nodeName (d.nodeOf call.pointer)
      let callees ← (← callTargets s.graph s.store (d.nodeOf call.pointer)).mapM s.graph.functionName
      return "\tcallsite: " ++ call.label ++ ", caller: " ++ caller ++ ", fn_ptr: " ++ pointer ++ ", callee:\n" ++
        String.join (callees.map fun callee => "\t\t" ++ callee ++ "\n") : Except Fault String) = .ok _ :=
    bind_eq_ok_iff.mpr ⟨_, runs.nodeName_eq pointer,
      bind_eq_ok_iff.mpr ⟨_, listed, bind_eq_ok_iff.mpr ⟨_, names, rfl⟩⟩⟩
  refine bind_eq_ok_iff.mpr ⟨_, site, ?_⟩
  unfold IndirectCallEntry.lines
  cases caller : call.caller with
  | none => exact rest _
  | some name => exact bind_eq_ok_iff.mpr ⟨_, runs.functionName_functionOf (callers name caller), rest name⟩

theorem report_eq {targets : IndirectCallEntry → List FuncId}
    (listed : ∀ call, callTargets s.graph s.store (d.nodeOf call.pointer) = .ok (targets call))
    (inside : ∀ call, ∀ f ∈ targets call, f < d.functionNames.length) :
    indirectCallReport s.graph s.store = .ok ("#Indirect calls:\n" ++ String.join
      (d.indirectCalls.map fun call => call.lines ((targets call).map (d.functionNames.getD · "")))) := by
  have lines : d.pointers.mapM (indirectCallLines s.graph s.store) =
      .ok (d.indirectCalls.map fun call => call.lines ((targets call).map (d.functionNames.getD · ""))) := by
    have calls : d.indirectCalls.zipIdx.map (·.1) = d.indirectCalls := List.zipIdx_map_fst ..
    rw [pointers, List.mapIdx_eq_zipIdx_map, List.mapM_map]
    nth_rewrite 2 [← calls]
    rw [List.map_map]
    apply mapM_eq_ok
    intro entry member
    exact runs.lines_eq (List.mem_zipIdx_iff_getElem?.mp member) (listed entry.1) (inside entry.1)
  rw [indirectCallReport, runs.resolved.indirectCalls, lines]
  rfl

end Description.Runs

open Solver in
/-- The report and the call graph agree on the targets of indirect calls. The report lists the targets of each call in
strictly ascending order, and they are the callees of its site, unless the call has no caller and its site no callee. The
callees of a function are those of its direct calls together with the targets of its indirect calls. -/
theorem indirectCalls_agree {d : Description} {l : Loader} (loaded : d.load = .ok l) (limit : Nat) :
    ∃ s r, ∃ targets : IndirectCallEntry → List FuncId,
      (ofGraph l.graph).analyze limit = .ok s ∧ resolveCalls s.graph s.store l.callGraph = .ok r ∧
      s.graph.indirectCalls.toList = d.pointers ∧
      (∀ call, callTargets s.graph s.store (d.nodeOf call.pointer) = .ok (targets call)) ∧
      (∀ call, (targets call).Pairwise (· < ·)) ∧
      indirectCallReport s.graph s.store = .ok ("#Indirect calls:\n" ++ String.join
        (d.indirectCalls.map fun call => call.lines ((targets call).map (d.functionNames.getD · "")))) ∧
      (∀ i call, d.indirectCalls[i]? = some call →
        r.callGraph.callees (d.directCalls.length + i) = if call.caller.isSome then targets call else []) ∧
      ∀ f callee, callee ∈ r.callGraph.calleesOf f ↔
        (∃ call ∈ d.directCalls, d.functionOf call.caller = f ∧ d.functionOf call.callee = callee) ∨
          ∃ call ∈ d.indirectCalls, call.caller.map d.functionOf = some f ∧ callee ∈ targets call := by
  obtain ⟨s, r, new, runs⟩ := d.exists_runs loaded limit
  choose targets found ascending exactly using runs.exists_targets
  refine ⟨s, r, fun call => targets (d.nodeOf call.pointer), runs.analyzed.run, runs.resolves,
    runs.resolved.indirectCalls, fun _ => found _, fun _ => ascending _,
    runs.report_eq (fun _ => found _) fun call f member => ?_, fun i call atI => ?_, fun f callee => ?_⟩
  · obtain ⟨o, _, function⟩ := (exactly _ f).mp member
    exact runs.target_lt function
  · apply List.Pairwise.eq_of_mem_iff (CallGraph.distinct_ascending _) (r := (· < ·))
    · split
      · exact ascending _
      · exact List.Pairwise.nil
    · intro f
      rw [← CallGraph.callees, runs.mem_callees_iff atI, ← exactly]
      split <;> simp [*]
  · simp only [exactly]
    exact runs.mem_calleesOf_iff

open Solver in
theorem indirectCalls_agree_switchboard : ∃ l s r, switchboard.load = .ok l ∧ (ofGraph l.graph).analyze 8 = .ok s ∧
    resolveCalls s.graph s.store l.callGraph = .ok r ∧
    indirectCallReport s.graph s.store = .ok ("#Indirect calls:\n" ++
      "\tcallsite: second, caller: main, fn_ptr: p, callee:\n\t\topen\n\t\tclose\n" ++
      "\tcallsite: third, caller: <unknown>, fn_ptr: p, callee:\n\t\topen\n\t\tclose\n" ++
      "\tcallsite: fourth, caller: main, fn_ptr: q, callee:\n") ∧
    r.callGraph.callees 1 = [1, 2] ∧ r.callGraph.callees 2 = [] ∧ r.callGraph.callees 3 = [] ∧
    ∀ f, f ∈ r.callGraph.calleesOf 0 ↔ f = 1 ∨ f = 2 := by
  have evaluated : (switchboard.analyzed 8).any fun run =>
      (run.2.store.get 1).toList.mapM run.2.graph.function = .ok [some 1, some 2] ∧
      (run.2.store.get 4).toList.mapM run.2.graph.function = .ok [none] := by decide +kernel
  obtain ⟨l, s, loaded, ran, holds⟩ := Description.of_analyzed evaluated
  obtain ⟨atP, atQ⟩ := of_decide_eq_true holds
  obtain ⟨s', r, targets, ran', resolved, _, found, _, report, callees, calleesOf⟩ := indirectCalls_agree loaded 8
  cases ran.symm.trans ran'
  have pointerP : switchboard.nodeOf "p" = 1 := by decide
  have pointerQ : switchboard.nodeOf "q" = 4 := by decide
  have targetsP (label : String) (caller : Option String) : targets ⟨label, caller, "p"⟩ = [1, 2] := by
    have same := found ⟨label, caller, "p"⟩
    rw [pointerP, callTargets, atP] at same
    exact (Except.ok.inj same).symm.trans (List.mergeSort_eq_self (· ≤ ·) (by decide))
  have targetsQ (label : String) (caller : Option String) : targets ⟨label, caller, "q"⟩ = [] := by
    have same := found ⟨label, caller, "q"⟩
    rw [pointerQ, callTargets, atQ] at same
    exact (Except.ok.inj same).symm.trans (List.mergeSort_eq_self (· ≤ ·) (by decide))
  refine ⟨l, s, r, loaded, ran, resolved, ?_, ?_, ?_, ?_, fun f => ?_⟩
  · rw [report]
    simp only [switchboard, List.map_cons, List.map_nil, targetsP, targetsQ]
    decide +kernel
  · rw [← targetsP "second" (some "main")]
    exact callees 0 _ rfl
  · exact callees 1 _ rfl
  · rw [← targetsQ "fourth" (some "main")]
    exact callees 2 _ rfl
  · have direct : switchboard.directCalls = [⟨"first", "main", "open"⟩] := rfl
    have indirect : switchboard.indirectCalls =
      [⟨"second", some "main", "p"⟩, ⟨"third", none, "p"⟩, ⟨"fourth", some "main", "q"⟩] := rfl
    have main : switchboard.functionOf "main" = 0 := by decide
    have first : switchboard.functionOf "open" = 1 := by decide
    rw [calleesOf, direct, indirect]
    suffices 1 = f → f = 1 ∨ f = 2 by simpa [targetsP, targetsQ, main, first] using this
    exact fun same => Or.inl same.symm

end PointsTo
