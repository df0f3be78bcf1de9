import PointsTo.CallGraph
import PointsTo.Proofs.Entries

namespace PointsTo.CallGraph

/-- The numbers of the edges of a call site, ascending. -/
def numbersAt (cg : CallGraph) (site : CallSiteId) : List EdgeId :=
  (List.range cg.edges.size).filter fun e => (cg.edges[e]?).any (·.site == site)

structure WellFormed (cg : CallGraph) : Prop where
  places : ∀ (f : FuncId) (place : Nat), cg.places[f]? = some place ↔ cg.functions[place]? = some f
  ends : ∀ edge ∈ cg.edges, edge.caller ∈ cg.functions ∧ edge.callee ∈ cg.functions
  filed : ∀ site, (cg.siteEdges.getD site #[]).toList = cg.numbersAt site
  distinct : cg.edges.toList.Pairwise fun a b => ¬ (a.site = b.site ∧ a.callee = b.callee)

theorem wellFormed_empty : empty.WellFormed where
  places f place := by simp [empty]
  ends edge member := by simp [empty] at member
  filed site := by simp [empty, numbersAt]
  distinct := by simp [empty]

theorem WellFormed.setType {cg : CallGraph} (wf : cg.WellFormed) (site : CallSiteId) (type : CallType) :
    (cg.setType site type).WellFormed :=
  ⟨wf.places, wf.ends, wf.filed, wf.distinct⟩

/-- Looking up all the places of a list gives the list. -/
theorem filterMap_getElem?_range {α : Type} (xs : List α) : (List.range xs.length).filterMap (xs[·]?) = xs := by
  induction xs with
  | nil => rfl
  | cons x xs ih =>
    rw [List.length_cons, List.range_succ_eq_map, List.filterMap_cons_some (f := ((x :: xs)[·]?)) (a := 0) rfl,
      List.filterMap_map]
    exact congrArg (x :: ·) ih

theorem filterMap_edges (cg : CallGraph) :
    (List.range cg.edges.size).filterMap (cg.edges[·]?) = cg.edges.toList := by
  simpa using filterMap_getElem?_range cg.edges.toList

theorem WellFormed.edgesAt_eq {cg : CallGraph} (wf : cg.WellFormed) (site : CallSiteId) :
    cg.edgesAt site = cg.edges.toList.filter (·.site == site) := by
  rw [edgesAt, wf.filed, numbersAt, ← filterMap_edges, List.filterMap_filter, List.filter_filterMap]
  congr 1
  funext e
  cases cg.edges[e]? with
  | none => rfl
  | some edge => by_cases here : edge.site == site <;> simp [here, Option.filter]

theorem WellFormed.mem_edgesAt {cg : CallGraph} (wf : cg.WellFormed) {site : CallSiteId} {edge : CallEdge} :
    edge ∈ cg.edgesAt site ↔ edge ∈ cg.edges ∧ edge.site = site := by
  rw [wf.edgesAt_eq, List.mem_filter, Array.mem_toList_iff, beq_iff_eq]

theorem WellFormed.hasEdge_iff {cg : CallGraph} (wf : cg.WellFormed) {site : CallSiteId} {callee : FuncId} :
    cg.hasEdge site callee = true ↔ ∃ edge ∈ cg.edges, edge.site = site ∧ edge.callee = callee := by
  simp only [hasEdge, List.any_eq_true, wf.mem_edgesAt, beq_iff_eq, and_assoc]

theorem WellFormed.contains_places {cg : CallGraph} (wf : cg.WellFormed) {f : FuncId} :
    cg.places.contains f = true ↔ f ∈ cg.functions := by
  rw [Std.TreeMap.contains_eq_isSome_getElem?, Option.isSome_iff_exists, Array.mem_iff_getElem?]
  exact exists_congr fun place => wf.places f place

theorem WellFormed.addFunction_of_mem {cg : CallGraph} (wf : cg.WellFormed) {f : FuncId} (old : f ∈ cg.functions) :
    cg.addFunction f = cg := by
  rw [CallGraph.addFunction, if_pos (wf.contains_places.mpr old)]

theorem WellFormed.addFunction_of_not_mem {cg : CallGraph} (wf : cg.WellFormed) {f : FuncId}
    (new : f ∉ cg.functions) : cg.addFunction f =
      { cg with functions := cg.functions.push f, places := cg.places.insert f cg.functions.size } := by
  rw [CallGraph.addFunction, if_neg (fun known => new (wf.contains_places.mp known))]

theorem WellFormed.addFunction {cg : CallGraph} (wf : cg.WellFormed) (f : FuncId) : (cg.addFunction f).WellFormed := by
  by_cases old : f ∈ cg.functions
  · rw [wf.addFunction_of_mem old]
    exact wf
  · rw [wf.addFunction_of_not_mem old]
    refine ⟨fun f' place => ?_, fun edge member => ?_, wf.filed, wf.distinct⟩
    · change (cg.places.insert f cg.functions.size)[f']? = some place ↔ (cg.functions.push f)[place]? = some f'
      rw [Std.TreeMap.getElem?_insert, Array.getElem?_push]
      have fresh (place : Nat) : cg.functions[place]? ≠ some f :=
        fun found => old (Array.mem_iff_getElem?.mpr ⟨place, found⟩)
      have inside {place : Nat} (found : cg.functions[place]? = some f') : place ≠ cg.functions.size := by
        rintro rfl
        simp at found
      by_cases same : f = f'
      · subst same
        rw [if_pos (Nat.compare_eq_eq.mpr rfl)]
        split
        · rename_i last
          simp [last]
        · rename_i other
          simp [fresh place, Ne.symm other]
      · rw [if_neg (fun equal => same (Nat.compare_eq_eq.mp equal)), wf.places]
        split
        · rename_i last
          simp [last, same]
        · rfl
    · obtain ⟨caller, callee⟩ := wf.ends edge member
      exact ⟨Array.mem_push_of_mem f caller, Array.mem_push_of_mem f callee⟩

theorem WellFormed.mem_functions_addFunction {cg : CallGraph} (wf : cg.WellFormed) {f f' : FuncId} :
    f' ∈ (cg.addFunction f).functions ↔ f' ∈ cg.functions ∨ f' = f := by
  by_cases old : f ∈ cg.functions
  · rw [wf.addFunction_of_mem old]
    exact ⟨Or.inl, fun known => known.elim id fun same => same ▸ old⟩
  · rw [wf.addFunction_of_not_mem old]
    exact Array.mem_push

@[simp] theorem edges_addFunction (cg : CallGraph) (f : FuncId) : (cg.addFunction f).edges = cg.edges := by
  unfold addFunction
  split <;> rfl

@[simp] theorem types_addFunction (cg : CallGraph) (f : FuncId) : (cg.addFunction f).types = cg.types := by
  unfold addFunction
  split <;> rfl

/-- Enters an edge under its call site. -/
def append (cg : CallGraph) (edge : CallEdge) : CallGraph :=
  { cg with
    edges := cg.edges.push edge
    siteEdges := cg.siteEdges.alter edge.site fun es => some ((es.getD #[]).push cg.edges.size) }

theorem siteEdges_append (cg : CallGraph) (edge : CallEdge) (site : CallSiteId) :
    (cg.append edge).siteEdges.getD site #[] =
      if site = edge.site then (cg.siteEdges.getD site #[]).push cg.edges.size else cg.siteEdges.getD site #[] :=
  getD_alter_push ..

theorem numbersAt_append (cg : CallGraph) (edge : CallEdge) (site : CallSiteId) :
    (cg.append edge).numbersAt site = cg.numbersAt site ++ if edge.site = site then [cg.edges.size] else [] := by
  have last : [cg.edges.size].filter (fun e => ((cg.edges.push edge)[e]?).any (·.site == site)) =
      if edge.site = site then [cg.edges.size] else [] := by
    by_cases here : edge.site = site <;> simp [here]
  rw [numbersAt, numbersAt, append, Array.size_push, List.range_succ, List.filter_append, last]
  congr 1
  apply List.filter_congr
  intro e member
  rw [Array.getElem?_push, if_neg (Nat.ne_of_lt (List.mem_range.mp member))]

theorem WellFormed.append {cg : CallGraph} (wf : cg.WellFormed) {edge : CallEdge}
    (ends : edge.caller ∈ cg.functions ∧ edge.callee ∈ cg.functions)
    (new : ∀ known ∈ cg.edges, ¬ (known.site = edge.site ∧ known.callee = edge.callee)) :
    (cg.append edge).WellFormed where
  places := wf.places
  ends known member := by
    rcases Array.mem_push.mp member with old | rfl
    · exact wf.ends known old
    · exact ends
  filed site := by
    rw [numbersAt_append, ← wf.filed, siteEdges_append]
    by_cases here : site = edge.site
    · rw [if_pos here, if_pos here.symm, Array.toList_push]
    · rw [if_neg here, if_neg (Ne.symm here), List.append_nil]
  distinct := by
    rw [CallGraph.append, Array.toList_push, List.pairwise_append]
    refine ⟨wf.distinct, List.pairwise_singleton .., ?_⟩
    intro known old last same
    rw [List.mem_singleton.mp same]
    exact new known (Array.mem_toList_iff.mp old)

/-- Both functions of a call count as mentioned. -/
def mention (cg : CallGraph) (caller callee : FuncId) : CallGraph := (cg.addFunction caller).addFunction callee

theorem WellFormed.mention {cg : CallGraph} (wf : cg.WellFormed) (caller callee : FuncId) :
    (cg.mention caller callee).WellFormed :=
  (wf.addFunction caller).addFunction callee

theorem WellFormed.mem_functions_mention {cg : CallGraph} (wf : cg.WellFormed) {caller callee f : FuncId} :
    f ∈ (cg.mention caller callee).functions ↔ f ∈ cg.functions ∨ f = caller ∨ f = callee := by
  rw [CallGraph.mention, (wf.addFunction caller).mem_functions_addFunction, wf.mem_functions_addFunction, or_assoc]

theorem WellFormed.mention_of_mem {cg : CallGraph} (wf : cg.WellFormed) {caller callee : FuncId}
    (known : caller ∈ cg.functions ∧ callee ∈ cg.functions) : cg.mention caller callee = cg := by
  rw [CallGraph.mention, wf.addFunction_of_mem known.1, wf.addFunction_of_mem known.2]

@[simp] theorem edges_mention (cg : CallGraph) (caller callee : FuncId) :
    (cg.mention caller callee).edges = cg.edges := by
  simp [mention]

@[simp] theorem types_mention (cg : CallGraph) (caller callee : FuncId) :
    (cg.mention caller callee).types = cg.types := by
  simp [mention]

theorem addEdge_of_known {cg : CallGraph} (wf : cg.WellFormed) {site : CallSiteId} {caller callee : FuncId}
    (known : ∃ edge ∈ cg.edges, edge.site = site ∧ edge.callee = callee) :
    cg.addEdge site caller callee = (cg.mention caller callee, false) := by
  rw [← edges_mention cg caller callee, ← (wf.mention caller callee).hasEdge_iff] at known
  exact if_pos known

theorem addEdge_of_new {cg : CallGraph} (wf : cg.WellFormed) {site : CallSiteId} {caller callee : FuncId}
    (new : ¬ ∃ edge ∈ cg.edges, edge.site = site ∧ edge.callee = callee) :
    cg.addEdge site caller callee = ((cg.mention caller callee).append ⟨site, caller, callee⟩, true) := by
  rw [← edges_mention cg caller callee, ← (wf.mention caller callee).hasEdge_iff] at new
  exact if_neg new

theorem WellFormed.addEdge {cg : CallGraph} (wf : cg.WellFormed) (site : CallSiteId) (caller callee : FuncId) :
    (cg.addEdge site caller callee).1.WellFormed := by
  have mentioned := wf.mention caller callee
  by_cases known : ∃ edge ∈ cg.edges, edge.site = site ∧ edge.callee = callee
  · rw [addEdge_of_known wf known]
    exact mentioned
  · rw [addEdge_of_new wf known]
    apply mentioned.append
    · constructor
      · exact wf.mem_functions_mention.mpr (Or.inr (Or.inl rfl))
      · exact wf.mem_functions_mention.mpr (Or.inr (Or.inr rfl))
    · intro edge member same
      rw [edges_mention] at member
      exact known ⟨edge, member, same⟩

end PointsTo.CallGraph
