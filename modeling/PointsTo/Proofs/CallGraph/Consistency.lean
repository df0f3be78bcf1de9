import Mathlib.Data.Set.Function
import PointsTo.Report.Dot
import PointsTo.Proofs.CallGraph.Growth
import PointsTo.Proofs.FirstOccurrences

namespace PointsTo

/-- What can be done to a call graph. -/
inductive CallOperation
  | function (f : FuncId)
  | edge (site : CallSiteId) (caller callee : FuncId)
  | setType (site : CallSiteId) (type : CallType)
deriving DecidableEq, Repr

namespace CallOperation

def run (cg : CallGraph) : CallOperation → CallGraph
  | function f => cg.addFunction f
  | edge site caller callee => (cg.addEdge site caller callee).1
  | setType site type => cg.setType site type

def mentioned : CallOperation → List FuncId
  | function f => [f]
  | edge _ caller callee => [caller, callee]
  | setType _ _ => []

/-- The call graph after some operations. -/
def callGraph (operations : List CallOperation) : CallGraph := operations.foldl run .empty

/-- The functions that some operations mention, in the order in which they do. -/
def seen (operations : List CallOperation) : List FuncId := operations.flatMap mentioned

theorem callGraph_concat (operations : List CallOperation) (last : CallOperation) :
    callGraph (operations ++ [last]) = last.run (callGraph operations) := by
  rw [callGraph, List.foldl_append]
  rfl

theorem seen_concat (operations : List CallOperation) (last : CallOperation) :
    seen (operations ++ [last]) = seen operations ++ last.mentioned := by
  simp [seen]

theorem built_callGraph (operations : List CallOperation) : (callGraph operations).Built := by
  induction operations using List.reverseRecOn with
  | nil => exact .empty
  | append_singleton operations last ih =>
    rw [callGraph_concat]
    cases last with
    | function f => exact ih.function f
    | edge site caller callee => exact ih.edge site caller callee
    | setType site type => exact ih.type site type

end CallOperation

namespace CallGraph

/-- The calls of a call graph and its tables agree, after the functions `seen` have been mentioned. -/
structure Consistent (cg : CallGraph) (seen : List FuncId) : Prop where
  functions : cg.functions.toList = seen.eraseDups
  known : ∀ f, f ∈ cg.places ↔ f ∈ seen
  numbered : Set.BijOn cg.place {f | f ∈ seen} {place | place < cg.functions.size}
  placed : ∀ f ∈ seen, cg.functions[cg.place f]? = some f
  ends : ∀ edge ∈ cg.edges, edge.caller ∈ seen ∧ edge.callee ∈ seen
  /-- An edge is listed under its own call site and under no other, -/
  filed : ∀ (e : EdgeId) edge, cg.edges[e]? = some edge →
    ∀ site, e ∈ cg.siteEdges.getD site #[] ↔ site = edge.site
  /-- and nothing else is listed, and nothing twice. -/
  listed : ∀ site, ∀ e ∈ cg.siteEdges.getD site #[], e < cg.edges.size
  once : ∀ site, (cg.siteEdges.getD site #[]).toList.Nodup
  distinct : ∀ (e e' : EdgeId) edge edge', cg.edges[e]? = some edge → cg.edges[e']? = some edge' →
    edge.site = edge'.site → edge.callee = edge'.callee → e = e'
  hasEdge : ∀ site callee, cg.hasEdge site callee = true ↔
    ∃ edge ∈ cg.edges, edge.site = site ∧ edge.callee = callee

theorem mem_functions_iff {cg : CallGraph} {seen : List FuncId} (functions : cg.functions.toList = seen.eraseDups)
    (f : FuncId) : f ∈ cg.functions ↔ f ∈ seen := by
  rw [← Array.mem_toList_iff, functions, List.mem_eraseDups]

namespace WellFormed
variable {cg : CallGraph} (wf : cg.WellFormed)

include wf

theorem functions_addFunction {seen : List FuncId} (functions : cg.functions.toList = seen.eraseDups) (f : FuncId) :
    (cg.addFunction f).functions.toList = (seen ++ [f]).eraseDups := by
  have member := mem_functions_iff functions f
  by_cases old : f ∈ cg.functions
  · rw [wf.addFunction_of_mem old, eraseDups_concat_of_mem (member.mp old), functions]
  · rw [wf.addFunction_of_not_mem old, eraseDups_concat_of_not_mem (fun known => old (member.mpr known)),
      Array.toList_push, functions]

theorem functions_mention {seen : List FuncId} (functions : cg.functions.toList = seen.eraseDups)
    (caller callee : FuncId) :
    (cg.mention caller callee).functions.toList = (seen ++ [caller, callee]).eraseDups := by
  rw [List.append_cons]
  exact (wf.addFunction caller).functions_addFunction (wf.functions_addFunction functions caller) callee

theorem place_eq {f : FuncId} {place : Nat} (found : cg.functions[place]? = some f) : cg.place f = place := by
  rw [CallGraph.place, Std.TreeMap.getD_eq_getD_getElem?, (wf.places f place).mpr found, Option.getD_some]

theorem getElem?_place {f : FuncId} (member : f ∈ cg.functions) : cg.functions[cg.place f]? = some f := by
  obtain ⟨place, found⟩ := Array.mem_iff_getElem?.mp member
  rw [wf.place_eq found, found]

/-- The functions and the places up to their number belong together one by one. -/
theorem bijOn_place : Set.BijOn cg.place {f | f ∈ cg.functions} {place | place < cg.functions.size} := by
  refine ⟨fun f member => ?_, fun f member f' member' same => ?_, fun place inside => ?_⟩
  · obtain ⟨bound, _⟩ := Array.getElem?_eq_some_iff.mp (wf.getElem?_place member)
    exact bound
  · have found := wf.getElem?_place member
    rw [same, wf.getElem?_place member'] at found
    exact (Option.some.inj found).symm
  · have bound : place < cg.functions.size := inside
    have found : cg.functions[place]? = some cg.functions[place] := Array.getElem?_eq_getElem bound
    exact ⟨_, Array.mem_iff_getElem?.mpr ⟨place, found⟩, wf.place_eq found⟩

theorem mem_siteEdges_iff {site : CallSiteId} {e : EdgeId} :
    e ∈ cg.siteEdges.getD site #[] ↔ ∃ edge, cg.edges[e]? = some edge ∧ edge.site = site := by
  rw [← Array.mem_toList_iff, wf.filed, numbersAt, List.mem_filter, List.mem_range]
  constructor
  · rintro ⟨_, here⟩
    obtain ⟨edge, found, same⟩ := (Option.any_eq_true _ _).mp here
    exact ⟨edge, found, beq_iff_eq.mp same⟩
  · rintro ⟨edge, found, rfl⟩
    obtain ⟨bound, _⟩ := Array.getElem?_eq_some_iff.mp found
    exact ⟨bound, by simp [found]⟩

/-- The number of a call can be told from its site and its callee. -/
theorem number_eq {e e' : EdgeId} {edge edge' : CallEdge} (found : cg.edges[e]? = some edge)
    (found' : cg.edges[e']? = some edge') (site : edge.site = edge'.site) (callee : edge.callee = edge'.callee) :
    e = e' := by
  obtain ⟨bound, rfl⟩ := Array.getElem?_eq_some_iff.mp found
  obtain ⟨bound', rfl⟩ := Array.getElem?_eq_some_iff.mp found'
  have apart := List.pairwise_iff_getElem.mp wf.distinct
  rcases Nat.lt_trichotomy e e' with before | same | after
  · exact absurd ⟨site, callee⟩ (apart e e' bound bound' before)
  · exact same
  · exact absurd ⟨site.symm, callee.symm⟩ (apart e' e bound' bound after)

theorem consistent {seen : List FuncId} (functions : cg.functions.toList = seen.eraseDups) : cg.Consistent seen := by
  have member := mem_functions_iff functions
  have same : {f | f ∈ cg.functions} = {f | f ∈ seen} := Set.ext member
  refine {
    functions
    known := fun f => ?_
    numbered := same ▸ wf.bijOn_place
    placed := fun f old => wf.getElem?_place ((member f).mpr old)
    ends := fun edge listed => ?_
    filed := fun e edge found site => ?_
    listed := fun site e listed => ?_
    once := fun site => ?_
    distinct := fun _ _ _ _ => wf.number_eq
    hasEdge := fun _ _ => wf.hasEdge_iff }
  · rw [Std.TreeMap.mem_iff_contains, wf.contains_places, member]
  · obtain ⟨caller, callee⟩ := wf.ends edge listed
    exact ⟨(member _).mp caller, (member _).mp callee⟩
  · rw [wf.mem_siteEdges_iff, found]
    constructor
    · rintro ⟨_, same, here⟩
      cases same
      exact here.symm
    · rintro rfl
      exact ⟨edge, rfl, rfl⟩
  · obtain ⟨edge, found, _⟩ := wf.mem_siteEdges_iff.mp listed
    obtain ⟨bound, _⟩ := Array.getElem?_eq_some_iff.mp found
    exact bound
  · rw [wf.filed]
    exact List.nodup_range.filter _

end WellFormed

/-- Where a call is new, it becomes the last one, under its own call site and under no other. -/
structure Appends (cg : CallGraph) (edge : CallEdge) (after : CallGraph) : Prop where
  edges : after.edges = cg.edges.push edge
  sites : ∀ site, after.siteEdges.getD site #[] =
    if site = edge.site then (cg.siteEdges.getD site #[]).push cg.edges.size else cg.siteEdges.getD site #[]
  types : after.types = cg.types

/-- What becomes of a call that is asked for. -/
structure Answers (cg : CallGraph) (seen : List FuncId) (edge : CallEdge) : Prop where
  new : (cg.addEdge edge.site edge.caller edge.callee).2 = true ↔
    ¬ ∃ known ∈ cg.edges, known.site = edge.site ∧ known.callee = edge.callee
  appended : (cg.addEdge edge.site edge.caller edge.callee).2 = true →
    cg.Appends edge (cg.addEdge edge.site edge.caller edge.callee).1
  /-- A call that is refused leaves nothing behind but its caller. -/
  refused : (cg.addEdge edge.site edge.caller edge.callee).2 = false →
    (cg.addEdge edge.site edge.caller edge.callee).1 =
      if edge.caller ∈ seen then cg
      else
        { cg with
          functions := cg.functions.push edge.caller
          places := cg.places.insert edge.caller cg.functions.size }

namespace WellFormed
variable {cg : CallGraph} (wf : cg.WellFormed)

include wf

/-- The callee of a call that is there already has been mentioned. -/
theorem mention_of_known {caller callee : FuncId} (known : callee ∈ cg.functions) :
    cg.mention caller callee = cg.addFunction caller :=
  (wf.addFunction caller).addFunction_of_mem (wf.mem_functions_addFunction.mpr (Or.inl known))

theorem answers {seen : List FuncId} (functions : cg.functions.toList = seen.eraseDups) (edge : CallEdge) :
    cg.Answers seen edge := by
  have member := mem_functions_iff functions edge.caller
  by_cases known : ∃ known ∈ cg.edges, known.site = edge.site ∧ known.callee = edge.callee
  · have outcome : cg.addEdge edge.site edge.caller edge.callee = (cg.mention edge.caller edge.callee, false) :=
      addEdge_of_known wf known
    constructor
    · simp [outcome, known]
    · simp [outcome]
    · intro _
      obtain ⟨other, listed, _, same⟩ := known
      rw [outcome, wf.mention_of_known (same ▸ (wf.ends other listed).2)]
      split
      · rename_i old
        exact wf.addFunction_of_mem (member.mpr old)
      · rename_i new
        exact wf.addFunction_of_not_mem fun known => new (member.mp known)
  · have outcome : cg.addEdge edge.site edge.caller edge.callee =
        ((cg.mention edge.caller edge.callee).append edge, true) := addEdge_of_new wf known
    constructor
    · simp [outcome, known]
    · intro _
      rw [outcome]
      refine ⟨?_, fun site => ?_, types_mention ..⟩
      · rw [CallGraph.append, edges_mention]
      · rw [siteEdges_append, siteEdges_mention, edges_mention]
    · simp [outcome]

end WellFormed

end CallGraph

namespace CallOperation

theorem functions_callGraph (operations : List CallOperation) :
    (callGraph operations).functions.toList = (seen operations).eraseDups := by
  induction operations using List.reverseRecOn with
  | nil => rfl
  | append_singleton operations last ih =>
    have wf := (built_callGraph operations).wellFormed
    rw [callGraph_concat, seen_concat]
    cases last with
    | function f => exact wf.functions_addFunction ih f
    | edge site caller callee =>
      rw [run, CallGraph.functions_addEdge]
      exact wf.functions_mention ih caller callee
    | setType site type =>
      rw [mentioned, List.append_nil]
      exact ih

/-- After any operations the functions that were mentioned and the numbers below their count belong together one by one,
every call stands under its own call site alone, and no two calls share a site and a callee. The next call is accepted
if there is none with its site and callee, and is then appended; otherwise it is refused, and nothing changes but that
a caller which was not mentioned before is numbered. -/
theorem callGraph_consistent (operations : List CallOperation) :
    (callGraph operations).Consistent (seen operations) ∧
      ∀ edge, (callGraph operations).Answers (seen operations) edge := by
  have wf := (built_callGraph operations).wellFormed
  have functions := functions_callGraph operations
  exact ⟨wf.consistent functions, wf.answers functions⟩

-- the site calls the function already, on behalf of another caller
example : let cg := callGraph [.edge 0 0 1, .setType 0 .indirect]
    (cg.addEdge 0 2 1).2 = false ∧ (cg.addEdge 0 2 1).1.functions = #[0, 1, 2] ∧
      (cg.addEdge 0 2 1).1.edges = cg.edges := by decide +kernel

end CallOperation

end PointsTo
