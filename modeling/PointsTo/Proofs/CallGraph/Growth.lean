import PointsTo.Proofs.CallGraph.Tables

namespace PointsTo

namespace CallGraph

/-- The call graphs that the operations on call graphs build. -/
inductive Built : CallGraph → Prop
  | empty : Built empty
  | function {cg : CallGraph} (f : FuncId) : Built cg → Built (cg.addFunction f)
  | edge {cg : CallGraph} (site : CallSiteId) (caller callee : FuncId) :
      Built cg → Built (cg.addEdge site caller callee).1
  | type {cg : CallGraph} (site : CallSiteId) (type : CallType) : Built cg → Built (cg.setType site type)

theorem Built.wellFormed {cg : CallGraph} (built : cg.Built) : cg.WellFormed := by
  induction built with
  | empty => exact wellFormed_empty
  | function f _ wf => exact wf.addFunction f
  | edge site caller callee _ wf => exact wf.addEdge site caller callee
  | type site type _ wf => exact wf.setType site type

@[simp] theorem siteEdges_addFunction (cg : CallGraph) (f : FuncId) :
    (cg.addFunction f).siteEdges = cg.siteEdges := by
  unfold addFunction
  split <;> rfl

@[simp] theorem siteEdges_mention (cg : CallGraph) (caller callee : FuncId) :
    (cg.mention caller callee).siteEdges = cg.siteEdges := by
  simp [mention]

/-- The call sites with a call, and no others, have an entry. -/
theorem Built.mem_siteEdges {cg : CallGraph} (built : cg.Built) {site : CallSiteId} :
    site ∈ cg.siteEdges ↔ ∃ edge ∈ cg.edges, edge.site = site := by
  induction built with
  | empty => simp [CallGraph.empty]
  | function f _ ih =>
    rw [siteEdges_addFunction, edges_addFunction]
    exact ih
  | @edge cg place caller callee built ih =>
    by_cases known : ∃ edge ∈ cg.edges, edge.site = place ∧ edge.callee = callee
    · rw [addEdge_of_known built.wellFormed known, siteEdges_mention, edges_mention]
      exact ih
    · rw [addEdge_of_new built.wellFormed known]
      simp only [append, siteEdges_mention, edges_mention, Std.TreeMap.mem_alter, Array.mem_push, or_and_right,
        exists_or, exists_eq_left, ← ih]
      by_cases here : place = site <;> simp [here]
  | type _ _ _ ih => exact ih

theorem functions_prefix_addFunction (cg : CallGraph) (f : FuncId) :
    cg.functions.toList <+: (cg.addFunction f).functions.toList := by
  unfold addFunction
  split
  · exact List.prefix_refl _
  · rw [Array.toList_push]
    exact List.prefix_append ..

theorem functions_prefix_mention (cg : CallGraph) (caller callee : FuncId) :
    cg.functions.toList <+: (cg.mention caller callee).functions.toList :=
  (functions_prefix_addFunction cg caller).trans (functions_prefix_addFunction ..)

theorem functions_addEdge (cg : CallGraph) (site : CallSiteId) (caller callee : FuncId) :
    (cg.addEdge site caller callee).1.functions = (cg.mention caller callee).functions := by
  unfold addEdge
  dsimp only
  split <;> rfl

@[simp] theorem types_addEdge (cg : CallGraph) (site : CallSiteId) (caller callee : FuncId) :
    (cg.addEdge site caller callee).1.types = cg.types := by
  rw [← types_mention cg caller callee]
  unfold addEdge
  dsimp only
  split <;> rfl

theorem edges_addEdge (cg : CallGraph) (site : CallSiteId) (caller callee : FuncId) :
    (cg.addEdge site caller callee).1.edges.toList =
      cg.edges.toList ++ if (cg.addEdge site caller callee).2 then [⟨site, caller, callee⟩] else [] := by
  unfold addEdge
  dsimp only
  split <;> simp

theorem WellFormed.exists_edge_addEdge {cg : CallGraph} (wf : cg.WellFormed) (site : CallSiteId)
    (caller callee : FuncId) :
    ∃ edge ∈ (cg.addEdge site caller callee).1.edges, edge.site = site ∧ edge.callee = callee := by
  by_cases known : ∃ edge ∈ cg.edges, edge.site = site ∧ edge.callee = callee
  · rw [addEdge_of_known wf known, edges_mention]
    exact known
  · rw [addEdge_of_new wf known]
    exact ⟨_, Array.mem_push_self, rfl, rfl⟩

theorem setType_of_type {cg : CallGraph} {site : CallSiteId} {type : CallType}
    (typed : cg.type? site = some type) : cg.setType site type = cg := by
  rw [setType, insert_of_found typed]

/-- `after` is what becomes of `cg` where the calls `asked` are asked for, and `new` are the calls among them that are
appended. A call needs no edge of its own if its site calls the function already. -/
structure Gains (cg : CallGraph) (asked new : List CallEdge) (after : CallGraph) : Prop where
  built : after.Built
  functions : cg.functions.toList <+: after.functions.toList
  edges : after.edges.toList = cg.edges.toList ++ new
  among : ∀ edge ∈ new, edge ∈ asked
  listed : ∀ edge ∈ asked, ∃ known ∈ after.edges, known.site = edge.site ∧ known.callee = edge.callee
  mentioned : ∀ edge ∈ asked, edge.caller ∈ after.functions ∧ edge.callee ∈ after.functions

theorem Built.gains {cg : CallGraph} (built : cg.Built) : cg.Gains [] [] cg where
  built := built
  functions := List.prefix_refl _
  edges := (List.append_nil _).symm
  among _ member := member
  listed _ member := absurd member List.not_mem_nil
  mentioned _ member := absurd member List.not_mem_nil

namespace Gains
variable {cg after : CallGraph} {asked new : List CallEdge} (gains : cg.Gains asked new after)

include gains

theorem filed : after.WellFormed := gains.built.wellFormed

theorem setType (site : CallSiteId) (type : CallType) : cg.Gains asked new (after.setType site type) :=
  ⟨gains.built.type site type, gains.functions, gains.edges, gains.among, gains.listed, gains.mentioned⟩

theorem addEdge (edge : CallEdge) :
    cg.Gains (asked ++ [edge])
      (new ++ if (after.addEdge edge.site edge.caller edge.callee).2 then [edge] else [])
      (after.addEdge edge.site edge.caller edge.callee).1 where
  built := gains.built.edge ..
  functions := by
    rw [functions_addEdge]
    exact gains.functions.trans (functions_prefix_mention ..)
  edges := by rw [edges_addEdge, gains.edges, List.append_assoc]
  among other member := by
    rcases List.mem_append.mp member with old | last
    · exact List.mem_append_left _ (gains.among other old)
    · refine List.mem_append_right _ ?_
      split at last
      · exact last
      · cases last
  listed other member := by
    rcases List.mem_append.mp member with old | last
    · obtain ⟨known, inside, same⟩ := gains.listed other old
      refine ⟨known, ?_, same⟩
      rw [← Array.mem_toList_iff, edges_addEdge]
      exact List.mem_append_left _ (Array.mem_toList_iff.mpr inside)
    · rw [List.mem_singleton.mp last]
      exact gains.filed.exists_edge_addEdge ..
  mentioned other member := by
    simp only [functions_addEdge, gains.filed.mem_functions_mention]
    rcases List.mem_append.mp member with old | last
    · exact ⟨Or.inl (gains.mentioned other old).1, Or.inl (gains.mentioned other old).2⟩
    · rw [List.mem_singleton.mp last]
      exact ⟨Or.inr (Or.inl rfl), Or.inr (Or.inr rfl)⟩

/-- Asking again changes nothing. -/
theorem addEdge_eq {edge : CallEdge} (member : edge ∈ asked) :
    after.addEdge edge.site edge.caller edge.callee = (after, false) := by
  rw [addEdge_of_known gains.filed (gains.listed edge member),
    gains.filed.mention_of_mem (gains.mentioned edge member)]

/-- The new calls differ among each other and from the old ones. -/
theorem distinct : new.Pairwise (fun a b => ¬ (a.site = b.site ∧ a.callee = b.callee)) ∧
    ∀ old ∈ cg.edges, ∀ edge ∈ new, ¬ (old.site = edge.site ∧ old.callee = edge.callee) := by
  have pairs := gains.filed.distinct
  rw [gains.edges, List.pairwise_append] at pairs
  exact ⟨pairs.2.1, fun old member => pairs.2.2 old (Array.mem_toList_iff.mpr member)⟩

/-- Where a call site has one caller, the calls that are asked for and not there yet are the new ones. -/
theorem mem_new_iff (callers : ∀ a ∈ asked, ∀ b ∈ asked, a.site = b.site → a.caller = b.caller) {edge : CallEdge} :
    edge ∈ new ↔ edge ∈ asked ∧ ¬ ∃ old ∈ cg.edges, old.site = edge.site ∧ old.callee = edge.callee := by
  constructor
  · intro member
    refine ⟨gains.among edge member, ?_⟩
    rintro ⟨old, inside, same⟩
    exact gains.distinct.2 old inside edge member same
  · rintro ⟨member, fresh⟩
    obtain ⟨known, inside, site, callee⟩ := gains.listed edge member
    rw [← Array.mem_toList_iff, gains.edges, List.mem_append, Array.mem_toList_iff] at inside
    rcases inside with old | added
    · exact absurd ⟨known, old, site, callee⟩ fresh
    · have caller := callers known (gains.among known added) edge member site
      obtain ⟨knownSite, knownCaller, knownCallee⟩ := known
      cases site
      cases caller
      cases callee
      exact added

end Gains

/-- Asks for a call, and counts it if it is new. -/
def request (s : CallGraph × Nat) (edge : CallEdge) : CallGraph × Nat :=
  let next := s.1.addEdge edge.site edge.caller edge.callee
  (next.1, if next.2 then s.2 + 1 else s.2)

/-- The calls `asked` have been asked for, and the new ones among them counted. -/
def Progress (cg : CallGraph) (asked : List CallEdge) (s : CallGraph × Nat) : Prop :=
  ∃ new, cg.Gains asked new s.1 ∧ s.2 = new.length

theorem Progress.request {cg : CallGraph} {asked : List CallEdge} {s : CallGraph × Nat} (progress : cg.Progress asked s)
    (edge : CallEdge) : cg.Progress (asked ++ [edge]) (request s edge) := by
  obtain ⟨new, gains, count⟩ := progress
  refine ⟨_, gains.addEdge edge, ?_⟩
  dsimp only [CallGraph.request]
  rw [count]
  split <;> simp

theorem Progress.requestAll {cg : CallGraph} {asked : List CallEdge} {s : CallGraph × Nat}
    (progress : cg.Progress asked s) (edges : List CallEdge) :
    cg.Progress (asked ++ edges) (edges.foldl CallGraph.request s) := by
  induction edges generalizing asked s with
  | nil => rwa [List.append_nil]
  | cons edge edges ih =>
    rw [List.append_cons]
    exact ih (progress.request edge)

theorem types_requestAll (edges : List CallEdge) (s : CallGraph × Nat) :
    (edges.foldl request s).1.types = s.1.types := by
  induction edges generalizing s with
  | nil => rfl
  | cons edge edges ih =>
    rw [List.foldl_cons, ih]
    exact types_addEdge ..

theorem requestAll_eq {edges : List CallEdge} {s : CallGraph × Nat}
    (known : ∀ edge ∈ edges, s.1.addEdge edge.site edge.caller edge.callee = (s.1, false)) :
    edges.foldl request s = s := by
  induction edges with
  | nil => rfl
  | cons edge edges ih =>
    have first : request s edge = s := by
      rw [request, known edge List.mem_cons_self]
      rfl
    rw [List.foldl_cons, first]
    exact ih fun other member => known other (List.mem_cons_of_mem edge member)

end CallGraph

end PointsTo
