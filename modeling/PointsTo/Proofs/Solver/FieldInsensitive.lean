import PointsTo.Proofs.Graph.Assembly
import PointsTo.Proofs.Solver.Transport

namespace PointsTo

/-- The edge where fields are not told apart: an access yields the object itself. -/
def Edge.flattened (edge : Edge) : Edge :=
  match edge.kind with
  | .gep _ => { edge with kind := .copy }
  | _ => edge

theorem Edge.source_flattened (edge : Edge) : edge.flattened.source = edge.source := by
  unfold flattened
  split <;> rfl

theorem Edge.target_flattened (edge : Edge) : edge.flattened.target = edge.target := by
  unfold flattened
  split <;> rfl

theorem Edge.flattened_eq_self {edge : Edge} (other : ∀ offset, edge.kind ≠ .gep offset) :
    edge.flattened = edge := by
  unfold flattened
  split
  · rename_i offset access
    exact absurd access (other offset)
  · rfl

/-- The node that a location is, or is part of. -/
def Location.owner : Location → NodeId
  | node n => n
  | field base _ => base

def Location.whole (p : Location) : Location := .node p.owner

namespace Graph

/-- The nodes of a graph, without constraints between them. -/
def unconstrained (g : Graph) : Graph :=
  { g with
    edges := #[]
    addrIncidence := .empty
    copyIncidence := .empty
    loadIncidence := .empty
    storeIncidence := .empty
    gepIncidence := .empty
    addrEdges := #[] }

theorem unconstrained_appendEdge (g : Graph) (edge : Edge) : (g.appendEdge edge).unconstrained = g.unconstrained := by
  unfold appendEdge
  cases edge.kind <;> rfl

theorem unconstrained_insertEdge (g : Graph) (edge : Edge) :
    (g.insertEdge edge).1.unconstrained = g.unconstrained := by
  unfold insertEdge
  split
  · rfl
  · exact unconstrained_appendEdge g edge

/-- An access to a field takes no notice of edges. -/
theorem field_unconstrained {g h : Graph} {n m : NodeId} {k : Nat} (found : g.field n k = .ok (h, m)) :
    g.unconstrained.field n k = .ok (h.unconstrained, m) := by
  have same : g.unconstrained.locate n k = g.locate n k := rfl
  unfold Graph.field at found ⊢
  rw [same]
  cases located : g.locate n k with
  | error fault =>
    rw [located] at found
    cases found
  | ok access =>
    rw [located] at found
    have result : g.access access = (h, m) := Except.ok.inj found
    cases access <;> cases result <;> rfl

theorem Built.unconstrained {g : Graph} (built : g.Built) : g.unconstrained.Built := by
  induction built with
  | empty => exact .empty
  | value name _ ih => exact ih.value name
  | object name _ ih => exact ih.object name
  | array name _ ih => exact ih.array name
  | function name _ ih => exact ih.function name
  | @edge g h edge e _ added ih =>
    obtain ⟨_, _, result⟩ := addEdge_eq_ok_iff.mp added
    have same : h = (g.insertEdge edge).1 := (congrArg Prod.fst result).symm
    rw [same, unconstrained_insertEdge]
    exact ih
  | field _ found ih => exact ih.field (field_unconstrained found)
  | fieldLimit limit _ ih => exact ih.fieldLimit limit
  | callSite label caller _ ih => exact ih.callSite label caller
  | indirectCall site pointer _ ih => exact ih.indirectCall site pointer

/-- The graph with a copy in the place of every access. -/
def flattened (g : Graph) : Graph := g.unconstrained.insertEdges (g.edges.toList.map Edge.flattened)

theorem nodes_flattened (g : Graph) : g.flattened.nodes = g.nodes :=
  nodes_insertEdges ..

section flattened
variable {g : Graph} (built : g.Built)

include built

theorem Built.flattened_ends :
    ∀ edge ∈ g.edges.toList.map Edge.flattened,
      edge.source < g.unconstrained.nodes.size ∧ edge.target < g.unconstrained.nodes.size := by
  intro edge member
  obtain ⟨original, listed, rfl⟩ := List.mem_map.mp member
  rw [Edge.source_flattened, Edge.target_flattened]
  exact built.wellFormed.ends original (Array.mem_def.mpr listed)

theorem Built.flattened : g.flattened.Built := built.unconstrained.insertEdges built.flattened_ends

theorem Built.mem_edges_flattened {edge : Edge} :
    edge ∈ g.flattened.edges ↔ ∃ original ∈ g.edges, original.flattened = edge := by
  rw [Graph.flattened, built.unconstrained.mem_edges_insertEdges built.flattened_ends]
  simp [Graph.unconstrained]

end flattened

/-- The node itself or, of a field, its base. -/
def owner (g : Graph) (n : NodeId) : NodeId := (g.location n).owner

theorem owner_of_field {g : Graph} {n base : NodeId} {offset : Nat}
    (known : g.kind? n = some (.field base offset)) : g.owner n = base := by
  rw [owner, location_of_field known, Location.owner]

/-- An access never leaves the object. -/
theorem whole_part (g : Graph) (p : Location) (k : Nat) : (g.part p k).whole = p.whole := by
  have base : (p.access k).1 = p.owner := by cases p <;> rfl
  unfold part
  simp only [← base, Location.whole]
  split <;> rfl

theorem whole_reached (g : Graph) (offset : Offset) (p : Location) : (g.reached offset p).whole = p.whole := by
  cases offset with
  | constant k => exact g.whole_part p k
  | variant => rfl

theorem Built.transports_flattened {g : Graph} (built : g.Built) (plain : g.Plain) (limit bound : Nat) :
    Transports { g with fieldLimit := limit } { g.flattened with fieldLimit := bound } Location.whole where
  nodes n := by
    have plainH := plain.of_nodes_eq (nodes_flattened g)
    change (g.location n).whole = g.flattened.location n
    rw [plain.location, plainH.location]
    rfl
  edges edge member other := built.mem_edges_flattened.mpr ⟨edge, member, Edge.flattened_eq_self other⟩
  accesses p x offset o edge _ fact := by
    rw [whole_reached]
    exact .copy (built.mem_edges_flattened.mpr ⟨_, edge, rfl⟩) fact

end Graph

namespace Solver

/-- What the analysis finds, the analysis without fields finds as well, with the object in the place of a field: in the
set of a node, in the set of a field, and among the functions that a pointer may call. -/
theorem analyze_refines_flattened {g : Graph} (built : g.Built) (plain : g.Plain) (limit : Nat) :
    ∃ t u, (ofGraph g).analyze limit = .ok t ∧ (ofGraph g.flattened).analyze limit = .ok u ∧
      (∀ n < g.nodes.size, ∀ a ∈ t.store.get n, t.graph.owner a ∈ u.store.get n) ∧
      (∀ f base offset, t.graph.kind? f = some (.field base offset) →
        ∀ a ∈ t.store.get f, t.graph.owner a ∈ u.store.get base) ∧
      ∀ n < g.nodes.size, ∃ ts us, callTargets t.graph t.store n = .ok ts ∧
        callTargets u.graph u.store n = .ok us ∧ ts ⊆ us := by
  obtain ⟨t, first⟩ := exists_analyzed built limit
  obtain ⟨u, second⟩ := exists_analyzed built.flattened limit
  have transports := built.transports_flattened plain limit limit
  have carried {n a : NodeId} (member : a ∈ t.store.get n) : t.graph.owner a ∈ u.store.get (t.graph.owner n) := by
    have fact := first.solution_transport second transports ((solution_location first.stable.graph).mpr member)
    obtain ⟨m, x, atM, atX, found⟩ := fact
    rw [Graph.eq_of_location_node atM, Graph.eq_of_location_node atX] at found
    exact found
  refine ⟨t, u, first.run, second.run, ?_, ?_, ?_⟩
  · intro n bound a member
    have itself : t.graph.owner n = n := by
      rw [Graph.owner, first.location bound, plain.location, Location.owner]
    exact itself ▸ carried member
  · intro f base offset field a member
    have found := carried member
    rw [Graph.owner_of_field field] at found
    exact found
  · intro n bound
    have inH : n < g.flattened.nodes.size := by
      rw [Graph.nodes_flattened]
      exact bound
    apply first.targets_subset second transports bound inH
    intro m f function
    rw [Graph.kind?_of_nodes_eq (Graph.nodes_flattened g)]
    exact function

/-- What `x` points to is a field of `o` in the one analysis and `o` itself in the other, where `o` also holds `f`. -/
theorem analyze_refines_flattened_twoFields :
    ∃ t u, (ofGraph (.callback Graph.twoFields)).analyze 8 = .ok t ∧
      (ofGraph (Graph.callback Graph.twoFields).flattened).analyze 8 = .ok u ∧
      (t.store.get 3).toList = [7] ∧ t.graph.owner 7 = 0 ∧ (t.store.get 0).toList = [] ∧
      (u.store.get 3).toList = [0] ∧ (u.store.get 0).toList = [1] ∧
      (∀ n < 7, ∀ a ∈ t.store.get n, t.graph.owner a ∈ u.store.get n) ∧
      ∃ us, callTargets t.graph t.store 6 = .ok [0] ∧ callTargets u.graph u.store 6 = .ok us ∧ [0] ⊆ us := by
  have fields : ((ofGraph (.callback Graph.twoFields)).analyze 8).toOption.any fun t =>
      (t.store.get 3).toList = [7] ∧ t.graph.owner 7 = 0 ∧ (t.store.get 0).toList = [] ∧
      callTargets t.graph t.store 6 = .ok [0] := by decide +kernel
  have objects : ((ofGraph (Graph.callback Graph.twoFields).flattened).analyze 8).toOption.any fun u =>
      (u.store.get 3).toList = [0] ∧ (u.store.get 0).toList = [1] := by decide +kernel
  obtain ⟨t, u, first, second, facts, _, targets⟩ := analyze_refines_flattened
    (Graph.built_callback Graph.twoFields_ends) (Graph.plain_callback Graph.twoFields) 8
  rw [Graph.size_callback] at facts targets
  rw [first] at fields
  rw [second] at objects
  obtain ⟨atX, owner, atO, found⟩ := of_decide_eq_true fields
  obtain ⟨merged, held⟩ := of_decide_eq_true objects
  obtain ⟨ts, us, foundT, foundU, fewer⟩ := targets 6 (by decide)
  cases found.symm.trans foundT
  exact ⟨t, u, first, second, atX, owner, atO, merged, held, facts, us, found, foundU, fewer⟩

end Solver

end PointsTo
