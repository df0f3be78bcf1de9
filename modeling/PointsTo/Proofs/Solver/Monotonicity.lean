import PointsTo.Proofs.Graph.Assembly
import PointsTo.Proofs.Solver.Transport
import Mathlib.Data.List.Sort

namespace PointsTo

namespace Graph

theorem reached_of_nodes_eq {g h : Graph} (nodes : h.nodes = g.nodes) (limit : h.fieldLimit = g.fieldLimit)
    (offset : Offset) (p : Location) : h.reached offset p = g.reached offset p := by
  cases offset with
  | constant k => simp only [reached, part, kind?_of_nodes_eq nodes, limit]
  | variant => rfl

/-- Where the nodes are the same and no edge is lost, every location can stay where it is. -/
theorem transports_of_subset {g h : Graph} (nodes : h.nodes = g.nodes) (limit : h.fieldLimit = g.fieldLimit)
    (edges : ∀ edge ∈ g.edges, edge ∈ h.edges) : Transports g h id where
  nodes n := (location_of_nodes_eq nodes n).symm
  edges edge member _ := edges edge member
  accesses p x offset o edge _ fact := by
    rw [id, ← reached_of_nodes_eq nodes limit]
    exact .access (edges _ edge) fact

end Graph

namespace Solver

/-- An analysis of more constraints on the same nodes finds all that an analysis of fewer finds, where fields are known
by their base and offset. The same constraints, in whatever order they came and however often, lead to the same sets
and the same targets. -/
theorem analyze_monotone {g h : Graph} (builtG : g.Built) (builtH : h.Built) (nodes : h.nodes = g.nodes)
    (edges : ∀ edge ∈ g.edges, edge ∈ h.edges) (limit : Nat) :
    ∃ t u, (ofGraph g).analyze limit = .ok t ∧ (ofGraph h).analyze limit = .ok u ∧
      (∀ n < g.nodes.size, ∀ a ∈ t.store.get n, ∃ b ∈ u.store.get n, u.graph.location b = t.graph.location a) ∧
      (∀ n < g.nodes.size, ∃ ts us, callTargets t.graph t.store n = .ok ts ∧
        callTargets u.graph u.store n = .ok us ∧ ts ⊆ us) ∧
      ((∀ edge ∈ h.edges, edge ∈ g.edges) → (∀ p a, t.solution p a ↔ u.solution p a) ∧
        ∀ n < g.nodes.size, callTargets t.graph t.store n = callTargets u.graph u.store n) := by
  obtain ⟨t, first⟩ := exists_analyzed builtG limit
  obtain ⟨u, second⟩ := exists_analyzed builtH limit
  have forth : Graph.Transports { g with fieldLimit := limit } { h with fieldLimit := limit } id :=
    Graph.transports_of_subset nodes rfl edges
  have inside {n : NodeId} (bound : n < g.nodes.size) : n < h.nodes.size := by
    rw [nodes]
    exact bound
  have functions (m : NodeId) (f : FuncId) : h.kind? m = some (.function f) ↔ g.kind? m = some (.function f) := by
    rw [Graph.kind?_of_nodes_eq nodes]
  refine ⟨t, u, first.run, second.run, ?_, ?_, ?_⟩
  · intro n bound a member
    have derived := (first.mem_get_iff.mp member).transport forth
    rw [first.location bound, ← Graph.location_of_nodes_eq nodes] at derived
    exact second.exists_mem (inside bound) derived
  · intro n bound
    exact first.targets_subset second forth bound (inside bound) fun m f => (functions m f).mpr
  · intro back
    have transports : Graph.Transports { h with fieldLimit := limit } { g with fieldLimit := limit } id :=
      Graph.transports_of_subset nodes.symm rfl back
    refine ⟨fun p a => ⟨first.solution_transport second forth, second.solution_transport first transports⟩, ?_⟩
    intro n bound
    obtain ⟨ts, us, foundT, foundU, fewer⟩ := first.targets_subset second forth bound (inside bound)
      fun m f => (functions m f).mpr
    obtain ⟨us', ts', foundU', foundT', more⟩ := second.targets_subset first transports (inside bound) bound
      fun m f => (functions m f).mp
    cases foundT.symm.trans foundT'
    cases foundU.symm.trans foundU'
    rw [foundT, foundU, List.Subset.antisymm_of_pairwise (first.ascending bound foundT)
      (second.ascending (inside bound) foundU) fewer more]

/-- Backwards and with every edge twice, the fields come to be in another order and the outcome is the same. -/
theorem analyze_monotone_twoFields :
    ∃ t u, (ofGraph (.callback Graph.twoFields)).analyze 8 = .ok t ∧
      (ofGraph (.callback (Graph.twoFields.reverse ++ Graph.twoFields))).analyze 8 = .ok u ∧
      (t.graph.nodes.toList.drop 7).map (·.name) = ["o.1", "o.2"] ∧ (t.store.get 3).toList = [7] ∧
      (u.graph.nodes.toList.drop 7).map (·.name) = ["o.2", "o.1"] ∧ (u.store.get 3).toList = [8] ∧
      (∀ p a, t.solution p a ↔ u.solution p a) ∧ callTargets t.graph t.store 6 = .ok [0] ∧
      ∀ n < 7, callTargets t.graph t.store n = callTargets u.graph u.store n := by
  have forwards : ((ofGraph (.callback Graph.twoFields)).analyze 8).toOption.any fun t =>
      (t.graph.nodes.toList.drop 7).map (·.name) = ["o.1", "o.2"] ∧ (t.store.get 3).toList = [7] ∧
      callTargets t.graph t.store 6 = .ok [0] := by decide +kernel
  have backwards : ((ofGraph (.callback (Graph.twoFields.reverse ++ Graph.twoFields))).analyze 8).toOption.any fun u =>
      (u.graph.nodes.toList.drop 7).map (·.name) = ["o.2", "o.1"] ∧ (u.store.get 3).toList = [8] := by decide +kernel
  have once := Graph.twoFields_ends
  have twice : ∀ edge ∈ Graph.twoFields.reverse ++ Graph.twoFields, edge.source < 7 ∧ edge.target < 7 := by decide
  obtain ⟨t, u, first, second, _, _, same⟩ := analyze_monotone (Graph.built_callback once) (Graph.built_callback twice)
    ((Graph.nodes_insertEdges ..).trans (Graph.nodes_insertEdges ..).symm)
    (fun edge member => (Graph.mem_edges_callback twice).mpr
      (List.mem_append_right _ ((Graph.mem_edges_callback once).mp member))) 8
  obtain ⟨facts, targets⟩ := same fun edge member => (Graph.mem_edges_callback once).mpr
    (by simpa using (Graph.mem_edges_callback twice).mp member)
  rw [Graph.size_callback] at targets
  rw [first] at forwards
  rw [second] at backwards
  obtain ⟨namesT, factsT, targetsT⟩ := of_decide_eq_true forwards
  obtain ⟨namesU, factsU⟩ := of_decide_eq_true backwards
  exact ⟨t, u, first, second, namesT, factsT, namesU, factsU, facts, targetsT, targets⟩

end Solver

end PointsTo
