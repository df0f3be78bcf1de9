import PointsTo.Proofs.Solver.Effect
import PointsTo.Proofs.Solver.Moves
import PointsTo.Proofs.Solver.TakenTables
import PointsTo.Proofs.Program.Loading

namespace PointsTo

namespace Incidence

theorem outgoing_insert (t : Incidence) (e : EdgeId) (source target n : NodeId) :
    (t.insert e source target).outgoing n = if n = source then (t.outgoing n).push e else t.outgoing n :=
  getD_alter_push ..

theorem incoming_insert (t : Incidence) (e : EdgeId) (source target n : NodeId) :
    (t.insert e source target).incoming n = if n = target then (t.incoming n).push e else t.incoming n :=
  getD_alter_push ..

end Incidence

namespace Graph

/-- The entries of the tables of edges are ascending, and so have no repetitions. -/
structure Ascending (g : Graph) : Prop where
  outgoing : ∀ family n, (g.outgoing family n).Pairwise (· < ·)
  incoming : ∀ family n, (g.incoming family n).Pairwise (· < ·)

theorem ascending_of_incidence_eq {g h : Graph} (ascending : g.Ascending) (same : h.incidence = g.incidence) :
    h.Ascending where
  outgoing family n := by
    rw [Graph.outgoing, same]
    exact ascending.outgoing family n
  incoming family n := by
    rw [Graph.incoming, same]
    exact ascending.incoming family n

theorem pairwise_concat_size {g : Graph} {es : List EdgeId} (sorted : es.Pairwise (· < ·))
    (known : ∀ e ∈ es, ∃ edge, g.edges[e]? = some edge) : (es ++ [g.edges.size]).Pairwise (· < ·) := by
  refine List.pairwise_append.mpr ⟨sorted, by simp, fun e member last same => ?_⟩
  obtain ⟨edge, found⟩ := known e member
  obtain ⟨bound, _⟩ := Array.getElem?_eq_some_iff.mp found
  rw [List.mem_singleton.mp same]
  exact bound

theorem Ascending.appendEdge {g : Graph} (ascending : g.Ascending) (filed : g.EdgesFiled) (edge : Edge) :
    (g.appendEdge edge).Ascending where
  outgoing family n := by
    have before := ascending.outgoing family n
    unfold Graph.outgoing at before ⊢
    rw [incidence_appendEdge]
    split
    · rw [Incidence.outgoing_insert]
      split
      · rw [Array.toList_push]
        refine pairwise_concat_size before fun e member => ?_
        obtain ⟨edge, found, _⟩ := (filed.outgoing family n e).mp member
        exact ⟨edge, found⟩
      · exact before
    · exact before
  incoming family n := by
    have before := ascending.incoming family n
    unfold Graph.incoming at before ⊢
    rw [incidence_appendEdge]
    split
    · rw [Incidence.incoming_insert]
      split
      · rw [Array.toList_push]
        refine pairwise_concat_size before fun e member => ?_
        obtain ⟨edge, found, _⟩ := (filed.incoming family n e).mp member
        exact ⟨edge, found⟩
      · exact before
    · exact before

theorem incidence_access (g : Graph) (access : FieldAccess) : (g.access access).1.incidence = g.incidence := by
  cases access <;> rfl

theorem incidence_field {g h : Graph} {n m : NodeId} {k : Nat} (found : g.field n k = .ok (h, m)) :
    h.incidence = g.incidence := by
  obtain ⟨access, _, result⟩ := field_eq_ok found
  rw [← incidence_access g access, result]

theorem Built.ascending {g : Graph} (built : g.Built) : g.Ascending := by
  induction built with
  | empty => exact ⟨fun family n => by cases family <;> exact .nil, fun family n => by cases family <;> exact .nil⟩
  | value name _ ih => exact ascending_of_incidence_eq ih rfl
  | object name _ ih => exact ascending_of_incidence_eq ih rfl
  | array name _ ih => exact ascending_of_incidence_eq ih rfl
  | function name _ ih => exact ascending_of_incidence_eq ih rfl
  | @edge g h edge e built added ih =>
    obtain ⟨_, _, inserted⟩ := addEdge_eq_ok_iff.mp added
    unfold Graph.insertEdge at inserted
    split at inserted
    · cases inserted
      exact ih
    · cases inserted
      exact ih.appendEdge built.wellFormed.toEdgesFiled edge
  | field _ found ih => exact ascending_of_incidence_eq ih (incidence_field found)
  | fieldLimit limit _ ih => exact ascending_of_incidence_eq ih rfl
  | callSite label caller _ ih => exact ascending_of_incidence_eq ih rfl
  | indirectCall site pointer _ ih => exact ascending_of_incidence_eq ih rfl

/-- One thing that the solver does to a graph. -/
inductive Edit (g : Graph) : Graph → Prop
  | copy {h a b e} : g.addEdge ⟨a, b, .copy⟩ = .ok (h, e) → Edit g h
  | field {h n k m} : g.field n k = .ok (h, m) → Edit g h

def Edits : Graph → Graph → Prop := Relation.ReflTransGen Edit

theorem Edits.built {g h : Graph} (edits : g.Edits h) (built : g.Built) : h.Built := by
  induction edits with
  | refl => exact built
  | tail _ edit ih =>
    cases edit with
    | copy added => exact ih.edge added
    | field found => exact ih.field found

end Graph

namespace Solver
variable {s t : Solver}

theorem Move.edits (move : s.Move t) : s.graph.Edits t.graph := by
  cases move with
  | copy _ added => exact .single (.copy added)
  | access run =>
    rcases (reach_outcome run).2 with same | ⟨k, found⟩
    · exact same ▸ .refl
    · exact .single (.field found)
  | send n facts =>
    rw [send_graph]
    exact .refl
  | gain n x =>
    rw [gain_graph]
    exact .refl
  | note _ _ => exact .refl

theorem Moves.edits (moves : s.Moves t) : s.graph.Edits t.graph := by
  induction moves with
  | refl => exact .refl
  | tail _ move ih => exact ih.trans move.edits

theorem Turn.edits (turn : s.Turn t) : s.graph.Edits t.graph := by
  obtain ⟨n, queue, _, run⟩ := turn
  rcases process_moves run with ⟨_, rfl⟩ | ⟨_, moves⟩
  · exact .refl
  · exact moves.edits

theorem Turns.edits {k : Nat} (turns : s.Turns k t) : s.graph.Edits t.graph := by
  induction turns with
  | start => exact .refl
  | next _ turn ih => exact ih.trans turn.edits

theorem solve_edits (run : s.solve = .ok t) : s.graph.Edits t.graph := by
  obtain ⟨u, k, active, turns⟩ := solve_turns run
  have edits := (activate_moves active).edits
  exact edits.trans turns.edits

theorem analyze_edits {limit : Nat} (run : s.analyze limit = .ok t) :
    { s.graph with fieldLimit := limit }.Edits t.graph := by
  obtain ⟨propagated, propagation, rest⟩ := bind_eq_ok_iff.mp run
  obtain ⟨solved, solution, done⟩ := bind_eq_ok_iff.mp propagation
  cases rest
  cases done
  exact solve_edits solution

end Solver

/-- The operations on a graph, and the runs of a solver on it. A solver brings its sets and counters with it, and takes
the graph as it finds it; it may take the table that it walks out of the graph. -/
inductive GraphOperation
  | value (name : String)
  | object (name : String)
  | array (name : String)
  | function (name : String)
  | edge (new : Edge)
  | field (n : NodeId) (k : Nat)
  | fieldLimit (limit : Nat)
  | callSite (label : String) (caller : Option FuncId)
  | indirectCall (site : CallSiteId) (pointer : NodeId)
  | solve (solver : Solver)
  | solveTaking (solver : Solver) (taking : Solver.Taking)
  | analyze (solver : Solver) (limit : Nat)

namespace GraphOperation

def run (g : Graph) : GraphOperation → Except Fault Graph
  | value name => .ok (g.addValue name).1
  | object name => .ok (g.addObject name).1
  | array name => .ok (g.addArray name).1
  | function name => .ok (g.addFunction name).1
  | edge new => (g.addEdge new).map (·.1)
  | field n k => (g.field n k).map (·.1)
  | fieldLimit limit => .ok { g with fieldLimit := limit }
  | callSite label caller => .ok (g.addCallSite label caller).1
  | indirectCall site pointer => .ok (g.addIndirectCall site pointer)
  | solve solver => ({ solver with graph := g }.solve).map Solver.graph
  | solveTaking solver taking => ({ solver with graph := g }.solveTaking taking).map Solver.graph
  | analyze solver limit => ({ solver with graph := g }.analyze limit).map Solver.graph

/-- The graph after some operations, of which none failed. -/
def graph (operations : List GraphOperation) : Except Fault Graph := operations.foldlM run .empty

theorem run_built {g h : Graph} {operation : GraphOperation} (built : g.Built) (done : operation.run g = .ok h) :
    h.Built := by
  cases operation with
  | value name => cases done; exact built.value name
  | object name => cases done; exact built.object name
  | array name => cases done; exact built.array name
  | function name => cases done; exact built.function name
  | edge new =>
    obtain ⟨result, added, rfl⟩ := map_eq_ok_iff.mp done
    exact built.edge added
  | field n k =>
    obtain ⟨result, found, rfl⟩ := map_eq_ok_iff.mp done
    exact built.field found
  | fieldLimit limit => cases done; exact built.fieldLimit limit
  | callSite label caller => cases done; exact built.callSite label caller
  | indirectCall site pointer => cases done; exact built.indirectCall site pointer
  | solve solver =>
    obtain ⟨t, solved, rfl⟩ := map_eq_ok_iff.mp done
    exact (Solver.solve_edits solved).built built
  | solveTaking solver taking =>
    obtain ⟨t, solved, rfl⟩ := map_eq_ok_iff.mp done
    rw [Solver.solveTaking_eq] at solved
    exact (Solver.solve_edits solved).built built
  | analyze solver limit =>
    obtain ⟨t, analyzed, rfl⟩ := map_eq_ok_iff.mp done
    exact (Solver.analyze_edits analyzed).built (built.fieldLimit limit)

theorem foldlM_built {operations : List GraphOperation} {g h : Graph} (built : g.Built)
    (done : operations.foldlM run g = .ok h) : h.Built :=
  foldlM_keeps (fun _ _ _ _ built first => run_built built first) built done

end GraphOperation

/-- The functions and the nodes that stand for functions belong together one by one. -/
structure Graph.FunctionsPaired (g : Graph) : Prop where
  node : ∀ f < g.functions.size, ∃! n, g.kind? n = some (.function f)
  number : ∀ n f, g.kind? n = some (.function f) → f < g.functions.size

theorem Graph.NodesFiled.functionsPaired {g : Graph} (filed : g.NodesFiled) : g.FunctionsPaired where
  node f bound := by
    have entry : (g.functions[f]?).map (·.node) = some g.functions[f].node := by simp [bound]
    refine ⟨g.functions[f].node, (filed.functions f _).mp entry, fun n function => ?_⟩
    exact Option.some.inj (((filed.functions f n).mpr function).symm.trans entry)
  number n f function := by
    obtain ⟨entry, found, _⟩ := Option.map_eq_some_iff.mp ((filed.functions f n).mpr function)
    obtain ⟨bound, _⟩ := Array.getElem?_eq_some_iff.mp found
    exact bound

/-- After any operations on a graph and any runs of solvers on it, no edge stands twice, each table lists the edges of
its family at a node, ascending, the address edges are listed in their order, the fields and functions are found under
what they are, and every field has an object for its base. -/
theorem GraphOperation.graph_consistent {operations : List GraphOperation} {g : Graph}
    (done : graph operations = .ok g) : g.WellFormed ∧ g.Ascending ∧ g.FunctionsPaired := by
  have built := foldlM_built .empty done
  exact ⟨built.wellFormed, built.ascending, built.wellFormed.toNodesFiled.functionsPaired⟩

/-- A pointer that moves through the fields of an object and is stored into them; after an analysis come a function, an
access to a field that is there already, and an edge twice, and then another solver. -/
def GraphOperation.wanderingPointer : List GraphOperation :=
  [.object "o", .value "p", .value "q", .edge ⟨0, 1, .addr⟩, .edge ⟨1, 1, .gep (.constant 1)⟩, .edge ⟨1, 1, .store⟩,
    .edge ⟨1, 2, .load⟩, .analyze (.ofGraph .empty) 3, .function "f", .field 3 1, .edge ⟨5, 2, .addr⟩,
    .edge ⟨5, 2, .addr⟩, .solveTaking (.ofGraph .empty) .entry]

theorem GraphOperation.graph_consistent_wanderingPointer : ∃ g, graph wanderingPointer = .ok g ∧ g.nodes.size = 6 ∧
    g.edges.size = 11 ∧ g.outgoing .copy 1 = [5, 7, 9] ∧ g.WellFormed ∧ g.Ascending ∧ g.FunctionsPaired := by
  have evaluated : (graph wanderingPointer).toOption.any fun g => g.nodes.size = 6 ∧ g.edges.size = 11 ∧
      g.outgoing .copy 1 = [5, 7, 9] := by decide +kernel
  obtain ⟨g, done, holds⟩ := exists_of_any evaluated
  obtain ⟨nodes, edges, outgoing⟩ := of_decide_eq_true holds
  exact ⟨g, done, nodes, edges, outgoing, graph_consistent done⟩

end PointsTo
