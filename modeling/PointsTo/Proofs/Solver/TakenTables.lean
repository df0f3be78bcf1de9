import PointsTo.Proofs.Entries
import PointsTo.Proofs.Solver.Turn

namespace PointsTo

/-- The graph with another table for a family of edges. -/
def Graph.withTable (g : Graph) (table : Incidence) : EdgeFamily → Graph
  | .addr => { g with addrIncidence := table }
  | .copy => { g with copyIncidence := table }
  | .load => { g with loadIncidence := table }
  | .store => { g with storeIncidence := table }
  | .gep => { g with gepIncidence := table }

/-- The edges of a family that are worked off at a node: stores are found by their target, the others by their source. -/
def Incidence.entry (t : Incidence) (family : EdgeFamily) (n : NodeId) : Array EdgeId :=
  if family = .store then t.incoming n else t.outgoing n

/-- The table with other edges in this entry, if there is one. -/
def Incidence.withEntry (t : Incidence) (family : EdgeFamily) (n : NodeId) (es : Array EdgeId) : Incidence :=
  if family = .store then { t with byTarget := t.byTarget.modify n fun _ => es }
  else { t with bySource := t.bySource.modify n fun _ => es }

theorem Incidence.withEntry_entry (t : Incidence) (family : EdgeFamily) (n : NodeId) (es : Array EdgeId) :
    (t.withEntry family n es).withEntry family n (t.entry family n) = t := by
  unfold withEntry entry
  split
  · rw [incoming, modify_modify_getD]
  · rw [outgoing, modify_modify_getD]

namespace Solver

def withTable (s : Solver) (table : Incidence) (family : EdgeFamily) : Solver :=
  { s with graph := s.graph.withTable table family }

/-- How a table is taken out of the graph while the edges of a family at a node are worked off: what the state holds in
its place, and what is made of that in the end, which gives the table back if nothing has been done to it. -/
structure Taking where
  held : Solver → EdgeFamily → NodeId → Incidence
  restore : Solver → EdgeFamily → NodeId → Incidence → Incidence
  restore_held : ∀ s family n, restore s family n (held s family n) = s.graph.incidence family

/-- Only the entry of the node is emptied, and it is put into the table that is there in the end. -/
def Taking.entry : Taking where
  held s family n := (s.graph.incidence family).withEntry family n #[]
  restore s family n table := table.withEntry family n ((s.graph.incidence family).entry family n)
  restore_held s family n := (s.graph.incidence family).withEntry_entry family n #[]

/-- Works off edges at a node while their table is out of the graph. -/
def walk (taking : Taking) (family : EdgeFamily) (n : NodeId) (f : Solver → EdgeId → Except Fault Solver)
    (es : List EdgeId) (s : Solver) : Except Fault Solver := do
  let t ← es.foldlM f (s.withTable (taking.held s family n) family)
  return t.withTable (taking.restore s family n (t.graph.incidence family)) family

/-- As `process`, where each table is out of the graph while an entry of it is walked. -/
def processTaking (taking : Taking) (s : Solver) (n : NodeId) : Except Fault Solver := do
  let (facts, store) := s.store.flush n
  let s := { s with store }
  if facts.isEmpty then return s
  let s := { s with processed := s.processed + 1 }
  let s ← s.walk taking .copy n (processCopy facts) (s.graph.outgoing .copy n)
  let s ← s.walk taking .load n (processLoad facts) (s.graph.outgoing .load n)
  let s ← s.walk taking .store n (processStore facts) (s.graph.incoming .store n)
  s.walk taking .gep n (processGep facts) (s.graph.outgoing .gep n)

def drainTaking (taking : Taking) : (steps : Nat) → Solver → Except Fault Solver
  | 0, s => return s
  | steps + 1, s =>
    match s.queue.pop? with
    | none => return s
    | some (n, queue) => do drainTaking taking steps (← { s with queue }.processTaking taking n)

/-- As `solve`, where each table is out of the graph while an entry of it is walked. -/
def solveTaking (s : Solver) (taking : Taking) : Except Fault Solver := do
  let s ← { s with queue := .empty }.activate
  drainTaking taking s.stepBound s

end Solver

section graphs

variable (g : Graph) (table held : Incidence) (family : EdgeFamily)

theorem Graph.withTable_incidence : g.withTable (g.incidence family) family = g := by
  cases family <;> rfl

theorem Graph.incidence_withTable : (g.withTable table family).incidence family = table := by
  cases family <;> rfl

theorem Graph.withTable_withTable : (g.withTable held family).withTable table family = g.withTable table family := by
  cases family <;> rfl

theorem Graph.edge_withTable (e : EdgeId) : (g.withTable table family).edge e = g.edge e := by
  cases family <;> rfl

theorem Graph.size_withTable : (g.withTable table family).nodes.size = g.nodes.size := by
  cases family <;> rfl

theorem Graph.locate_withTable (o : NodeId) (k : Nat) : (g.withTable table family).locate o k = g.locate o k := by
  cases family <;> rfl

theorem Graph.access_withTable (access : FieldAccess) : (g.withTable table family).access access =
    ((g.access access).1.withTable table family, (g.access access).2) := by
  cases family <;> cases access <;> rfl

/-- Only the copy edges are looked through before a copy edge is entered. -/
theorem Graph.addEdge_withTable {family : EdgeFamily} (other : family ≠ .copy) (a b : NodeId) :
    (g.withTable table family).addEdge ⟨a, b, .copy⟩ =
      (fun added => (added.1.withTable table family, added.2)) <$> g.addEdge ⟨a, b, .copy⟩ := by
  have inserted : (g.withTable table family).insertEdge ⟨a, b, .copy⟩ =
      ((g.insertEdge ⟨a, b, .copy⟩).1.withTable table family, (g.insertEdge ⟨a, b, .copy⟩).2) := by
    have contains : (g.withTable table family).containsEdge ⟨a, b, .copy⟩ = g.containsEdge ⟨a, b, .copy⟩ := by
      cases family <;> first | rfl | exact absurd rfl other
    unfold insertEdge
    rw [contains]
    split
    · rfl
    · cases family <;> first | rfl | exact absurd rfl other
  unfold addEdge
  rw [size_withTable, inserted]
  split
  · rfl
  · split <;> rfl

end graphs

namespace Solver
variable {table : Incidence} {family : EdgeFamily}

/-- A loop commutes with a change of states that each of its steps commutes with. -/
theorem foldlM_commutes {α β : Type} (change : β → β) {f : β → α → Except Fault β}
    (step : ∀ b a, f (change b) a = change <$> f b a) (as : List α) (b : β) :
    as.foldlM f (change b) = change <$> as.foldlM f b := by
  induction as generalizing b with
  | nil => rfl
  | cons a as ih => simp only [List.foldlM_cons, map_bind, ← ih, step, bind_map_left]

/-- The step neither looks at the table nor changes it. -/
def Overlooks (family : EdgeFamily) (f : Solver → EdgeId → Except Fault Solver) : Prop :=
  ∀ table s e, f (s.withTable table family) e = (·.withTable table family) <$> f s e

theorem Overlooks.walk_eq {f : Solver → EdgeId → Except Fault Solver} (overlooks : Overlooks family f)
    (taking : Taking) (n : NodeId) (es : List EdgeId) (s : Solver) : s.walk taking family n f es = es.foldlM f s := by
  have same : s.withTable (s.graph.incidence family) family = s := by
    rw [withTable, Graph.withTable_incidence]
  -- nothing was done to what stands in the place of the table, so the table comes back
  have back : ∀ t : Solver, (t.withTable (taking.held s family n) family).withTable (taking.restore s family n
      ((t.withTable (taking.held s family n) family).graph.incidence family)) family =
        t.withTable (s.graph.incidence family) family := by
    intro t
    simp only [withTable, Graph.incidence_withTable, taking.restore_held, Graph.withTable_withTable]
  calc s.walk taking family n f es
      = (·.withTable (s.graph.incidence family) family) <$> es.foldlM f s := by
        rw [walk, foldlM_commutes _ (overlooks (taking.held s family n))]
        simp only [bind_pure_comp, Functor.map_map, back]
    _ = es.foldlM f s := by
        rw [← foldlM_commutes _ (overlooks (s.graph.incidence family)), same]

theorem schedule_withTable (s : Solver) (n : NodeId) (grew : Bool) :
    (s.withTable table family).schedule n grew = (s.schedule n grew).withTable table family := by
  cases grew <;> rfl

theorem send_withTable (s : Solver) (n : NodeId) (facts : PointeeSet) :
    (s.withTable table family).send n facts = (s.send n facts).withTable table family :=
  schedule_withTable { s with store := (s.store.unite n facts).1 } n _

theorem link_withTable (other : family ≠ .copy) (s : Solver) (a b : NodeId) :
    (s.withTable table family).link a b = (·.withTable table family) <$> s.link a b := by
  unfold link
  simp only [withTable, s.graph.addEdge_withTable table other, bind_map_left, map_bind]
  congr 1
  funext added
  obtain ⟨graph, _ | e⟩ := added
  · rfl
  · exact congrArg Except.ok (send_withTable { s with graph, copyEdges := s.copyEdges + 1 } b _)

theorem processCopy_overlooks (facts : PointeeSet) : Overlooks family (processCopy facts) := by
  intro table s e
  unfold processCopy
  rw [withTable, Graph.edge_withTable, map_bind]
  congr 1
  funext edge
  exact congrArg Except.ok (send_withTable s edge.target facts)

theorem processLoad_overlooks (facts : PointeeSet) (other : family ≠ .copy) : Overlooks family (processLoad facts) := by
  intro table s e
  unfold processLoad
  rw [map_bind, withTable, Graph.edge_withTable]
  congr 1
  funext edge
  exact foldlM_commutes (f := fun s o => s.link o edge.target) _ (fun s o => link_withTable other s o _) _ s

theorem processStore_overlooks (facts : PointeeSet) (other : family ≠ .copy) :
    Overlooks family (processStore facts) := by
  intro table s e
  unfold processStore
  rw [map_bind, withTable, Graph.edge_withTable]
  congr 1
  funext edge
  exact foldlM_commutes (f := fun s o => s.link edge.source o) _ (fun s o => link_withTable other s _ o) _ s

theorem reach_withTable (s : Solver) (offset : Offset) (o : NodeId) : (s.withTable table family).reach offset o =
    (fun reached => (reached.1.withTable table family, reached.2)) <$> s.reach offset o := by
  cases offset with
  | variant => rfl
  | constant k =>
    unfold reach
    simp only [withTable, Graph.locate_withTable, Graph.size_withTable, Graph.access_withTable, map_bind]
    rfl

theorem gainField_withTable (target : NodeId) (offset : Offset) (s : Solver) (o : NodeId) :
    gainField target offset (s.withTable table family) o =
      (·.withTable table family) <$> gainField target offset s o := by
  unfold gainField
  rw [reach_withTable, bind_map_left, map_bind]
  congr 1
  funext reached
  obtain ⟨r, m⟩ := reached
  exact congrArg Except.ok (schedule_withTable { r with store := ((r.store.init m).add target m).1 } target _)

theorem processGep_overlooks (facts : PointeeSet) : Overlooks family (processGep facts) := by
  intro table s e
  unfold processGep
  rw [map_bind, withTable, Graph.edge_withTable]
  congr 1
  funext edge
  cases edge.kind with
  | gep offset =>
    -- letting the target wait after every fact makes the loop one over states alone
    exact (foldlM_sendField edge.target offset facts.toList (s.withTable table family) false).trans
      ((foldlM_commutes _ (gainField_withTable edge.target offset) facts.toList s).trans
        (congrArg _ (foldlM_sendField edge.target offset facts.toList s false).symm))
  | _ => rfl

theorem processTaking_eq (taking : Taking) (s : Solver) (n : NodeId) : s.processTaking taking n = s.process n := by
  unfold processTaking process
  simp only [(processCopy_overlooks _).walk_eq, (processLoad_overlooks _ (by decide : EdgeFamily.load ≠ .copy)).walk_eq,
    (processStore_overlooks _ (by decide : EdgeFamily.store ≠ .copy)).walk_eq, (processGep_overlooks _).walk_eq]

theorem drainTaking_eq (taking : Taking) (steps : Nat) (s : Solver) : drainTaking taking steps s = drain steps s := by
  induction steps generalizing s with
  | zero => rfl
  | succ steps ih =>
    unfold drainTaking drain
    cases s.queue.pop? with
    | none => rfl
    | some next => simp only [processTaking_eq, ih]

/-- A run does the same whether or not it takes the tables out of the graph while it walks them, and however it does. -/
theorem solveTaking_eq (s : Solver) (taking : Taking) : s.solveTaking taking = s.solve := by
  simp only [solveTaking, solve, drainTaking_eq]

end Solver

end PointsTo
