import PointsTo.Proofs.Graph.Location

namespace PointsTo.Graph

/-- The graphs that the operations on graphs can build, in whatever order they are called. -/
inductive Built : Graph → Prop
  | empty : Built .empty
  | value {g} (name : String) : Built g → Built (g.addValue name).1
  | object {g} (name : String) : Built g → Built (g.addObject name).1
  | array {g} (name : String) : Built g → Built (g.addArray name).1
  | function {g} (name : String) : Built g → Built (g.addFunction name).1
  | edge {g h edge e} : Built g → g.addEdge edge = .ok (h, e) → Built h
  | field {g h n k m} : Built g → g.field n k = .ok (h, m) → Built h
  | fieldLimit {g} (limit : Nat) : Built g → Built { g with fieldLimit := limit }
  | callSite {g} (label : String) (caller : Option FuncId) : Built g → Built (g.addCallSite label caller).1
  | indirectCall {g} (site : CallSiteId) (pointer : NodeId) : Built g → Built (g.addIndirectCall site pointer)

theorem node_eq_ok_iff {g : Graph} {n : NodeId} {node : Node} :
    g.node n = .ok node ↔ g.nodes[n]? = some node := by
  unfold Graph.node
  split <;> rename_i entry <;> simp [entry]

theorem lt_of_locate {g : Graph} {n : NodeId} {k : Nat} {found : FieldAccess}
    (located : g.locate n k = .ok found) : n < g.nodes.size := by
  unfold locate at located
  cases atNode : g.node n with
  | error fault => simp [atNode, bind, Except.bind] at located
  | ok node =>
    obtain ⟨bound, _⟩ := Array.getElem?_eq_some_iff.mp (node_eq_ok_iff.mp atNode)
    exact bound

theorem field_eq_ok {g h : Graph} {n m : NodeId} {k : Nat} (found : g.field n k = .ok (h, m)) :
    ∃ access, g.locate n k = .ok access ∧ g.access access = (h, m) := by
  unfold Graph.field at found
  cases located : g.locate n k with
  | error fault =>
    rw [located] at found
    cases found
  | ok access =>
    rw [located] at found
    exact ⟨access, rfl, Except.ok.inj found⟩

/-- An access leaves the graph as it is, or creates a field of an object below the limit that was missing. -/
theorem WellFormed.field_cases {g h : Graph} (wf : g.WellFormed) {n m : NodeId} {k : Nat}
    (found : g.field n k = .ok (h, m)) :
    h = g ∨ ∃ base offset, h = (g.addField base offset).1 ∧ g.kind? base = some .object ∧
      offset < g.fieldLimit ∧ g.fields[(base, offset)]? = none := by
  obtain ⟨access, located, result⟩ := field_eq_ok found
  obtain ⟨access', located', outcome⟩ := wf.locate_cases (lt_of_locate located) k
  have same : access' = access := Except.ok.inj (located'.symm.trans located)
  subst same
  rcases outcome with ⟨node, _, unchanged, _⟩ | ⟨base, offset, rfl, object, below, missing, _⟩
  · rw [unchanged] at result
    cases result
    exact Or.inl rfl
  · cases result
    exact Or.inr ⟨base, offset, rfl, object, below, missing⟩

theorem WellFormed.field {g h : Graph} (wf : g.WellFormed) {n m : NodeId} {k : Nat}
    (found : g.field n k = .ok (h, m)) : h.WellFormed := by
  rcases wf.field_cases found with rfl | ⟨base, offset, rfl, object, _, missing⟩
  · exact wf
  · exact wf.addField object missing

theorem Built.wellFormed {g : Graph} (built : g.Built) : g.WellFormed := by
  induction built with
  | empty => exact wellFormed_empty
  | value name _ ih => exact ih.push _ (by simp) (by simp)
  | object name _ ih => exact ih.push _ (by simp) (by simp)
  | array name _ ih => exact ih.push _ (by simp) (by simp)
  | function name _ ih => exact ih.addFunction name
  | edge _ added ih => exact ih.addEdge added
  | field _ found ih => exact ih.field found
  | fieldLimit limit _ ih =>
    exact ⟨ih.toEdgesFiled.of_eq rfl rfl rfl (Nat.le_refl _), ih.toNodesFiled.of_eq rfl rfl rfl⟩
  | callSite label caller _ ih =>
    exact ⟨ih.toEdgesFiled.of_eq rfl rfl rfl (Nat.le_refl _), ih.toNodesFiled.of_eq rfl rfl rfl⟩
  | indirectCall site pointer _ ih =>
    exact ⟨ih.toEdgesFiled.of_eq rfl rfl rfl (Nat.le_refl _), ih.toNodesFiled.of_eq rfl rfl rfl⟩

theorem Built.insertEdge {g : Graph} (built : g.Built) (edge : Edge) (source : edge.source < g.nodes.size)
    (target : edge.target < g.nodes.size) : (g.insertEdge edge).1.Built :=
  built.edge (addEdge_eq_ok_iff.mpr ⟨source, target, rfl⟩)

/-- A pointer `p` to an object `o` that is moved on to the next field again and again: `p = &o; p = &p->1`. -/
def fieldCycle : Graph :=
  let g := ((Graph.empty.addObject "o").1.addValue "p").1
  let g := (g.insertEdge ⟨0, 1, .addr⟩).1
  let g := (g.insertEdge ⟨1, 1, .gep (.constant 1)⟩).1
  { g with fieldLimit := 8 }

theorem edges_fieldCycle : fieldCycle.edges = #[⟨0, 1, .addr⟩, ⟨1, 1, .gep (.constant 1)⟩] := by
  decide +kernel

theorem built_fieldCycle : fieldCycle.Built := by
  have nodes := Built.value "p" (Built.object "o" .empty)
  have taken := nodes.insertEdge ⟨0, 1, .addr⟩ (by decide) (by decide)
  have moved := taken.insertEdge ⟨1, 1, .gep (.constant 1)⟩ (by decide) (by decide)
  exact moved.fieldLimit 8

/-- What solving may do to a graph. -/
structure Grown (g h : Graph) : Prop where
  nodes : ∀ (n : NodeId) node, g.nodes[n]? = some node → h.nodes[n]? = some node
  edges : ∀ (e : EdgeId) edge, g.edges[e]? = some edge → h.edges[e]? = some edge
  newNodes : ∀ n, g.nodes.size ≤ n → n < h.nodes.size → ∃ base offset,
    h.kind? n = some (.field base offset) ∧ g.kind? base = some .object ∧ offset < g.fieldLimit
  newEdges : ∀ edge ∈ h.edges, edge ∈ g.edges ∨ edge.kind = .copy
  fieldLimit : h.fieldLimit = g.fieldLimit
  addrEdges : h.addrEdges = g.addrEdges
  functions : h.functions = g.functions
  callSites : h.callSites = g.callSites
  indirectCalls : h.indirectCalls = g.indirectCalls

namespace Grown
variable {g h k : Graph}

theorem refl (g : Graph) : Grown g g where
  nodes _ _ := id
  edges _ _ := id
  newNodes _ lower upper := absurd upper (Nat.not_lt.mpr lower)
  newEdges _ := Or.inl
  fieldLimit := rfl
  addrEdges := rfl
  functions := rfl
  callSites := rfl
  indirectCalls := rfl

theorem kind? (grown : Grown g h) {n : NodeId} {kind : NodeKind} (known : g.kind? n = some kind) :
    h.kind? n = some kind := by
  obtain ⟨node, atNode, sameKind⟩ := Option.map_eq_some_iff.mp known
  rw [Graph.kind?, grown.nodes n node atNode]
  exact congrArg some sameKind

theorem size_le (grown : Grown g h) : g.nodes.size ≤ h.nodes.size := by
  by_cases empty : g.nodes.size = 0
  · omega
  · have last : g.nodes[g.nodes.size - 1]? = some g.nodes[g.nodes.size - 1] := by simp
    obtain ⟨bound, _⟩ := Array.getElem?_eq_some_iff.mp (grown.nodes _ _ last)
    omega

theorem kind?_eq (grown : Grown g h) {n : NodeId} (bound : n < g.nodes.size) : h.kind? n = g.kind? n := by
  have known : g.kind? n = some (g.nodes[n]).kind := by simp [Graph.kind?, bound]
  rw [known, grown.kind? known]

theorem object_iff (grown : Grown g h) {n : NodeId} :
    h.kind? n = some .object ↔ g.kind? n = some .object := by
  constructor
  · intro object
    by_cases old : n < g.nodes.size
    · rw [← grown.kind?_eq old]
      exact object
    · obtain ⟨base, offset, field, _⟩ := grown.newNodes n (Nat.not_lt.mp old) (lt_of_kind? object)
      rw [object] at field
      cases field
  · exact grown.kind?

theorem mem_edges (grown : Grown g h) {edge : Edge} (member : edge ∈ g.edges) : edge ∈ h.edges := by
  obtain ⟨e, found⟩ := Array.mem_iff_getElem?.mp member
  exact Array.mem_iff_getElem?.mpr ⟨e, grown.edges e edge found⟩

theorem trans (first : Grown g h) (second : Grown h k) : Grown g k where
  nodes n node atNode := second.nodes n node (first.nodes n node atNode)
  edges e edge found := second.edges e edge (first.edges e edge found)
  newNodes n lower upper := by
    by_cases old : n < h.nodes.size
    · obtain ⟨base, offset, field, object, below⟩ := first.newNodes n lower old
      exact ⟨base, offset, second.kind? field, object, below⟩
    · obtain ⟨base, offset, field, object, below⟩ := second.newNodes n (Nat.not_lt.mp old) upper
      exact ⟨base, offset, field, first.object_iff.mp object, first.fieldLimit ▸ below⟩
  newEdges edge member := by
    rcases second.newEdges edge member with old | copy
    · exact first.newEdges edge old
    · exact Or.inr copy
  fieldLimit := second.fieldLimit.trans first.fieldLimit
  addrEdges := second.addrEdges.trans first.addrEdges
  functions := second.functions.trans first.functions
  callSites := second.callSites.trans first.callSites
  indirectCalls := second.indirectCalls.trans first.indirectCalls

theorem location_eq (grown : Grown g h) {n : NodeId} (bound : n < g.nodes.size) : h.location n = g.location n := by
  rw [location, location, grown.kind?_eq bound]

theorem part_eq (grown : Grown g h) (p : Location) (offset : Nat) : h.part p offset = g.part p offset := by
  unfold part
  simp only [grown.object_iff, grown.fieldLimit]

theorem appendCopy (g : Graph) (source target : NodeId) : Grown g (g.appendEdge ⟨source, target, .copy⟩) where
  nodes n node atNode := by rw [nodes_appendEdge]; exact atNode
  edges e edge found := getElem?_edges_appendEdge.mpr (Or.inl found)
  newNodes n lower upper := by
    rw [nodes_appendEdge] at upper
    exact absurd upper (Nat.not_lt.mpr lower)
  newEdges edge member := by
    rcases mem_edges_appendEdge.mp member with old | new
    · exact Or.inl old
    · exact Or.inr (new ▸ rfl)
  fieldLimit := rfl
  addrEdges := rfl
  functions := rfl
  callSites := rfl
  indirectCalls := rfl

theorem addField {base : NodeId} {offset : Nat} (object : g.kind? base = some .object)
    (below : offset < g.fieldLimit) : Grown g (g.addField base offset).1 where
  nodes n node atNode := by
    obtain ⟨bound, _⟩ := Array.getElem?_eq_some_iff.mp atNode
    simp only [Graph.addField, Array.getElem?_push]
    rw [if_neg (Nat.ne_of_lt bound)]
    exact atNode
  edges _ _ := id
  newNodes n lower upper := by
    have last : n = g.nodes.size := by
      simp only [Graph.addField, Array.size_push] at upper
      exact Nat.le_antisymm (Nat.le_of_lt_succ upper) lower
    refine ⟨base, offset, ?_, object, below⟩
    rw [kind?_push (g := g) (h := (g.addField base offset).1) rfl, if_pos last]
  newEdges _ := Or.inl
  fieldLimit := rfl
  addrEdges := rfl
  functions := rfl
  callSites := rfl
  indirectCalls := rfl

end Grown

end PointsTo.Graph
