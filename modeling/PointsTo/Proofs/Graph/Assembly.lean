import PointsTo.Proofs.Graph.Growth

namespace PointsTo.Graph

theorem kind?_of_nodes_eq {g h : Graph} (nodes : h.nodes = g.nodes) (n : NodeId) : h.kind? n = g.kind? n := by
  rw [kind?, kind?, nodes]

theorem location_of_nodes_eq {g h : Graph} (nodes : h.nodes = g.nodes) (n : NodeId) :
    h.location n = g.location n := by
  rw [location, location, kind?_of_nodes_eq nodes]

/-- No field has been created yet. -/
def Plain (g : Graph) : Prop := ∀ n base offset, g.kind? n ≠ some (.field base offset)

theorem Plain.location {g : Graph} (plain : g.Plain) (n : NodeId) : g.location n = .node n :=
  location_of_not_field (plain n)

theorem plain_empty : empty.Plain := by
  intro n base offset
  simp [empty, kind?]

theorem Plain.of_nodes_eq {g h : Graph} (plain : g.Plain) (nodes : h.nodes = g.nodes) : h.Plain := by
  intro n base offset
  rw [kind?_of_nodes_eq nodes]
  exact plain n base offset

theorem Plain.push {g h : Graph} (plain : g.Plain) {node : Node} (nodes : h.nodes = g.nodes.push node)
    (other : ∀ base offset, node.kind ≠ .field base offset) : h.Plain := by
  intro n base offset
  rw [kind?_push nodes]
  split
  · exact fun same => other base offset (Option.some.inj same)
  · exact plain n base offset

theorem Plain.addValue {g : Graph} (plain : g.Plain) (name : String) : (g.addValue name).1.Plain :=
  plain.push rfl (by simp)

theorem Plain.addObject {g : Graph} (plain : g.Plain) (name : String) : (g.addObject name).1.Plain :=
  plain.push rfl (by simp)

theorem Plain.addArray {g : Graph} (plain : g.Plain) (name : String) : (g.addArray name).1.Plain :=
  plain.push rfl (by simp)

theorem Plain.addFunction {g : Graph} (plain : g.Plain) (name : String) : (g.addFunction name).1.Plain :=
  plain.push rfl (by simp)

/-- Adds edges between nodes of the graph, one after the other. -/
def insertEdges (g : Graph) (edges : List Edge) : Graph := edges.foldl (fun g edge => (g.insertEdge edge).1) g

theorem nodes_insertEdge (g : Graph) (edge : Edge) : (g.insertEdge edge).1.nodes = g.nodes := by
  unfold insertEdge
  split
  · rfl
  · exact nodes_appendEdge ..

theorem nodes_insertEdges (g : Graph) (edges : List Edge) : (g.insertEdges edges).nodes = g.nodes := by
  induction edges generalizing g with
  | nil => rfl
  | cons edge edges ih => exact (ih _).trans (nodes_insertEdge g edge)

theorem WellFormed.mem_edges_insertEdge {g : Graph} (wf : g.WellFormed) {edge new : Edge} :
    edge ∈ (g.insertEdge new).1.edges ↔ edge ∈ g.edges ∨ edge = new := by
  by_cases old : new ∈ g.edges
  · rw [wf.insertEdge_of_mem old]
    exact ⟨Or.inl, fun known => known.elim id fun same => same ▸ old⟩
  · rw [wf.insertEdge_of_not_mem old]
    exact mem_edges_appendEdge

section assembly
variable {g : Graph} {edges : List Edge} (built : g.Built)
  (ends : ∀ edge ∈ edges, edge.source < g.nodes.size ∧ edge.target < g.nodes.size)

include built ends

theorem Built.insertEdges : (g.insertEdges edges).Built := by
  induction edges generalizing g with
  | nil => exact built
  | cons edge edges ih =>
    obtain ⟨source, target⟩ := ends edge List.mem_cons_self
    apply ih (built.insertEdge edge source target)
    rw [nodes_insertEdge]
    exact fun later member => ends later (List.mem_cons_of_mem _ member)

theorem Built.mem_edges_insertEdges {edge : Edge} :
    edge ∈ (g.insertEdges edges).edges ↔ edge ∈ g.edges ∨ edge ∈ edges := by
  induction edges generalizing g with
  | nil => simp [Graph.insertEdges]
  | cons new edges ih =>
    obtain ⟨source, target⟩ := ends new List.mem_cons_self
    have rest := ih (built.insertEdge new source target) (by
      rw [nodes_insertEdge]
      exact fun later member => ends later (List.mem_cons_of_mem _ member))
    rw [Graph.insertEdges, List.foldl_cons, ← Graph.insertEdges, rest, built.wellFormed.mem_edges_insertEdge,
      List.mem_cons, or_assoc]

end assembly

/-- An object `o` and a function `f`, with the numbers 0 and 1, and pointers `p`, `x`, `y`, `q`, `r`, with 2 to 6. -/
def callbackNodes : Graph :=
  let g := ((Graph.empty.addObject "o").1.addFunction "f").1
  let g := ((g.addValue "p").1.addValue "x").1
  let g := ((g.addValue "y").1.addValue "q").1
  (g.addValue "r").1

theorem built_callbackNodes : callbackNodes.Built := by
  have objects := Built.function "f" (Built.object "o" .empty)
  have pointers := Built.value "x" (Built.value "p" objects)
  exact Built.value "r" (Built.value "q" (Built.value "y" pointers))

theorem plain_callbackNodes : callbackNodes.Plain := by
  have objects := (plain_empty.addObject "o").addFunction "f"
  have pointers := (objects.addValue "p").addValue "x"
  exact ((pointers.addValue "y").addValue "q").addValue "r"

/-- The same with edges between them. -/
def callback (edges : List Edge) : Graph := callbackNodes.insertEdges edges

theorem size_callback (edges : List Edge) : (callback edges).nodes.size = 7 := by
  rw [callback, nodes_insertEdges]
  rfl

theorem plain_callback (edges : List Edge) : (callback edges).Plain :=
  plain_callbackNodes.of_nodes_eq (nodes_insertEdges ..)

section callback
variable {edges : List Edge} (ends : ∀ edge ∈ edges, edge.source < 7 ∧ edge.target < 7)

include ends

theorem built_callback : (callback edges).Built := built_callbackNodes.insertEdges ends

theorem mem_edges_callback {edge : Edge} : edge ∈ (callback edges).edges ↔ edge ∈ edges := by
  have none : edge ∉ callbackNodes.edges := by simp [callbackNodes, addValue, addObject, addFunction, addNode, empty]
  rw [callback, built_callbackNodes.mem_edges_insertEdges ends]
  simp [none]

end callback

/-- Two fields of `o`, of which one takes `f` in and gives it out again: `x = &p->1; y = &p->2; *x = q; r = *x`. -/
def twoFields : List Edge :=
  [⟨0, 2, .addr⟩, ⟨2, 3, .gep (.constant 1)⟩, ⟨2, 4, .gep (.constant 2)⟩, ⟨1, 5, .addr⟩, ⟨5, 3, .store⟩, ⟨3, 6, .load⟩]

theorem twoFields_ends : ∀ edge ∈ twoFields, edge.source < 7 ∧ edge.target < 7 := by decide

/-- Fields that come to be one after the other, without addresses yet: `x = &p->1; y = &x->1; r = &q->5; *y = r`. -/
def threeAccesses : List Edge :=
  [⟨2, 3, .gep (.constant 1)⟩, ⟨3, 4, .gep (.constant 1)⟩, ⟨5, 6, .gep (.constant 5)⟩, ⟨6, 4, .store⟩]

theorem threeAccesses_ends : ∀ edge ∈ threeAccesses, edge.source < 7 ∧ edge.target < 7 := by decide

end PointsTo.Graph
