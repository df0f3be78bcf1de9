import PointsTo.Graph.Field
import PointsTo.Proofs.Entries

namespace PointsTo

namespace Incidence

private theorem mem_getD_alter {m : Std.TreeMap NodeId (Array EdgeId)} {e e' : EdgeId} {k n : NodeId} :
    e' ∈ (m.alter k fun es => some ((es.getD #[]).push e)).getD n #[] ↔
      e' ∈ m.getD n #[] ∨ e' = e ∧ n = k := by
  rw [getD_alter_push]
  by_cases same : n = k
  · rw [if_pos same, Array.mem_push]
    simp only [same, and_true]
  · rw [if_neg same]
    simp only [same, and_false, or_false]

theorem mem_outgoing_insert {t : Incidence} {e e' : EdgeId} {source target n : NodeId} :
    e' ∈ (t.insert e source target).outgoing n ↔ e' ∈ t.outgoing n ∨ e' = e ∧ n = source :=
  mem_getD_alter

theorem mem_incoming_insert {t : Incidence} {e e' : EdgeId} {source target n : NodeId} :
    e' ∈ (t.insert e source target).incoming n ↔ e' ∈ t.incoming n ∨ e' = e ∧ n = target :=
  mem_getD_alter

end Incidence

namespace Graph

/-- The kind of a node, if there is such a node. -/
def kind? (g : Graph) (n : NodeId) : Option NodeKind := (g.nodes[n]?).map (·.kind)

theorem lt_of_kind? {g : Graph} {n : NodeId} {kind : NodeKind} (known : g.kind? n = some kind) :
    n < g.nodes.size := by
  obtain ⟨node, atNode, _⟩ := Option.map_eq_some_iff.mp known
  obtain ⟨bound, _⟩ := Array.getElem?_eq_some_iff.mp atNode
  exact bound

theorem ne_size_of_kind? {g : Graph} {n : NodeId} {kind : NodeKind} (known : g.kind? n = some kind) :
    n ≠ g.nodes.size :=
  Nat.ne_of_lt (lt_of_kind? known)

theorem kind?_push {g h : Graph} {node : Node} (nodes : h.nodes = g.nodes.push node) (n : NodeId) :
    h.kind? n = if n = g.nodes.size then some node.kind else g.kind? n := by
  unfold kind?
  rw [nodes, Array.getElem?_push]
  split <;> rfl

/-- The tables of edges are in step with the edges. -/
structure EdgesFiled (g : Graph) : Prop where
  distinct : g.edges.toList.Nodup
  ends : ∀ edge ∈ g.edges, edge.source < g.nodes.size ∧ edge.target < g.nodes.size
  outgoing : ∀ family n e, e ∈ g.outgoing family n ↔
    ∃ edge, g.edges[e]? = some edge ∧ edge.kind.family = family ∧ edge.source = n
  incoming : ∀ family n e, e ∈ g.incoming family n ↔
    ∃ edge, g.edges[e]? = some edge ∧ edge.kind.family = family ∧ edge.target = n
  addresses : ∀ e, e ∈ g.addrEdges ↔ ∃ edge, g.edges[e]? = some edge ∧ edge.kind = .addr
  addressOrder : g.addrEdges.toList.Pairwise (· < ·)

/-- The tables of fields and functions are in step with the nodes. -/
structure NodesFiled (g : Graph) : Prop where
  fields : ∀ base offset n, g.fields[(base, offset)]? = some n ↔ g.kind? n = some (.field base offset)
  bases : ∀ n base offset, g.kind? n = some (.field base offset) → g.kind? base = some .object
  functions : ∀ f n, (g.functions[f]?).map (·.node) = some n ↔ g.kind? n = some (.function f)

structure WellFormed (g : Graph) : Prop extends g.EdgesFiled, g.NodesFiled

theorem wellFormed_empty : empty.WellFormed where
  distinct := by simp [empty]
  ends edge member := by simp [empty] at member
  outgoing family n e := by cases family <;> simp [empty, outgoing, incidence, Incidence.empty, Incidence.outgoing]
  incoming family n e := by cases family <;> simp [empty, incoming, incidence, Incidence.empty, Incidence.incoming]
  addresses e := by simp [empty]
  addressOrder := by simp [empty]
  fields base offset n := by simp [empty, kind?]
  bases n base offset known := by simp [empty, kind?] at known
  functions f n := by simp [empty, kind?]

theorem EdgesFiled.of_eq {g h : Graph} (filed : g.EdgesFiled) (edges : h.edges = g.edges)
    (incidence : h.incidence = g.incidence) (addresses : h.addrEdges = g.addrEdges)
    (nodes : g.nodes.size ≤ h.nodes.size) : h.EdgesFiled where
  distinct := by rw [edges]; exact filed.distinct
  ends edge member := by
    rw [edges] at member
    obtain ⟨source, target⟩ := filed.ends edge member
    exact ⟨Nat.lt_of_lt_of_le source nodes, Nat.lt_of_lt_of_le target nodes⟩
  outgoing family n e := by rw [edges, Graph.outgoing, incidence]; exact filed.outgoing family n e
  incoming family n e := by rw [edges, Graph.incoming, incidence]; exact filed.incoming family n e
  addresses e := by rw [edges, addresses]; exact filed.addresses e
  addressOrder := by rw [addresses]; exact filed.addressOrder

theorem NodesFiled.of_eq {g h : Graph} (filed : g.NodesFiled) (nodes : h.nodes = g.nodes)
    (fields : h.fields = g.fields) (functions : h.functions = g.functions) : h.NodesFiled where
  fields base offset n := by rw [fields, kind?, nodes]; exact filed.fields base offset n
  bases n base offset := by rw [kind?, kind?, nodes]; exact filed.bases n base offset
  functions f n := by rw [functions, kind?, nodes]; exact filed.functions f n

theorem kind?_size (g : Graph) : g.kind? g.nodes.size = none := by
  simp [kind?]

/-- A node that is neither a field nor a function needs no entry. -/
theorem NodesFiled.push {g h : Graph} (filed : g.NodesFiled) {node : Node} (nodes : h.nodes = g.nodes.push node)
    (fields : h.fields = g.fields) (functions : h.functions = g.functions)
    (field : ∀ base offset, node.kind ≠ .field base offset) (function : ∀ f, node.kind ≠ .function f) :
    h.NodesFiled where
  fields base offset n := by
    rw [fields, kind?_push nodes, filed.fields]
    split
    · rename_i new
      rw [new, kind?_size]
      simp [field base offset]
    · rfl
  bases n base offset known := by
    rw [kind?_push nodes] at known ⊢
    split at known
    · exact absurd (Option.some.inj known) (field base offset)
    · have object := filed.bases n base offset known
      rw [if_neg (ne_size_of_kind? object)]
      exact object
  functions f n := by
    rw [functions, kind?_push nodes, filed.functions]
    split
    · rename_i new
      rw [new, kind?_size]
      simp [function f]
    · rfl

theorem NodesFiled.addFunction {g : Graph} (filed : g.NodesFiled) (name : String) :
    (g.addFunction name).1.NodesFiled where
  fields base offset n := by
    rw [kind?_push (g := g) (h := (g.addFunction name).1) rfl]
    have old := filed.fields base offset n
    split
    · rename_i new
      rw [new, kind?_size] at old
      rw [new]
      simpa [Graph.addFunction] using old
    · exact old
  bases n base offset known := by
    rw [kind?_push (g := g) (h := (g.addFunction name).1) rfl] at known ⊢
    split at known
    · simp at known
    · have object := filed.bases n base offset known
      rw [if_neg (ne_size_of_kind? object)]
      exact object
  functions f n := by
    rw [kind?_push (g := g) (h := (g.addFunction name).1) rfl]
    have old := filed.functions f n
    simp only [Graph.addFunction, Array.getElem?_push]
    by_cases newFunction : f = g.functions.size
    · by_cases newNode : n = g.nodes.size
      · simp [newFunction, newNode]
      · have absent : g.kind? n ≠ some (.function f) := by
          intro known
          have entry := old.mpr known
          rw [newFunction] at entry
          simp at entry
        rw [if_pos newFunction, if_neg newNode]
        simpa [absent] using fun equal => newNode equal.symm
    · by_cases newNode : n = g.nodes.size
      · have absent : (g.functions[f]?).map (·.node) ≠ some n := by
          intro entry
          have known := old.mp entry
          rw [newNode, kind?_size] at known
          simp at known
        rw [if_neg newFunction, if_pos newNode]
        simpa [absent] using fun equal => newFunction equal.symm
      · rw [if_neg newFunction, if_neg newNode]
        exact old

theorem NodesFiled.addField {g : Graph} (filed : g.NodesFiled) {base : NodeId} {offset : Nat}
    (object : g.kind? base = some .object) (missing : g.fields[(base, offset)]? = none) :
    (g.addField base offset).1.NodesFiled where
  fields base' offset' n := by
    rw [kind?_push (g := g) (h := (g.addField base offset).1) rfl]
    have old := filed.fields base' offset' n
    simp only [Graph.addField, Std.TreeMap.getElem?_insert]
    by_cases here : (base, offset) = (base', offset')
    · rw [if_pos (Std.LawfulEqCmp.compare_eq_iff_eq.mpr here)]
      obtain ⟨rfl, rfl⟩ := Prod.mk.inj here
      by_cases newNode : n = g.nodes.size
      · simp [newNode]
      · rw [missing] at old
        rw [if_neg newNode, ← old]
        simpa using fun equal => newNode equal.symm
    · rw [if_neg (fun equal => here (Std.LawfulEqCmp.compare_eq_iff_eq.mp equal))]
      by_cases newNode : n = g.nodes.size
      · rw [newNode, kind?_size] at old
        rw [newNode, if_pos rfl, old]
        simpa using fun first second => here (by rw [first, second])
      · rw [if_neg newNode]
        exact old
  bases n base' offset' known := by
    rw [kind?_push (g := g) (h := (g.addField base offset).1) rfl] at known ⊢
    split at known
    · cases known
      rw [if_neg (ne_size_of_kind? object)]
      exact object
    · have known := filed.bases n base' offset' known
      rw [if_neg (ne_size_of_kind? known)]
      exact known
  functions f n := by
    rw [kind?_push (g := g) (h := (g.addField base offset).1) rfl]
    have old := filed.functions f n
    split
    · rename_i new
      rw [new, kind?_size] at old
      rw [new]
      simpa [Graph.addField] using old
    · exact old

theorem WellFormed.push {g : Graph} (wf : g.WellFormed) (node : Node)
    (field : ∀ base offset, node.kind ≠ .field base offset) (function : ∀ f, node.kind ≠ .function f) :
    (g.addNode node).1.WellFormed where
  toEdgesFiled := wf.toEdgesFiled.of_eq rfl rfl rfl (by simp [addNode])
  toNodesFiled := NodesFiled.push wf.toNodesFiled (h := (g.addNode node).1) rfl rfl rfl field function

theorem WellFormed.addFunction {g : Graph} (wf : g.WellFormed) (name : String) :
    (g.addFunction name).1.WellFormed where
  toEdgesFiled := wf.toEdgesFiled.of_eq rfl rfl rfl (by simp [Graph.addFunction])
  toNodesFiled := wf.toNodesFiled.addFunction name

theorem WellFormed.addField {g : Graph} (wf : g.WellFormed) {base : NodeId} {offset : Nat}
    (object : g.kind? base = some .object) (missing : g.fields[(base, offset)]? = none) :
    (g.addField base offset).1.WellFormed where
  toEdgesFiled := wf.toEdgesFiled.of_eq rfl rfl rfl (by simp [Graph.addField])
  toNodesFiled := wf.toNodesFiled.addField object missing

section appendEdge
variable (g : Graph) (edge : Edge)

@[simp] theorem nodes_appendEdge : (g.appendEdge edge).nodes = g.nodes := by
  unfold appendEdge
  split <;> rfl

@[simp] theorem edges_appendEdge : (g.appendEdge edge).edges = g.edges.push edge := by
  unfold appendEdge
  split <;> rfl

@[simp] theorem fields_appendEdge : (g.appendEdge edge).fields = g.fields := by
  unfold appendEdge
  split <;> rfl

@[simp] theorem fieldLimit_appendEdge : (g.appendEdge edge).fieldLimit = g.fieldLimit := by
  unfold appendEdge
  split <;> rfl

@[simp] theorem functions_appendEdge : (g.appendEdge edge).functions = g.functions := by
  unfold appendEdge
  split <;> rfl

theorem addrEdges_appendEdge : (g.appendEdge edge).addrEdges =
    if edge.kind = .addr then g.addrEdges.push g.edges.size else g.addrEdges := by
  unfold appendEdge
  split <;> rename_i kind <;> simp [kind]

theorem incidence_appendEdge (family : EdgeFamily) : (g.appendEdge edge).incidence family =
    if family = edge.kind.family then (g.incidence family).insert g.edges.size edge.source edge.target
    else g.incidence family := by
  unfold appendEdge
  split <;> rename_i kind <;> cases family <;> simp [kind, incidence, EdgeKind.family]

end appendEdge

theorem getElem?_edges_appendEdge {g : Graph} {edge edge' : Edge} {e : EdgeId} :
    (g.appendEdge edge).edges[e]? = some edge' ↔
      g.edges[e]? = some edge' ∨ e = g.edges.size ∧ edge' = edge := by
  rw [edges_appendEdge, Array.getElem?_push]
  by_cases new : e = g.edges.size
  · subst new
    simp [eq_comm]
  · simp [new]

theorem exists_found_appendEdge {g : Graph} {edge : Edge} {e : EdgeId} {P : Edge → Prop} :
    (∃ edge', (g.appendEdge edge).edges[e]? = some edge' ∧ P edge') ↔
      (∃ edge', g.edges[e]? = some edge' ∧ P edge') ∨ e = g.edges.size ∧ P edge := by
  simp only [getElem?_edges_appendEdge]
  constructor
  · rintro ⟨edge', found | ⟨place, rfl⟩, rest⟩
    · exact Or.inl ⟨edge', found, rest⟩
    · exact Or.inr ⟨place, rest⟩
  · rintro (⟨edge', found, rest⟩ | ⟨place, rest⟩)
    · exact ⟨edge', Or.inl found, rest⟩
    · exact ⟨edge, Or.inr ⟨place, rfl⟩, rest⟩

theorem mem_edges_appendEdge {g : Graph} {edge edge' : Edge} :
    edge' ∈ (g.appendEdge edge).edges ↔ edge' ∈ g.edges ∨ edge' = edge := by
  rw [edges_appendEdge, Array.mem_push]

theorem mem_outgoing_appendEdge {g : Graph} {edge : Edge} {family : EdgeFamily} {n : NodeId} {e : EdgeId} :
    e ∈ (g.appendEdge edge).outgoing family n ↔
      e ∈ g.outgoing family n ∨ e = g.edges.size ∧ edge.kind.family = family ∧ edge.source = n := by
  unfold Graph.outgoing
  rw [incidence_appendEdge]
  split
  · rename_i same
    rw [Array.mem_toList_iff, Array.mem_toList_iff, Incidence.mem_outgoing_insert]
    simp [same, eq_comm]
  · rename_i other
    simp [eq_comm (b := family), other]

theorem mem_incoming_appendEdge {g : Graph} {edge : Edge} {family : EdgeFamily} {n : NodeId} {e : EdgeId} :
    e ∈ (g.appendEdge edge).incoming family n ↔
      e ∈ g.incoming family n ∨ e = g.edges.size ∧ edge.kind.family = family ∧ edge.target = n := by
  unfold Graph.incoming
  rw [incidence_appendEdge]
  split
  · rename_i same
    rw [Array.mem_toList_iff, Array.mem_toList_iff, Incidence.mem_incoming_insert]
    simp [same, eq_comm]
  · rename_i other
    simp [eq_comm (b := family), other]

theorem mem_addrEdges_appendEdge {g : Graph} {edge : Edge} {e : EdgeId} :
    e ∈ (g.appendEdge edge).addrEdges ↔ e ∈ g.addrEdges ∨ e = g.edges.size ∧ edge.kind = .addr := by
  rw [addrEdges_appendEdge]
  split
  · rename_i address
    simp [address]
  · rename_i other
    simp [other]

theorem EdgesFiled.lt_of_mem_addrEdges {g : Graph} (filed : g.EdgesFiled) {e : EdgeId} (listed : e ∈ g.addrEdges) :
    e < g.edges.size := by
  obtain ⟨edge, found, _⟩ := (filed.addresses e).mp listed
  obtain ⟨bound, _⟩ := Array.getElem?_eq_some_iff.mp found
  exact bound

theorem EdgesFiled.appendEdge {g : Graph} (filed : g.EdgesFiled) {edge : Edge} (new : edge ∉ g.edges)
    (source : edge.source < g.nodes.size) (target : edge.target < g.nodes.size) :
    (g.appendEdge edge).EdgesFiled where
  distinct := by
    rw [edges_appendEdge, Array.toList_push, List.nodup_append]
    refine ⟨filed.distinct, by simp, ?_⟩
    intro old member last same equal
    rw [List.mem_singleton.mp same] at equal
    exact new (equal ▸ Array.mem_toList_iff.mp member)
  ends edge' member := by
    rw [nodes_appendEdge]
    rcases mem_edges_appendEdge.mp member with old | same
    · exact filed.ends edge' old
    · exact same ▸ ⟨source, target⟩
  outgoing family n e := by rw [mem_outgoing_appendEdge, filed.outgoing, exists_found_appendEdge]
  incoming family n e := by rw [mem_incoming_appendEdge, filed.incoming, exists_found_appendEdge]
  addresses e := by rw [mem_addrEdges_appendEdge, filed.addresses, exists_found_appendEdge]
  addressOrder := by
    rw [addrEdges_appendEdge]
    split
    · rw [Array.toList_push, List.pairwise_append]
      refine ⟨filed.addressOrder, by simp, ?_⟩
      intro old listed last same
      rw [List.mem_singleton.mp same]
      exact filed.lt_of_mem_addrEdges (Array.mem_toList_iff.mp listed)
    · exact filed.addressOrder

theorem EdgesFiled.containsEdge_iff {g : Graph} (filed : g.EdgesFiled) {edge : Edge} :
    g.containsEdge edge = true ↔ edge ∈ g.edges := by
  unfold containsEdge
  rw [List.any_eq_true, Array.mem_iff_getElem?]
  constructor
  · rintro ⟨e, _, found⟩
    exact ⟨e, by simpa using found⟩
  · rintro ⟨e, found⟩
    exact ⟨e, (filed.outgoing _ _ e).mpr ⟨edge, found, rfl, rfl⟩, by simpa using found⟩

theorem WellFormed.appendEdge {g : Graph} (wf : g.WellFormed) {edge : Edge} (new : edge ∉ g.edges)
    (source : edge.source < g.nodes.size) (target : edge.target < g.nodes.size) :
    (g.appendEdge edge).WellFormed where
  toEdgesFiled := wf.toEdgesFiled.appendEdge new source target
  toNodesFiled := wf.toNodesFiled.of_eq (nodes_appendEdge g edge) (fields_appendEdge g edge) (functions_appendEdge g edge)

theorem WellFormed.insertEdge_of_mem {g : Graph} (wf : g.WellFormed) {edge : Edge} (old : edge ∈ g.edges) :
    g.insertEdge edge = (g, none) := by
  rw [insertEdge, if_pos (wf.containsEdge_iff.mpr old)]

theorem WellFormed.insertEdge_of_not_mem {g : Graph} (wf : g.WellFormed) {edge : Edge} (new : edge ∉ g.edges) :
    g.insertEdge edge = (g.appendEdge edge, some g.edges.size) := by
  rw [insertEdge, if_neg (fun present => new (wf.containsEdge_iff.mp present))]

theorem addEdge_eq_ok_iff {g : Graph} {edge : Edge} {result : Graph × Option EdgeId} :
    g.addEdge edge = .ok result ↔
      edge.source < g.nodes.size ∧ edge.target < g.nodes.size ∧ g.insertEdge edge = result := by
  unfold addEdge
  split
  · rename_i outside
    simp [Nat.not_lt.mpr outside]
  · rename_i source
    split
    · rename_i outside
      simp [Nat.not_lt.mpr outside]
    · rename_i target
      simp [Nat.not_le.mp source, Nat.not_le.mp target]

theorem WellFormed.addEdge {g h : Graph} (wf : g.WellFormed) {edge : Edge} {e : Option EdgeId}
    (added : g.addEdge edge = .ok (h, e)) : h.WellFormed := by
  obtain ⟨source, target, inserted⟩ := addEdge_eq_ok_iff.mp added
  by_cases old : edge ∈ g.edges
  · rw [wf.insertEdge_of_mem old] at inserted
    cases inserted
    exact wf
  · rw [wf.insertEdge_of_not_mem old] at inserted
    cases inserted
    exact wf.appendEdge old source target

end Graph

end PointsTo
