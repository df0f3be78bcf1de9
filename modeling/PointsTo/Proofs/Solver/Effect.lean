import PointsTo.Proofs.Graph.FieldNames
import PointsTo.Proofs.Solver.Outcome

namespace PointsTo

namespace Graph

/-- The nodes of `h` behind those of `g`. -/
def newNodes (g h : Graph) : List Node := h.nodes.toList.drop g.nodes.size

/-- The edges of `h` behind those of `g`. -/
def newEdges (g h : Graph) : List Edge := h.edges.toList.drop g.edges.size

theorem toList_append_drop {α : Type} {xs ys : Array α}
    (kept : ∀ (i : Nat) x, xs[i]? = some x → ys[i]? = some x) : ys.toList = xs.toList ++ ys.toList.drop xs.size := by
  have start : xs.toList <+: ys.toList := by
    rw [List.prefix_iff_getElem?]
    intro i bound
    rw [Array.getElem?_toList]
    exact kept i _ (by rw [← Array.getElem?_toList, List.getElem?_eq_getElem bound])
  exact (List.prefix_iff_eq_append.mp start).symm

theorem mem_newNodes {g h : Graph} {node : Node} :
    node ∈ g.newNodes h ↔ ∃ n, g.nodes.size ≤ n ∧ h.nodes[n]? = some node := by
  rw [newNodes, List.mem_iff_getElem?]
  simp only [List.getElem?_drop, Array.getElem?_toList]
  constructor
  · rintro ⟨i, atI⟩
    exact ⟨g.nodes.size + i, Nat.le_add_right .., atI⟩
  · rintro ⟨n, lower, atN⟩
    exact ⟨n - g.nodes.size, by rw [Nat.add_sub_cancel' lower]; exact atN⟩

namespace Grown
variable {g h : Graph} (grown : Grown g h)

include grown

theorem nodes_append : h.nodes.toList = g.nodes.toList ++ g.newNodes h := toList_append_drop grown.nodes

theorem edges_append : h.edges.toList = g.edges.toList ++ g.newEdges h := toList_append_drop grown.edges

theorem edges_size_le : g.edges.size ≤ h.edges.size := by
  have length := congrArg List.length grown.edges_append
  rw [List.length_append, Array.length_toList, Array.length_toList] at length
  omega

theorem mem_newEdges (wf : h.WellFormed) {edge : Edge} :
    edge ∈ g.newEdges h ↔ edge ∈ h.edges ∧ edge ∉ g.edges := by
  have distinct := wf.distinct
  rw [grown.edges_append, List.nodup_append] at distinct
  rw [← Array.mem_toList_iff, ← Array.mem_toList_iff, grown.edges_append, List.mem_append]
  constructor
  · exact fun new => ⟨Or.inr new, fun old => distinct.2.2 edge old edge new rfl⟩
  · exact fun ⟨member, new⟩ => member.resolve_left new

theorem nodup_newEdges (wf : h.WellFormed) : (g.newEdges h).Nodup := by
  have distinct := wf.distinct
  rw [grown.edges_append, List.nodup_append] at distinct
  exact distinct.2.1

/-- New nodes are fields, and no two fields are alike. -/
theorem nodup_newNodes (wf : h.WellFormed) : (g.newNodes h).Nodup := by
  rw [Graph.newNodes, List.Nodup, List.pairwise_iff_getElem]
  intro i j boundI boundJ less same
  simp only [List.length_drop, Array.length_toList] at boundI boundJ
  simp only [List.getElem_drop, Array.getElem_toList] at same
  obtain ⟨base, k, field, _⟩ := grown.newNodes (g.nodes.size + i) (Nat.le_add_right ..) (by omega)
  have kinds : h.kind? (g.nodes.size + j) = h.kind? (g.nodes.size + i) := by
    rw [Graph.kind?, Graph.kind?, Array.getElem?_eq_getElem (by omega), Array.getElem?_eq_getElem (by omega), same]
  have numbers := wf.location_injective
    ((location_of_field (kinds.trans field)).trans (location_of_field field).symm)
  exact absurd (Nat.add_left_cancel numbers) (Nat.ne_of_gt less)

/-- A new node is called after an object that was there. -/
theorem exists_base (named : h.FieldsNamed) {node : Node} (new : node ∈ g.newNodes h) :
    ∃ (base : NodeId) (k : Nat) (object : Node), g.nodes[base]? = some object ∧ object.kind = .object ∧
      node = ⟨fieldName object.name k, .field base k⟩ := by
  obtain ⟨n, lower, atN⟩ := mem_newNodes.mp new
  obtain ⟨bound, _⟩ := Array.getElem?_eq_some_iff.mp atN
  obtain ⟨base, k, field, objectKind, _⟩ := grown.newNodes n lower bound
  obtain ⟨object, atBase, kind⟩ := Option.map_eq_some_iff.mp objectKind
  obtain ⟨name, _⟩ := node
  rw [Graph.kind?, atN] at field
  cases field
  obtain ⟨entry, atEntry, rfl⟩ := named n name base k atN
  cases (grown.nodes base object atBase).symm.trans atEntry
  exact ⟨base, k, object, atBase, kind, rfl⟩

end Grown

end Graph

namespace Solver

theorem schedule_copyEdges (s : Solver) (n : NodeId) (grew : Bool) : (s.schedule n grew).copyEdges = s.copyEdges := by
  unfold schedule
  split <;> rfl

/-- An access creates at most a field, and counts nothing. -/
theorem reach_outcome {s r : Solver} {offset : Offset} {o m : NodeId} (run : s.reach offset o = .ok (r, m)) :
    r.copyEdges = s.copyEdges ∧ (r.graph = s.graph ∨ ∃ k, s.graph.field o k = .ok (r.graph, m)) := by
  cases offset with
  | variant =>
    cases run
    exact ⟨rfl, Or.inl rfl⟩
  | constant k =>
    rw [reach_constant] at run
    cases located : s.graph.locate o k with
    | error fault =>
      rw [located] at run
      cases run
    | ok found =>
      rw [located] at run
      cases run
      refine ⟨rfl, Or.inr ⟨k, ?_⟩⟩
      rw [Graph.field, located]
      rfl

/-- Copy edges are counted as they are added, and no other edges are. -/
theorem Step.edges_size {s t : Solver} (step : s.Step t) (valid : s.Valid) :
    t.graph.edges.size + s.copyEdges = s.graph.edges.size + t.copyEdges := by
  cases step with
  | seed _ _ => rw [gain_graph, gain, schedule_copyEdges]
  | record _ => rfl
  | settle _ => rfl
  | infer step =>
    cases step with
    | copy _ _ => rw [send_graph, send, schedule_copyEdges]
    | @link a b _ _ =>
      have counted : ((s.linked a b).send b (s.store.get a)).copyEdges = s.copyEdges + 1 := schedule_copyEdges ..
      rw [send_graph, counted, linked, Graph.edges_appendEdge, Array.size_push]
      omega
    | access _ settled run =>
      have edges := (valid.reaches (valid.settled_lt settled) run).edges
      rw [gain_graph, edges, gain, schedule_copyEdges]
      exact congrArg _ (reach_outcome run).1.symm

theorem Step.built {s t : Solver} (valid : s.Valid) (step : s.Step t) (built : s.graph.Built) : t.graph.Built := by
  cases step with
  | seed _ _ => rw [gain_graph]; exact built
  | record _ => exact built
  | settle _ => exact built
  | infer step =>
    cases step with
    | copy _ _ => rw [send_graph]; exact built
    | @link a b demand new =>
      obtain ⟨source, target⟩ := valid.demands_lt demand
      have linked := built.insertEdge ⟨a, b, .copy⟩ source target
      rw [valid.graph.insertEdge_of_not_mem new] at linked
      rw [send_graph]
      exact linked
    | access _ _ run =>
      rw [gain_graph]
      rcases (reach_outcome run).2 with same | ⟨k, found⟩
      · exact same ▸ built
      · exact built.field found

/-- A load or a store of `g` through a fact of the state asks for a copy edge from `a` to `b`. -/
def AsksCopy (s : Solver) (g : Graph) (a b : NodeId) : Prop :=
  (∃ p, ⟨p, b, .load⟩ ∈ g.edges ∧ a ∈ s.store.get p) ∨ ∃ p, ⟨a, p, .store⟩ ∈ g.edges ∧ b ∈ s.store.get p

/-- An access of `g` at a constant offset, to a fact of the state, asks for the field of `base` at `k`. -/
def AsksField (s : Solver) (g : Graph) (base : NodeId) (k : Nat) : Prop :=
  ∃ p x j o, ⟨p, x, .gep (.constant j)⟩ ∈ g.edges ∧ o ∈ s.store.get p ∧
    s.graph.part (s.graph.location o) j = .field base k

theorem Stable.mem_edges_of_asks {s : Solver} (stable : s.Stable) {g : Graph}
    (kept : ∀ edge ∈ g.edges, edge ∈ s.graph.edges) {a b : NodeId} (asks : s.AsksCopy g a b) :
    ⟨a, b, .copy⟩ ∈ s.graph.edges := by
  rcases asks with ⟨p, edge, fact⟩ | ⟨p, edge, fact⟩
  · exact stable.met (kept _ edge) fact
  · exact stable.met (kept _ edge) fact

namespace Analyzed
variable {g : Graph} {limit : Nat} {t : Solver} (done : Analyzed g limit t) (built : g.Built)

include done

include built in
theorem steps : ((ofGraph g).prepare limit).Steps t := by
  obtain ⟨t', run, steps, _⟩ := analyze_run built limit
  cases run.symm.trans done.run
  exact steps

include built in
theorem built_graph : t.graph.Built :=
  (done.steps built).keeps_prepare built (P := fun t => t.graph.Built) (fun _ _ valid step => step.built valid)
    (built.fieldLimit limit)

include built in
theorem edges_size : t.graph.edges.size = g.edges.size + t.copyEdges := by
  refine (done.steps built).keeps_prepare built (P := fun t => t.graph.edges.size = g.edges.size + t.copyEdges) ?_ rfl
  intro s t valid step before
  have balance := step.edges_size valid
  omega

include built in
theorem asks_of_derivesCopy {a b : NodeId}
    (derived : { g with fieldLimit := limit }.DerivesCopy (t.graph.location a) (t.graph.location b)) :
    t.AsksCopy g a b := by
  have injective := done.stable.graph.location_injective
  rcases derived with ⟨p, r, edge, base, same⟩ | ⟨q, p, edge, base, same⟩
  · obtain ⟨boundP, boundR⟩ := built.wellFormed.ends _ edge
    have target : b = r := injective (same.trans (done.location boundR).symm)
    refine Or.inl ⟨p, target ▸ edge, done.mem_get_iff.mpr ?_⟩
    rw [done.location boundP]
    exact base
  · obtain ⟨boundQ, boundP⟩ := built.wellFormed.ends _ edge
    have source : a = q := injective (same.trans (done.location boundQ).symm)
    refine Or.inr ⟨p, source ▸ edge, done.mem_get_iff.mpr ?_⟩
    rw [done.location boundP]
    exact base

include built in
/-- The new edges are the copies that are asked for and were not there. -/
theorem mem_newEdges {edge : Edge} : edge ∈ g.newEdges t.graph ↔
    edge.kind = .copy ∧ t.AsksCopy g edge.source edge.target ∧ edge ∉ g.edges := by
  have new : edge ∈ g.newEdges t.graph ↔ edge ∈ t.graph.edges ∧ edge ∉ g.edges :=
    done.grown.mem_newEdges done.stable.graph
  rw [new]
  constructor
  · rintro ⟨member, absent⟩
    rcases (done.exact.edges _ _ _).mp ⟨edge, member, rfl, rfl, rfl⟩ with ⟨old, known, source, target, kind⟩ | ⟨copy, derived⟩
    · obtain ⟨boundS, boundT⟩ := built.wellFormed.ends old known
      have sameS := done.stable.graph.location_injective ((done.location boundS).trans source)
      have sameT := done.stable.graph.location_injective ((done.location boundT).trans target)
      have same : old = edge := by
        cases old
        cases edge
        simp_all
      exact absurd (same ▸ known) absent
    · exact ⟨copy, done.asks_of_derivesCopy built derived, absent⟩
  · rintro ⟨copy, asks, absent⟩
    have member := done.stable.mem_edges_of_asks (fun _ => done.mem_edges) asks
    rw [← copy] at member
    exact ⟨member, absent⟩

include built in
theorem asks_of_derivesPart {base : NodeId} {k : Nat}
    (derived : { g with fieldLimit := limit }.DerivesPart (.field base k)) : t.AsksField g base k := by
  obtain ⟨p, x, j, o, edge, fact, same⟩ := derived
  obtain ⟨y, member, rfl⟩ := done.exists_mem (built.wellFormed.ends _ edge).1 fact
  exact ⟨p, x, j, y, edge, member, (done.grown.part_eq _ _).trans same.symm⟩

include built in
/-- A field is new if and only if it is asked for and was not there. -/
theorem new_field_iff {base : NodeId} {k : Nat} :
    (∃ n, g.nodes.size ≤ n ∧ t.graph.kind? n = some (.field base k)) ↔
      t.AsksField g base k ∧ ∀ n, g.kind? n ≠ some (.field base k) := by
  constructor
  · rintro ⟨n, lower, field⟩
    have absent : ∀ m, g.kind? m ≠ some (.field base k) := by
      intro m known
      have kept : t.graph.kind? m = some (.field base k) := done.grown.kind? known
      have same := done.stable.graph.location_injective
        ((Graph.location_of_field kept).trans (Graph.location_of_field field).symm)
      exact absurd (Graph.lt_of_kind? known) (Nat.not_lt.mpr (same ▸ lower))
    rcases (done.exact.nodes _).mp ⟨n, Graph.lt_of_kind? field, Graph.location_of_field field⟩ with old | derived
    · obtain ⟨m, _, here⟩ := old
      exact absurd (Graph.kind?_of_location here) (absent m)
    · exact ⟨done.asks_of_derivesPart built derived, absent⟩
  · rintro ⟨⟨p, x, j, o, edge, fact, part⟩, absent⟩
    obtain ⟨m, _, here, _⟩ := done.satisfied _ (done.mem_edges edge) o fact
    have field := Graph.kind?_of_location (here.trans part)
    refine ⟨m, Nat.not_lt.mp fun old => absent m ?_, field⟩
    exact (done.grown.kind?_eq old).symm.trans field

include built in
/-- The new nodes are these fields, with the names of fields. -/
theorem mem_newNodes {node : Node} : node ∈ g.newNodes t.graph ↔
    ∃ base k object, g.nodes[base]? = some object ∧ node = ⟨fieldName object.name k, .field base k⟩ ∧
      t.AsksField g base k ∧ ∀ n, g.kind? n ≠ some (.field base k) := by
  have named := (done.built_graph built).fieldsNamed
  constructor
  · intro new
    obtain ⟨base, k, object, atBase, _, rfl⟩ := done.grown.exists_base named new
    obtain ⟨n, lower, atN⟩ := Graph.mem_newNodes.mp new
    have field : t.graph.kind? n = some (.field base k) := by rw [Graph.kind?, atN]; rfl
    exact ⟨base, k, object, atBase, rfl, (done.new_field_iff built).mp ⟨n, lower, field⟩⟩
  · rintro ⟨base, k, object, atBase, rfl, asked⟩
    obtain ⟨n, lower, field⟩ := (done.new_field_iff built).mpr asked
    refine Graph.mem_newNodes.mpr ⟨n, lower, ?_⟩
    obtain ⟨⟨name, kind⟩, atN, sameKind⟩ := Option.map_eq_some_iff.mp field
    cases sameKind
    obtain ⟨entry, atEntry, rfl⟩ := named n name base k atN
    have same : t.graph.nodes[base]? = some object := done.grown.nodes base object atBase
    cases same.symm.trans atEntry
    exact atN

end Analyzed

/-- The state has the graph `g`, with every number as it was, and behind it what the loads, stores and accesses of `g`
ask for, each item once. -/
structure Extends (t : Solver) (g : Graph) : Prop where
  nodes : t.graph.nodes.toList = g.nodes.toList ++ g.newNodes t.graph
  edges : t.graph.edges.toList = g.edges.toList ++ g.newEdges t.graph
  functions : t.graph.functions = g.functions
  callSites : t.graph.callSites = g.callSites
  indirectCalls : t.graph.indirectCalls = g.indirectCalls
  addrEdges : t.graph.addrEdges = g.addrEdges
  distinctEdges : (g.newEdges t.graph).Nodup
  newEdges : ∀ edge, edge ∈ g.newEdges t.graph ↔
    edge.kind = .copy ∧ t.AsksCopy g edge.source edge.target ∧ edge ∉ g.edges
  copyEdges : t.copyEdges = (g.newEdges t.graph).length
  distinctNodes : (g.newNodes t.graph).Nodup
  newNodes : ∀ node, node ∈ g.newNodes t.graph ↔ ∃ base k object, g.nodes[base]? = some object ∧
    node = ⟨fieldName object.name k, .field base k⟩ ∧ t.AsksField g base k ∧ ∀ n, g.kind? n ≠ some (.field base k)

/-- An analysis leaves all that is in the graph where it is. It appends the copy edges that loads and stores ask for,
which it counts, and the fields that accesses ask for, and nothing else. -/
theorem analyze_extends {g : Graph} (built : g.Built) (limit : Nat) :
    ∃ t, (ofGraph g).analyze limit = .ok t ∧ t.Extends g := by
  obtain ⟨t, done⟩ := exists_analyzed built limit
  have edges : t.graph.edges.toList = g.edges.toList ++ g.newEdges t.graph := done.grown.edges_append
  refine ⟨t, done.run, {
    nodes := done.grown.nodes_append
    edges := edges
    functions := done.grown.functions
    callSites := done.grown.callSites
    indirectCalls := done.grown.indirectCalls
    addrEdges := done.grown.addrEdges
    distinctEdges := done.grown.nodup_newEdges done.stable.graph
    newEdges := fun _ => done.mem_newEdges built
    copyEdges := ?_
    distinctNodes := done.grown.nodup_newNodes done.stable.graph
    newNodes := fun _ => done.mem_newNodes built }⟩
  have count := done.edges_size built
  have length := congrArg List.length edges
  rw [List.length_append, Array.length_toList, Array.length_toList] at length
  omega

theorem analyze_extends_twoFields :
    ∃ t, (ofGraph (Graph.callback Graph.twoFields)).analyze 8 = .ok t ∧ t.Extends (Graph.callback Graph.twoFields) ∧
      (Graph.callback Graph.twoFields).newNodes t.graph = [⟨"o.1", .field 0 1⟩, ⟨"o.2", .field 0 2⟩] ∧
      (Graph.callback Graph.twoFields).newEdges t.graph = [⟨7, 6, .copy⟩, ⟨5, 7, .copy⟩] := by
  have evaluated : ((ofGraph (Graph.callback Graph.twoFields)).analyze 8).toOption.any fun t =>
      (Graph.callback Graph.twoFields).newNodes t.graph = [⟨"o.1", .field 0 1⟩, ⟨"o.2", .field 0 2⟩] ∧
      (Graph.callback Graph.twoFields).newEdges t.graph = [⟨7, 6, .copy⟩, ⟨5, 7, .copy⟩] := by decide +kernel
  obtain ⟨t, run, extended⟩ := analyze_extends (Graph.built_callback Graph.twoFields_ends) 8
  rw [run] at evaluated
  exact ⟨t, run, extended, of_decide_eq_true evaluated⟩

end Solver

end PointsTo
