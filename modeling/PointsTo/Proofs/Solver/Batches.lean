import PointsTo.Proofs.Graph.Assembly
import PointsTo.Proofs.Solver.Precision

namespace PointsTo

namespace Graph

/-- Adds address edges, each given as an object and a pointer to it. -/
def addAddresses (g : Graph) (batch : List (NodeId × NodeId)) : Except Fault Graph :=
  batch.foldlM (fun g (o, p) => do return (← g.addEdge ⟨o, p, .addr⟩).1) g

/-- The graph `h` is `g` with the address edges of a batch. -/
structure Addressed (g : Graph) (batch : List (NodeId × NodeId)) (h : Graph) : Prop where
  wellFormed : h.WellFormed
  nodes : h.nodes = g.nodes
  fieldLimit : h.fieldLimit = g.fieldLimit
  edges : ∀ (e : EdgeId) edge, g.edges[e]? = some edge → h.edges[e]? = some edge
  addrEdges : ∀ (i : Nat) e, g.addrEdges[i]? = some e → h.addrEdges[i]? = some e
  mem_edges : ∀ edge, edge ∈ h.edges ↔ edge ∈ g.edges ∨ ∃ a ∈ batch, edge = ⟨a.1, a.2, .addr⟩

theorem WellFormed.addAddress {g : Graph} (wf : g.WellFormed) {o p : NodeId} (source : o < g.nodes.size)
    (target : p < g.nodes.size) : ∃ h e, g.addEdge ⟨o, p, .addr⟩ = .ok (h, e) ∧ g.Addressed [(o, p)] h := by
  by_cases old : ⟨o, p, .addr⟩ ∈ g.edges
  · refine ⟨g, none, addEdge_eq_ok_iff.mpr ⟨source, target, wf.insertEdge_of_mem old⟩, wf, rfl, rfl,
      fun _ _ => id, fun _ _ => id, ?_⟩
    intro edge
    have known : edge = ⟨o, p, .addr⟩ → edge ∈ g.edges := fun same => same ▸ old
    simpa using known
  · refine ⟨g.appendEdge ⟨o, p, .addr⟩, _,
      addEdge_eq_ok_iff.mpr ⟨source, target, wf.insertEdge_of_not_mem old⟩, wf.appendEdge old source target,
      nodes_appendEdge .., fieldLimit_appendEdge .., fun e edge found => getElem?_edges_appendEdge.mpr (Or.inl found), ?_, ?_⟩
    · intro i e listed
      obtain ⟨bound, _⟩ := Array.getElem?_eq_some_iff.mp listed
      rw [addrEdges_appendEdge, if_pos rfl, Array.getElem?_push, if_neg (Nat.ne_of_lt bound)]
      exact listed
    · intro edge
      simp

namespace Addressed
variable {g h k : Graph} {batch later : List (NodeId × NodeId)}

theorem kind? (addressed : g.Addressed batch h) (n : NodeId) : h.kind? n = g.kind? n := by
  rw [Graph.kind?, Graph.kind?, addressed.nodes]

theorem location (addressed : g.Addressed batch h) (n : NodeId) : h.location n = g.location n := by
  rw [Graph.location, Graph.location, addressed.kind?]

theorem part (addressed : g.Addressed batch h) (p : Location) (offset : Nat) : h.part p offset = g.part p offset := by
  unfold Graph.part
  simp only [addressed.kind?, addressed.fieldLimit]

theorem reached (addressed : g.Addressed batch h) (offset : Offset) (p : Location) :
    h.reached offset p = g.reached offset p := by
  cases offset with
  | constant k => exact addressed.part p k
  | variant => rfl

theorem append (first : g.Addressed batch h) (second : h.Addressed later k) : g.Addressed (batch ++ later) k where
  wellFormed := second.wellFormed
  nodes := second.nodes.trans first.nodes
  fieldLimit := second.fieldLimit.trans first.fieldLimit
  edges e edge found := second.edges e edge (first.edges e edge found)
  addrEdges i e listed := second.addrEdges i e (first.addrEdges i e listed)
  mem_edges edge := by
    rw [second.mem_edges, first.mem_edges]
    simp only [List.mem_append, or_and_right, exists_or, or_assoc]

end Addressed

theorem WellFormed.addAddresses {g : Graph} (wf : g.WellFormed) (batch : List (NodeId × NodeId))
    (ends : ∀ a ∈ batch, a.1 < g.nodes.size ∧ a.2 < g.nodes.size) :
    ∃ h, g.addAddresses batch = .ok h ∧ g.Addressed batch h := by
  induction batch generalizing g with
  | nil => exact ⟨g, rfl, wf, rfl, rfl, fun _ _ => id, fun _ _ => id, by simp⟩
  | cons a batch ih =>
    obtain ⟨o, p⟩ := a
    obtain ⟨source, target⟩ := ends (o, p) List.mem_cons_self
    obtain ⟨k, e, added, first⟩ := wf.addAddress source target
    obtain ⟨h, rest, second⟩ := ih first.wellFormed (by
      rw [first.nodes]
      exact fun b member => ends b (List.mem_cons_of_mem _ member))
    refine ⟨h, ?_, first.append second⟩
    simp only [Graph.addAddresses, List.foldlM_cons, added]
    exact rest

/-- The graph has a node for the location. -/
def HasNode (g : Graph) (p : Location) : Prop := ∃ n < g.nodes.size, g.location n = p

def HasEdge (g : Graph) (a b : Location) (kind : EdgeKind) : Prop :=
  ∃ edge ∈ g.edges, g.location edge.source = a ∧ g.location edge.target = b ∧ edge.kind = kind

end Graph

namespace Solver

/-- A new solver for a graph, with the sets and the cursor of an earlier one. -/
def resume (s : Solver) (graph : Graph) : Solver := { ofGraph graph with store := s.store, cursor := s.cursor }

/-- Adds address edges and solves again. -/
def solveBatch (s : Solver) (batch : List (NodeId × NodeId)) : Except Fault Solver := do
  (s.resume (← s.graph.addAddresses batch)).solve

def solveBatches (s : Solver) (batches : List (List (NodeId × NodeId))) : Except Fault Solver :=
  batches.foldlM solveBatch s

section resume
variable {s : Solver} {h : Graph} {batch : List (NodeId × NodeId)}

theorem Stable.resume (stable : s.Stable) (addressed : s.graph.Addressed batch h) : (s.resume h).Stable where
  graph := addressed.wellFormed
  idle := stable.idle
  facts k x member := by
    have bound := stable.facts k x member
    rw [← addressed.nodes] at bound
    exact bound
  closed edge member o settled := by
    rcases (addressed.mem_edges edge).mp member with old | ⟨a, _, rfl⟩
    · have bound := stable.toRested.valid.settled_lt settled
      exact (stable.closed edge old o settled).transfer
        (fun edge known => (addressed.mem_edges edge).mpr (Or.inl known))
        (Nat.le_of_eq (congrArg Array.size addressed.nodes.symm)) (fun n _ => addressed.location n)
        addressed.reached (fun _ _ => id) bound
    · trivial
  seeded i before := by
    obtain ⟨e, edge, listed, found, fact⟩ := stable.seeded i before
    exact ⟨e, edge, addressed.addrEdges i e listed, addressed.edges e edge found, fact⟩

theorem follows_addressed (none : ∀ k x, x ∉ s.store.get k) (addressed : s.graph.Addressed batch h) :
    s.Follows h where
  size := Nat.le_of_eq (congrArg Array.size addressed.nodes)
  locations n _ := (addressed.location n).symm
  parts p k := (addressed.part p k).symm
  keys k x member := absurd member (none k x)
  facts k x member := absurd member (none k x)
  edges edge member := Or.inl ((addressed.mem_edges edge).mpr (Or.inl member))
  fields n lower upper := by
    rw [addressed.nodes] at lower
    exact absurd upper (Nat.not_lt.mpr lower)

theorem Follows.resume {g : Graph} (follows : s.Follows g) (addressed : s.graph.Addressed batch h)
    (known : ∀ a ∈ batch, ⟨a.1, a.2, .addr⟩ ∈ g.edges) : (s.resume h).Follows g where
  size := Nat.le_trans follows.size (Nat.le_of_eq (congrArg Array.size addressed.nodes.symm))
  locations n bound := (addressed.location n).trans (follows.locations n bound)
  parts p k := (addressed.part p k).trans (follows.parts p k)
  keys k x member := by
    have bound := follows.keys k x member
    rw [← addressed.nodes] at bound
    exact bound
  facts k x member := by
    have derived := follows.facts k x member
    rw [← addressed.location k, ← addressed.location x] at derived
    exact derived
  edges edge member := by
    rcases (addressed.mem_edges edge).mp member with old | ⟨a, new, rfl⟩
    · have justified := follows.edges edge old
      rw [← addressed.location edge.source, ← addressed.location edge.target] at justified
      exact justified
    · exact Or.inl (known a new)
  fields n lower upper := by
    change n < h.nodes.size at upper
    rw [addressed.nodes] at upper
    have derived := follows.fields n lower upper
    rw [← addressed.location n] at derived
    exact derived

end resume

section batches
variable {s : Solver} {g : Graph}

theorem solveBatch_run (wf : g.WellFormed) (stable : s.Stable) (follows : s.Follows g)
    (batch : List (NodeId × NodeId)) (known : ∀ a ∈ batch, ⟨a.1, a.2, .addr⟩ ∈ g.edges) :
    ∃ t, s.solveBatch batch = .ok t ∧ t.Stable ∧ t.Follows g ∧ t.graph.addrEdges.size ≤ t.cursor ∧
      (∀ edge ∈ s.graph.edges, edge ∈ t.graph.edges) ∧ ∀ a ∈ batch, ⟨a.1, a.2, .addr⟩ ∈ t.graph.edges := by
  obtain ⟨h, added, addressed⟩ := stable.graph.addAddresses batch (by
    intro a member
    obtain ⟨source, target⟩ := wf.ends _ (known a member)
    exact ⟨Nat.lt_of_lt_of_le source follows.size, Nat.lt_of_lt_of_le target follows.size⟩)
  have stableH := stable.resume addressed
  obtain ⟨t, run, steps, stableT, finished⟩ := stableH.solve
  have valid := stableH.toRested.valid
  have grown := steps.grown valid
  have followsT := steps.follows valid wf (follows.resume addressed known)
  refine ⟨t, ?_, stableT, followsT, finished, ?_, ?_⟩
  · rw [solveBatch, added]
    exact run
  · exact fun edge member => grown.mem_edges ((addressed.mem_edges edge).mpr (Or.inl member))
  · exact fun a member => grown.mem_edges ((addressed.mem_edges _).mpr (Or.inr ⟨a, member, rfl⟩))

theorem solveBatches_run (wf : g.WellFormed) {batches : List (List (NodeId × NodeId))} (stable : s.Stable)
    (follows : s.Follows g) (known : ∀ a ∈ batches.flatten, ⟨a.1, a.2, .addr⟩ ∈ g.edges)
    (begun : batches ≠ [] ∨ s.graph.addrEdges.size ≤ s.cursor) :
    ∃ t, s.solveBatches batches = .ok t ∧ t.Stable ∧ t.Follows g ∧ t.graph.addrEdges.size ≤ t.cursor ∧
      (∀ edge ∈ s.graph.edges, edge ∈ t.graph.edges) ∧
      ∀ a ∈ batches.flatten, ⟨a.1, a.2, .addr⟩ ∈ t.graph.edges := by
  induction batches generalizing s with
  | nil =>
    have finished := begun.resolve_left (fun some => some rfl)
    exact ⟨s, rfl, stable, follows, finished, fun _ => id, by simp⟩
  | cons batch batches ih =>
    obtain ⟨u, first, stableU, followsU, finishedU, keptU, addedU⟩ := solveBatch_run wf stable follows batch
      (fun a member => known a (by simp [member]))
    obtain ⟨t, rest, stableT, followsT, finishedT, keptT, addedT⟩ := ih stableU followsU
      (fun a member => known a (by
        rw [List.flatten_cons]
        exact List.mem_append_right batch member))
      (Or.inr finishedU)
    refine ⟨t, ?_, stableT, followsT, finishedT, fun edge member => keptT edge (keptU edge member), ?_⟩
    · rw [solveBatches, List.foldlM_cons, first]
      exact rest
    · intro a member
      rw [List.flatten_cons] at member
      rcases List.mem_append.mp member with now | later
      · exact keptT _ (addedU a now)
      · exact addedT a later

end batches

/-- The state holds what the edges of `g` derive, and nothing else. -/
structure Exact (s : Solver) (g : Graph) : Prop where
  nodes : ∀ p, s.graph.HasNode p ↔ g.HasNode p ∨ g.DerivesPart p
  facts : ∀ p a, s.solution p a ↔ g.Derives p a
  edges : ∀ a b kind, s.graph.HasEdge a b kind ↔ g.HasEdge a b kind ∨ kind = .copy ∧ g.DerivesCopy a b

section exact
variable {s : Solver} {g : Graph} (follows : s.Follows g) (wf : g.WellFormed) (stable : s.Stable)
  (finished : s.graph.addrEdges.size ≤ s.cursor) (all : ∀ edge ∈ g.edges, edge ∈ s.graph.edges)

include follows wf stable finished all

/-- A derived fact about a node of `g` is in the set of this node. -/
theorem Follows.exists_fact {p : NodeId} {o : Location} (bound : p < g.nodes.size)
    (fact : g.Derives (g.location p) o) : ∃ x, s.graph.location x = o ∧ x ∈ s.store.get p := by
  obtain ⟨n, x, atN, atX, member⟩ := (follows.solution_iff wf stable finished all).mpr fact
  rw [← follows.locations p bound] at atN
  rw [stable.graph.location_injective atN] at member
  exact ⟨x, atX, member⟩

theorem Follows.hasNode_iff (p : Location) : s.graph.HasNode p ↔ g.HasNode p ∨ g.DerivesPart p := by
  constructor
  · intro ⟨n, bound, here⟩
    by_cases old : n < g.nodes.size
    · exact Or.inl ⟨n, old, (follows.locations n old).symm.trans here⟩
    · exact Or.inr (here ▸ follows.fields n (Nat.not_lt.mp old) bound)
  · intro given
    rcases given with ⟨n, bound, here⟩ | ⟨q, x, k, o, edge, base, same⟩
    · exact ⟨n, Nat.lt_of_lt_of_le bound follows.size, (follows.locations n bound).trans here⟩
    · obtain ⟨y, rfl, fact⟩ := follows.exists_fact wf stable finished all (wf.ends _ edge).1 base
      obtain ⟨m, inside, here, _⟩ := stable.satisfies finished _ (all _ edge) y fact
      exact ⟨m, inside, here.trans ((follows.parts _ k).trans same.symm)⟩

theorem Follows.hasEdge_iff (a b : Location) (kind : EdgeKind) :
    s.graph.HasEdge a b kind ↔ g.HasEdge a b kind ∨ kind = .copy ∧ g.DerivesCopy a b := by
  constructor
  · intro ⟨edge, member, source, target, same⟩
    rcases follows.edges edge member with old | ⟨copy, justified⟩
    · obtain ⟨boundS, boundT⟩ := wf.ends edge old
      rw [follows.locations _ boundS] at source
      rw [follows.locations _ boundT] at target
      exact Or.inl ⟨edge, old, source, target, same⟩
    · rw [source, target] at justified
      exact Or.inr ⟨same.symm.trans copy, justified⟩
  · intro given
    rcases given with ⟨edge, member, source, target, same⟩ | ⟨rfl, justified⟩
    · obtain ⟨boundS, boundT⟩ := wf.ends edge member
      exact ⟨edge, all edge member, (follows.locations _ boundS).trans source,
        (follows.locations _ boundT).trans target, same⟩
    · rcases justified with ⟨p, r, edge, base, rfl⟩ | ⟨q, p, edge, base, rfl⟩
      · obtain ⟨boundP, boundR⟩ := wf.ends _ edge
        obtain ⟨x, rfl, fact⟩ := follows.exists_fact wf stable finished all boundP base
        exact ⟨⟨x, r, .copy⟩, stable.met (all _ edge) fact, rfl, follows.locations r boundR, rfl⟩
      · obtain ⟨boundQ, boundP⟩ := wf.ends _ edge
        obtain ⟨x, rfl, fact⟩ := follows.exists_fact wf stable finished all boundP base
        exact ⟨⟨q, x, .copy⟩, stable.met (all _ edge) fact, follows.locations q boundQ, rfl, rfl⟩

theorem Follows.exact : s.Exact g where
  nodes := follows.hasNode_iff wf stable finished all
  facts _ _ := follows.solution_iff wf stable finished all
  edges := follows.hasEdge_iff wf stable finished all

end exact

/-- Two states are the same up to the numbers of the fields. -/
structure Agree (s t : Solver) : Prop where
  nodes : ∀ p, s.graph.HasNode p ↔ t.graph.HasNode p
  facts : ∀ p a, s.solution p a ↔ t.solution p a
  edges : ∀ a b kind, s.graph.HasEdge a b kind ↔ t.graph.HasEdge a b kind

theorem Exact.agree {s t : Solver} {g : Graph} (first : s.Exact g) (second : t.Exact g) : s.Agree t where
  nodes p := (first.nodes p).trans (second.nodes p).symm
  facts p a := (first.facts p a).trans (second.facts p a).symm
  edges a b kind := (first.edges a b kind).trans (second.edges a b kind).symm

/-- However the address edges are cut into batches, solving after each batch leads to the same nodes, sets and edges
as adding all of them first and solving once. -/
theorem solveBatches_agree {g : Graph} (built : g.Built) {batches : List (List (NodeId × NodeId))}
    (some : batches ≠ []) (ends : ∀ a ∈ batches.flatten, a.1 < g.nodes.size ∧ a.2 < g.nodes.size) :
    ∃ t h u, (ofGraph g).solveBatches batches = .ok t ∧ g.addAddresses batches.flatten = .ok h ∧
      (ofGraph h).solve = .ok u ∧ t.Agree u := by
  obtain ⟨h, added, addressed⟩ := built.wellFormed.addAddresses batches.flatten ends
  have wf := addressed.wellFormed
  have known : ∀ a ∈ batches.flatten, ⟨a.1, a.2, .addr⟩ ∈ h.edges :=
    fun a member => (addressed.mem_edges _).mpr (Or.inr ⟨a, member, rfl⟩)
  -- all at once
  have stableH : (ofGraph h).Stable := stable_of_no_facts wf DiffStore.not_mem_get_empty rfl
  obtain ⟨u, once, steps, stableU, finishedU⟩ := stableH.solve
  have valid := stableH.toRested.valid
  have followsU := steps.follows valid wf (follows_of_no_facts DiffStore.not_mem_get_empty)
  have exactU := followsU.exact wf stableU finishedU fun edge => (steps.grown valid).mem_edges
  -- batch by batch
  have stableG : (ofGraph g).Stable := stable_of_no_facts built.wellFormed DiffStore.not_mem_get_empty rfl
  have followsG : (ofGraph g).Follows h := follows_addressed DiffStore.not_mem_get_empty addressed
  obtain ⟨t, run, stableT, followsT, finishedT, kept, taken⟩ := solveBatches_run wf stableG followsG known (Or.inl some)
  have exactT := followsT.exact wf stableT finishedT (by
    intro edge member
    rcases (addressed.mem_edges edge).mp member with old | ⟨a, new, rfl⟩
    · exact kept edge old
    · exact taken a new)
  exact ⟨t, h, u, run, added, once, exactT.agree exactU⟩

/-- In batches `p` goes all its way before `q` begins, and all at once `q` comes in between, so that the fields have other
numbers; the one at offset 2 holds the one at offset 5 all the same. -/
theorem solveBatches_agree_threeAccesses :
    ∃ t h u, (ofGraph (.callback Graph.threeAccesses)).solveBatches [[(0, 2)], [], [(0, 5)]] = .ok t ∧
      (Graph.callback Graph.threeAccesses).addAddresses [(0, 2), (0, 5)] = .ok h ∧ (ofGraph h).solve = .ok u ∧
      (t.graph.nodes.toList.drop 7).map (·.name) = ["o.1", "o.2", "o.5"] ∧ (t.store.get 8).toList = [9] ∧
      (u.graph.nodes.toList.drop 7).map (·.name) = ["o.1", "o.5", "o.2"] ∧ (u.store.get 9).toList = [8] ∧ t.Agree u := by
  have parts : ((ofGraph (.callback Graph.threeAccesses)).solveBatches [[(0, 2)], [], [(0, 5)]]).toOption.any fun t =>
      (t.graph.nodes.toList.drop 7).map (·.name) = ["o.1", "o.2", "o.5"] ∧ (t.store.get 8).toList = [9] := by
    decide +kernel
  have whole : ((Graph.callback Graph.threeAccesses).addAddresses [(0, 2), (0, 5)] >>= fun h =>
      (ofGraph h).solve).toOption.any fun u =>
      (u.graph.nodes.toList.drop 7).map (·.name) = ["o.1", "o.5", "o.2"] ∧ (u.store.get 9).toList = [8] := by
    decide +kernel
  have addresses : ∀ a ∈ [[(0, 2)], [], [(0, 5)]].flatten, a.1 < 7 ∧ a.2 < 7 := by decide
  rw [← Graph.size_callback Graph.threeAccesses] at addresses
  obtain ⟨t, h, u, run, added, once, agree⟩ := solveBatches_agree
    (Graph.built_callback Graph.threeAccesses_ends) (by decide) addresses
  obtain ⟨t', run', holdsT⟩ := exists_of_any parts
  obtain ⟨u', once', holdsU⟩ := exists_of_any whole
  cases run.symm.trans run'
  cases (bind_eq_ok_iff.mpr ⟨h, added, once⟩).symm.trans once'
  obtain ⟨namesT, factsT⟩ := of_decide_eq_true holdsT
  obtain ⟨namesU, factsU⟩ := of_decide_eq_true holdsU
  exact ⟨t, h, u, run, added, once, namesT, factsT, namesU, factsU, agree⟩

end Solver

end PointsTo
