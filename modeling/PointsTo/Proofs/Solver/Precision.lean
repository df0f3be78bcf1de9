import PointsTo.Proofs.Solver.Soundness

namespace PointsTo.Solver

/-- All that is in the state follows from the edges of `g`. -/
structure Follows (s : Solver) (g : Graph) : Prop where
  size : g.nodes.size ≤ s.graph.nodes.size
  locations : ∀ n < g.nodes.size, s.graph.location n = g.location n
  parts : ∀ p k, s.graph.part p k = g.part p k
  keys : ∀ k, ∀ x ∈ s.store.get k, k < s.graph.nodes.size
  facts : ∀ k, ∀ x ∈ s.store.get k, g.Derives (s.graph.location k) (s.graph.location x)
  edges : ∀ edge ∈ s.graph.edges, edge ∈ g.edges ∨
    edge.kind = .copy ∧ g.DerivesCopy (s.graph.location edge.source) (s.graph.location edge.target)
  fields : ∀ n, g.nodes.size ≤ n → n < s.graph.nodes.size → g.DerivesPart (s.graph.location n)

theorem follows_of_no_facts {s : Solver} (none : ∀ k x, x ∉ s.store.get k) : s.Follows s.graph where
  size := Nat.le_refl _
  locations _ _ := rfl
  parts _ _ := rfl
  keys k x member := absurd member (none k x)
  facts k x member := absurd member (none k x)
  edges _ := Or.inl
  fields _ lower upper := absurd upper (Nat.not_lt.mpr lower)

namespace Follows
variable {s t : Solver} {g : Graph}

theorem original (follows : s.Follows g) {edge : Edge} (member : edge ∈ s.graph.edges) (other : edge.kind ≠ .copy) :
    edge ∈ g.edges := by
  rcases follows.edges edge member with old | ⟨copy, _⟩
  · exact old
  · exact absurd copy other

theorem settled (follows : s.Follows g) {k : NodeId} {x : Nat} (settled : x ∈ s.store.settledOf k) :
    g.Derives (s.graph.location k) (s.graph.location x) :=
  follows.facts k x (DiffStore.mem_get.mpr (Or.inl settled))

theorem address (follows : s.Follows g) (wf : g.WellFormed) {o p : NodeId} (member : ⟨o, p, .addr⟩ ∈ s.graph.edges) :
    g.Derives (s.graph.location p) (s.graph.location o) := by
  have edge := follows.original member (by simp)
  obtain ⟨source, target⟩ := wf.ends _ edge
  rw [follows.locations p target, follows.locations o source]
  exact .addr edge

theorem copy (follows : s.Follows g) (wf : g.WellFormed) {p x : NodeId} {a : Location}
    (member : ⟨p, x, .copy⟩ ∈ s.graph.edges) (fact : g.Derives (s.graph.location p) a) :
    g.Derives (s.graph.location x) a := by
  rcases follows.edges _ member with edge | ⟨_, justified⟩
  · obtain ⟨source, target⟩ := wf.ends _ edge
    rw [follows.locations p source] at fact
    rw [follows.locations x target]
    exact .copy edge fact
  · exact justified.flow fact

theorem demanded (follows : s.Follows g) (wf : g.WellFormed) {a b : NodeId} (demand : s.Demands a b) :
    g.DerivesCopy (s.graph.location a) (s.graph.location b) := by
  rcases demand with ⟨p, member, settled⟩ | ⟨p, member, settled⟩
  · have edge := follows.original member (by simp)
    obtain ⟨source, target⟩ := wf.ends _ edge
    have base := follows.settled settled
    rw [follows.locations p source] at base
    exact Or.inl ⟨p, b, edge, base, follows.locations b target⟩
  · have edge := follows.original member (by simp)
    obtain ⟨source, target⟩ := wf.ends _ edge
    have base := follows.settled settled
    rw [follows.locations p target] at base
    exact Or.inr ⟨a, p, edge, base, follows.locations a source⟩

theorem reached (follows : s.Follows g) (wf : g.WellFormed) {p x o : NodeId} {offset : Offset}
    (member : ⟨p, x, .gep offset⟩ ∈ s.graph.edges) (settled : o ∈ s.store.settledOf p) :
    g.Derives (s.graph.location x) (s.graph.reached offset (s.graph.location o)) := by
  have edge := follows.original member (by simp)
  obtain ⟨source, target⟩ := wf.ends _ edge
  have base := follows.settled settled
  rw [follows.locations p source] at base
  rw [follows.locations x target]
  cases offset with
  | constant k =>
    rw [Graph.reached, follows.parts]
    exact .field edge base
  | variant => exact .variant edge base

theorem field (follows : s.Follows g) (wf : g.WellFormed) {p x o : NodeId} {k : Nat}
    (member : ⟨p, x, .gep (.constant k)⟩ ∈ s.graph.edges) (settled : o ∈ s.store.settledOf p) :
    g.DerivesPart (s.graph.part (s.graph.location o) k) := by
  have edge := follows.original member (by simp)
  have base := follows.settled settled
  rw [follows.locations p (wf.ends _ edge).1] at base
  exact ⟨p, x, k, _, edge, base, follows.parts _ k⟩

/-- How the state goes on when one set gains facts. -/
theorem gains (follows : s.Follows g) (valid : s.Valid) (grown : s.graph.Grown t.graph)
    {k : NodeId} {facts : Nat → Prop}
    (gains : Gains s.store t.store s.queue t.queue k facts) (key : k < s.graph.nodes.size)
    (new : ∀ x, facts x → g.Derives (s.graph.location k) (t.graph.location x))
    (edges : ∀ edge ∈ t.graph.edges, edge ∈ s.graph.edges ∨
      edge.kind = .copy ∧ g.DerivesCopy (t.graph.location edge.source) (t.graph.location edge.target))
    (fields : ∀ n, s.graph.nodes.size ≤ n → n < t.graph.nodes.size → g.DerivesPart (t.graph.location n)) :
    t.Follows g where
  size := Nat.le_trans follows.size grown.size_le
  locations n bound := by
    rw [grown.location_eq (Nat.lt_of_lt_of_le bound follows.size)]
    exact follows.locations n bound
  parts p j := (grown.part_eq p j).trans (follows.parts p j)
  keys j x member := by
    rcases gains.mem_get.mp member with old | ⟨rfl, _⟩
    · exact Nat.lt_of_lt_of_le (follows.keys j x old) grown.size_le
    · exact Nat.lt_of_lt_of_le key grown.size_le
  facts j x member := by
    rcases gains.mem_get.mp member with old | ⟨rfl, fact⟩
    · rw [grown.location_eq (follows.keys j x old), grown.location_eq (valid.facts j x old)]
      exact follows.facts j x old
    · rw [grown.location_eq key]
      exact new x fact
  edges edge member := by
    rcases edges edge member with old | added
    · obtain ⟨source, target⟩ := valid.graph.ends edge old
      rw [grown.location_eq source, grown.location_eq target]
      exact follows.edges edge old
    · exact Or.inr added
  fields n lower upper := by
    by_cases old : n < s.graph.nodes.size
    · rw [grown.location_eq old]
      exact follows.fields n lower old
    · exact fields n (Nat.not_lt.mp old) upper

/-- The graph may also stay as it is. -/
theorem gains_sameGraph (follows : s.Follows g) (valid : s.Valid) (graph : t.graph = s.graph)
    {k : NodeId} {facts : Nat → Prop} (gains : Gains s.store t.store s.queue t.queue k facts)
    (key : k < s.graph.nodes.size)
    (new : ∀ x, facts x → g.Derives (s.graph.location k) (s.graph.location x)) : t.Follows g := by
  refine follows.gains valid (graph ▸ .refl _) gains key (graph ▸ new) ?_ ?_
  · intro edge member
    rw [graph] at member
    exact Or.inl member
  · intro n lower upper
    rw [graph] at upper
    exact absurd upper (Nat.not_lt.mpr lower)

end Follows

section steps
variable {s t : Solver} {g : Graph}

theorem Infers.follows (step : s.Infers t) (valid : s.Valid) (wf : g.WellFormed) (follows : s.Follows g) :
    t.Follows g := by
  have grown := (step.outcome valid).1
  cases step with
  | @copy p x facts edge settled =>
    refine follows.gains_sameGraph valid (send_graph ..) (gains_send s x facts) (valid.graph.ends _ edge).2 ?_
    intro a fact
    exact follows.copy wf edge (follows.settled (settled.elements a fact))
  | @link a b demand _ =>
    obtain ⟨source, target⟩ := valid.demands_lt demand
    have justified := follows.demanded wf demand
    refine follows.gains valid grown (gains_send (s.linked a b) b (s.store.get a)) target ?_ ?_ ?_
    · intro x fact
      rw [grown.location_eq (valid.facts a x fact)]
      exact justified.flow (follows.facts a x fact)
    · intro edge member
      have listed := member
      rw [send_graph] at listed
      rcases Graph.mem_edges_appendEdge.mp listed with old | rfl
      · exact Or.inl old
      · right
        rw [grown.location_eq source, grown.location_eq target]
        exact ⟨rfl, justified⟩
    · intro n lower upper
      rw [send_graph, linked, Graph.nodes_appendEdge] at upper
      exact absurd upper (Nat.not_lt.mpr lower)
  | @access p x offset o r m edge settled run =>
    have bound := valid.settled_lt settled
    have reaches := valid.reaches bound run
    refine follows.gains valid grown (reaches.gains x) (valid.graph.ends _ edge).2 ?_ ?_ ?_
    · intro y same
      rw [same, gain_graph, reaches.location]
      exact follows.reached wf edge settled
    · intro edge' member
      rw [gain_graph] at member
      exact Or.inl (reaches.edges ▸ member)
    · intro n lower upper
      rw [gain_graph] at upper ⊢
      have new := reaches.fresh n lower upper
      subst new
      rw [reaches.location]
      cases offset with
      | constant k => exact follows.field wf edge settled
      | variant =>
        -- an access with a variant offset stays where it is, so nothing is new
        have same : r.graph.location n = r.graph.location o :=
          reaches.location.trans (reaches.grown.location_eq bound).symm
        have old := reaches.wellFormed.location_injective same
        exact absurd (old ▸ bound) (Nat.not_lt.mpr lower)

theorem Step.follows (step : s.Step t) (valid : s.Valid) (wf : g.WellFormed) (follows : s.Follows g) :
    t.Follows g := by
  cases step with
  | @seed e edge now found =>
    have listed : e ∈ s.graph.addrEdges := Array.mem_iff_getElem?.mpr ⟨_, now⟩
    obtain ⟨edge', found', kind⟩ := (valid.graph.addresses e).mp listed
    rw [found] at found'
    cases found'
    obtain ⟨o, p, _⟩ := edge
    cases kind
    have member : ⟨o, p, .addr⟩ ∈ s.graph.edges := Array.mem_iff_getElem?.mpr ⟨e, found⟩
    refine follows.gains_sameGraph valid (gain_graph ..) (gains_gain { s with cursor := s.cursor + 1 } p o)
      (valid.graph.ends _ member).2 ?_
    intro x same
    rw [same]
    exact follows.address wf member
  | record _ =>
    exact ⟨follows.size, follows.locations, follows.parts, follows.keys, follows.facts, follows.edges, follows.fields⟩
  | settle _ =>
    exact ⟨follows.size, follows.locations, follows.parts,
      fun k x member => follows.keys k x (DiffStore.mem_get_flush.mp member),
      fun k x member => follows.facts k x (DiffStore.mem_get_flush.mp member), follows.edges, follows.fields⟩
  | infer step => exact step.follows valid wf follows

theorem Steps.follows (run : s.Steps t) (valid : s.Valid) (wf : g.WellFormed) (follows : s.Follows g) :
    t.Follows g :=
  (run.keeps (fun _ _ validB step => step.follows validB wf) valid follows).2

end steps

/-- The sets of a state as a relation between locations. -/
def solution (s : Solver) (p a : Location) : Prop :=
  ∃ n x, s.graph.location n = p ∧ s.graph.location x = a ∧ x ∈ s.store.get n

theorem solution_location {s : Solver} (wf : s.graph.WellFormed) {n x : NodeId} :
    s.solution (s.graph.location n) (s.graph.location x) ↔ x ∈ s.store.get n := by
  constructor
  · intro ⟨n', x', atN, atX, member⟩
    rw [wf.location_injective atN, wf.location_injective atX] at member
    exact member
  · intro member
    exact ⟨n, x, rfl, rfl, member⟩

theorem solves_solution {s : Solver} (wf : s.graph.WellFormed) (satisfied : ∀ edge ∈ s.graph.edges, s.Satisfies edge) :
    s.graph.Solves s.solution := by
  intro edge member
  have constraint := satisfied edge member
  have atNode {n : NodeId} {a : Location} (fact : s.solution (s.graph.location n) a) :
      ∃ x, s.graph.location x = a ∧ x ∈ s.store.get n := by
    obtain ⟨n', x, atN, atX, known⟩ := fact
    rw [wf.location_injective atN] at known
    exact ⟨x, atX, known⟩
  obtain ⟨source, target, kind⟩ := edge
  cases kind with
  | addr => exact (solution_location wf).mpr constraint
  | copy =>
    intro a fact
    obtain ⟨x, rfl, known⟩ := atNode fact
    exact (solution_location wf).mpr (constraint x known)
  | load =>
    intro o a base fact
    obtain ⟨m, rfl, known⟩ := atNode base
    obtain ⟨x, rfl, value⟩ := atNode fact
    exact (solution_location wf).mpr (constraint m known x value)
  | store =>
    intro o a base fact
    obtain ⟨m, rfl, known⟩ := atNode base
    obtain ⟨x, rfl, value⟩ := atNode fact
    exact (solution_location wf).mpr (constraint m known x value)
  | gep offset =>
    intro o base
    obtain ⟨m, rfl, known⟩ := atNode base
    cases offset with
    | constant k =>
      obtain ⟨f, _, here, fact⟩ := constraint m known
      rw [Graph.reached, ← here]
      exact (solution_location wf).mpr fact
    | variant => exact (solution_location wf).mpr (constraint m known)

/-- The sets are what the edges of `g` derive, once a run that follows from `g` and has all of its edges is over. -/
theorem Follows.solution_iff {s : Solver} {g : Graph} (follows : s.Follows g) (wf : g.WellFormed)
    (stable : s.Stable) (finished : s.graph.addrEdges.size ≤ s.cursor)
    (all : ∀ edge ∈ g.edges, edge ∈ s.graph.edges) {p a : Location} : s.solution p a ↔ g.Derives p a := by
  constructor
  · intro ⟨n, x, atN, atX, member⟩
    rw [← atN, ← atX]
    exact follows.facts n x member
  · intro derived
    have solves := solves_solution stable.graph (stable.satisfies finished)
    apply derived.least
    intro edge member
    obtain ⟨source, target⟩ := wf.ends edge member
    exact (solves edge (all edge member)).transfer (follows.locations _ source).symm (follows.locations _ target).symm
      fun p k => (follows.parts p k).symm

/-- The sets of a finished analysis are the least solution: a fact is in them if and only if the edges of the graph
as it was given derive it, and then it is in every solution of these edges. -/
theorem analyze_least {g : Graph} (built : g.Built) (limit : Nat) :
    ∃ t, (ofGraph g).analyze limit = .ok t ∧
      (∀ n a, a ∈ t.store.get n ↔
        { g with fieldLimit := limit }.Derives (t.graph.location n) (t.graph.location a)) ∧
      ∀ n, ∀ a ∈ t.store.get n, ∀ pts, { g with fieldLimit := limit }.Solves pts →
        pts (t.graph.location n) (t.graph.location a) := by
  obtain ⟨t, run, steps, stable, finished⟩ := analyze_run built limit
  have wf := (built.fieldLimit limit).wellFormed
  have valid := (stable_prepare built limit).toRested.valid
  have follows := steps.follows valid wf (follows_of_no_facts (not_mem_get_prepare g limit))
  have derived {n a : NodeId} : a ∈ t.store.get n ↔
      { g with fieldLimit := limit }.Derives (t.graph.location n) (t.graph.location a) := by
    rw [← solution_location stable.graph]
    exact follows.solution_iff wf stable finished fun edge => (steps.grown valid).mem_edges
  refine ⟨t, run, fun n a => derived, ?_⟩
  intro n a member pts solves
  exact Graph.derives_iff_forall_solves.mp (derived.mp member) pts solves

theorem analyze_least_fieldCycle :
    ∃ t, (ofGraph Graph.fieldCycle).analyze 8 = .ok t ∧ ∀ n a, a ∈ t.store.get n ↔
      Graph.fieldCycle.Derives (t.graph.location n) (t.graph.location a) := by
  obtain ⟨t, run, exactly, _⟩ := analyze_least Graph.built_fieldCycle 8
  exact ⟨t, run, exactly⟩

end PointsTo.Solver
