import PointsTo.Proofs.Solver.Termination

namespace PointsTo.Solver

/-- Every constraint has been applied to every settled fact. -/
def Closed (s : Solver) : Prop :=
  ∀ edge ∈ s.graph.edges, ∀ o ∈ s.store.settledOf edge.pointer, s.Met o edge

/-- The address edges that have had their turn are facts. -/
def Seeded (s : Solver) : Prop :=
  ∀ i < s.cursor, ∃ e edge, s.graph.addrEdges[i]? = some e ∧ s.graph.edges[e]? = some edge ∧
    edge.source ∈ s.store.get edge.target

/-- What a finished run leaves behind and the next one starts from. -/
structure Stable (s : Solver) : Prop extends s.Rested where
  closed : s.Closed
  seeded : s.Seeded

theorem Infers.new_edge {s t : Solver} (step : s.Infers t) (valid : s.Valid) {edge : Edge}
    (member : edge ∈ t.graph.edges) :
    edge ∈ s.graph.edges ∨ ∀ o ∈ t.store.settledOf edge.pointer, t.Met o edge := by
  cases step with
  | copy _ _ =>
    rw [send_graph] at member
    exact Or.inl member
  | @link a b demand _ =>
    rw [send_graph] at member
    rcases Graph.mem_edges_appendEdge.mp member with old | rfl
    · exact Or.inl old
    · right
      intro o settled
      have gains := gains_send (s.linked a b) b (s.store.get a)
      rw [gains.settled] at settled
      exact gains.mem_get.mpr (Or.inr ⟨rfl, DiffStore.mem_get.mpr (Or.inl settled)⟩)
  | access _ settled run =>
    rw [gain_graph] at member
    have edges := (valid.reaches (valid.settled_lt settled) run).edges
    exact Or.inl (edges ▸ member)

theorem Inferences.new_edge {s t : Solver} (run : s.Inferences t) (valid : s.Valid) {edge : Edge}
    (member : edge ∈ t.graph.edges) :
    edge ∈ s.graph.edges ∨ ∀ o ∈ t.store.settledOf edge.pointer, t.Met o edge := by
  induction run with
  | refl => exact Or.inl member
  | @tail u t before step ih =>
    have validU := Inferences.valid before valid
    have single : u.Inferences t := .single step
    rcases step.new_edge validU member with old | met
    · rcases ih old with oldest | met
      · exact Or.inl oldest
      · right
        intro o settled
        rw [single.settledOf validU] at settled
        exact single.met validU (validU.settled_lt settled) (met o settled)
    · exact Or.inr met

theorem Turn.closed {s t : Solver} (turn : s.Turn t) (valid : s.Valid) (closed : s.Closed) : t.Closed := by
  obtain ⟨n, queue, next, toT, applied⟩ := turn.spec valid
  have validN := valid.settle next
  intro edge member o settledT
  rcases toT.new_edge validN member with old | met
  · have settledN := settledT
    rw [toT.settledOf validN] at settledN
    rcases DiffStore.mem_settledOf_flush.mp settledN with settled | ⟨pointer, pending⟩
    · exact (closed edge old o settled).grow (valid.settled_lt settled) (toT.grown validN)
        fun k x known => toT.mem_get validN (DiffStore.mem_get_flush.mpr known)
    · exact applied edge old pointer o pending
  · exact met o settledT

theorem Turns.closed {s t : Solver} {k : Nat} (turns : s.Turns k t) (valid : s.Valid) (closed : s.Closed) :
    t.Closed := by
  induction turns with
  | start => exact closed
  | next before turn ih => exact turn.closed (before.valid valid) ih

theorem Step.seeded {s t : Solver} (valid : s.Valid) (step : s.Step t) (seeded : s.Seeded) : t.Seeded := by
  intro i before
  by_cases earlier : i < s.cursor
  · obtain ⟨e, edge, listed, found, fact⟩ := seeded i earlier
    have grown := step.grown valid
    refine ⟨e, edge, ?_, grown.edges e edge found, step.mem_get valid fact⟩
    rw [grown.addrEdges]
    exact listed
  · cases step with
    | @seed e edge now found =>
      rw [gain_cursor] at before
      have last : i = s.cursor := Nat.le_antisymm (Nat.le_of_lt_succ before) (Nat.not_lt.mp earlier)
      rw [gain_graph, last]
      exact ⟨e, edge, now, found, (gains_gain ..).mem_get.mpr (Or.inr ⟨rfl, rfl⟩)⟩
    | record _ => exact absurd before earlier
    | settle _ => exact absurd before earlier
    | infer step => exact absurd ((step.outcome valid).2.2.1 ▸ before) earlier

theorem Steps.seeded {s t : Solver} (run : s.Steps t) (valid : s.Valid) (seeded : s.Seeded) : t.Seeded :=
  (run.keeps (fun _ _ validB step => step.seeded validB) valid seeded).2

theorem stable_of_no_facts {s : Solver} (wf : s.graph.WellFormed) (none : ∀ k x, x ∉ s.store.get k)
    (cursor : s.cursor = 0) : s.Stable where
  graph := wf
  idle k x pending := none k x (DiffStore.mem_get.mpr (Or.inr pending))
  facts k x member := absurd member (none k x)
  closed _ _ o settled := absurd (DiffStore.mem_get.mpr (Or.inl settled)) (none _ o)
  seeded i before := absurd (cursor ▸ before) (Nat.not_lt_zero i)

/-- A run from a stable state ends, in a stable state in which all address edges have had their turn. -/
theorem Stable.solve {s : Solver} (stable : s.Stable) :
    ∃ t, s.solve = .ok t ∧ { s with queue := .empty }.Steps t ∧ t.Stable ∧ t.graph.addrEdges.size ≤ t.cursor := by
  obtain ⟨u, k, t, _, toU, graph, finished, settled, turns, done, run⟩ := solve_run stable.toRested
  have valid := stable.toRested.valid
  have validU := toU.valid valid
  have closedU : u.Closed := by
    intro edge member o settledU
    rw [graph] at member
    rw [settled] at settledU
    exact (stable.closed edge member o settledU).grow (valid.settled_lt settledU) (toU.grown valid) (toU.mem_get valid)
  have toT := turns.steps validU
  have whole := toU.trans toT
  refine ⟨t, run, whole, ⟨(turns.valid validU).rested done, turns.closed validU closedU,
    whole.seeded valid stable.seeded⟩, ?_⟩
  rw [(turns.grown validU).addrEdges]
  exact Nat.le_trans finished (toT.cursor_le validU)

/-- The constraint of an edge, said of the sets of nodes. -/
def Satisfies (s : Solver) : Edge → Prop
  | ⟨o, p, .addr⟩ => o ∈ s.store.get p
  | ⟨p, x, .copy⟩ => ∀ a ∈ s.store.get p, a ∈ s.store.get x
  | ⟨p, r, .load⟩ => ∀ o ∈ s.store.get p, ∀ a ∈ s.store.get o, a ∈ s.store.get r
  | ⟨q, p, .store⟩ => ∀ o ∈ s.store.get p, ∀ a ∈ s.store.get q, a ∈ s.store.get o
  | ⟨p, x, .gep (.constant k)⟩ => ∀ o ∈ s.store.get p, ∃ m < s.graph.nodes.size,
      s.graph.location m = s.graph.part (s.graph.location o) k ∧ m ∈ s.store.get x
  | ⟨p, x, .gep .variant⟩ => ∀ a ∈ s.store.get p, a ∈ s.store.get x

theorem Rested.settled {s : Solver} (rested : s.Rested) {k : NodeId} {x : Nat} (member : x ∈ s.store.get k) :
    x ∈ s.store.settledOf k := by
  rcases DiffStore.mem_get.mp member with settled | pending
  · exact settled
  · exact absurd pending (rested.idle k x)

theorem Stable.met {s : Solver} (stable : s.Stable) {edge : Edge} (member : edge ∈ s.graph.edges) {o : Nat}
    (fact : o ∈ s.store.get edge.pointer) : s.Met o edge :=
  stable.closed edge member o (stable.toRested.settled fact)

theorem Stable.satisfies {s : Solver} (stable : s.Stable) (finished : s.graph.addrEdges.size ≤ s.cursor) :
    ∀ edge ∈ s.graph.edges, s.Satisfies edge := by
  intro edge member
  obtain ⟨source, target, kind⟩ := edge
  cases kind with
  | addr =>
    obtain ⟨e, found⟩ := Array.mem_iff_getElem?.mp member
    obtain ⟨i, listed⟩ := Array.mem_iff_getElem?.mp ((stable.graph.addresses e).mpr ⟨_, found, rfl⟩)
    obtain ⟨bound, _⟩ := Array.getElem?_eq_some_iff.mp listed
    obtain ⟨e', edge', listed', found', fact⟩ := stable.seeded i (Nat.lt_of_lt_of_le bound finished)
    rw [listed] at listed'
    cases listed'
    rw [found] at found'
    cases found'
    exact fact
  | copy => exact fun a fact => stable.met member fact
  | load =>
    intro o base a fact
    have link : ⟨o, target, .copy⟩ ∈ s.graph.edges := stable.met member base
    exact stable.met link fact
  | store =>
    intro o base a fact
    have link : ⟨source, o, .copy⟩ ∈ s.graph.edges := stable.met member base
    exact stable.met link fact
  | gep offset =>
    cases offset with
    | constant k => exact fun o fact => stable.met member fact
    | variant =>
      intro o fact
      obtain ⟨m, _, same, reached⟩ := stable.met member fact
      exact stable.graph.location_injective same ▸ reached

theorem not_mem_get_prepare (g : Graph) (limit : Nat) (k : NodeId) (x : Nat) :
    x ∉ ((ofGraph g).prepare limit).store.get k := by
  have same : ((ofGraph g).prepare limit).store.get k = DiffStore.empty.get k := DiffStore.get_foldl_init ..
  rw [same]
  exact DiffStore.not_mem_get_empty k x

theorem stable_prepare {g : Graph} (built : g.Built) (limit : Nat) : ((ofGraph g).prepare limit).Stable :=
  stable_of_no_facts (built.fieldLimit limit).wellFormed (not_mem_get_prepare g limit) rfl

/-- What holds at the start of an analysis and is kept by every step holds in all of its states. -/
theorem Steps.keeps_prepare {g : Graph} (built : g.Built) {limit : Nat} {t : Solver} {P : Solver → Prop}
    (run : ((ofGraph g).prepare limit).Steps t) (step : ∀ s t : Solver, s.Valid → s.Step t → P s → P t)
    (start : P ((ofGraph g).prepare limit)) : P t :=
  (run.keeps step (stable_prepare built limit).toRested.valid start).2

/-- The analysis of any graph, with any limit, ends. -/
theorem analyze_run {g : Graph} (built : g.Built) (limit : Nat) :
    ∃ t, (ofGraph g).analyze limit = .ok t ∧ ((ofGraph g).prepare limit).Steps t ∧ t.Stable ∧
      t.graph.addrEdges.size ≤ t.cursor := by
  obtain ⟨t, run, steps, stable, finished⟩ := (stable_prepare built limit).solve
  refine ⟨(t.record (.propagated t.processed t.copyEdges)).record .solved, ?_, ?_, ?_, finished⟩
  · rw [analyze, propagate, run]
    rfl
  · exact steps.trans (.tail (.single (.record _)) (.record _))
  · exact ⟨⟨stable.graph, stable.idle, stable.facts⟩, stable.closed, stable.seeded⟩

/-- An analysis leaves nothing pending, and its sets satisfy every edge of the graph as it is then. -/
theorem analyze_sound {g : Graph} (built : g.Built) (limit : Nat) :
    ∃ t, (ofGraph g).analyze limit = .ok t ∧ { g with fieldLimit := limit }.Grown t.graph ∧
      (∀ k x, x ∉ t.store.pendingOf k) ∧ ∀ edge ∈ t.graph.edges, t.Satisfies edge := by
  obtain ⟨t, run, steps, stable, finished⟩ := analyze_run built limit
  have valid := (stable_prepare built limit).toRested.valid
  exact ⟨t, run, steps.grown valid, stable.idle, stable.satisfies finished⟩

theorem analyze_sound_fieldCycle :
    ∃ t, (ofGraph Graph.fieldCycle).analyze 8 = .ok t ∧ (∀ k x, x ∉ t.store.pendingOf k) ∧ 0 ∈ t.store.get 1 ∧
      ∀ o ∈ t.store.get 1, ∃ m < t.graph.nodes.size,
        t.graph.location m = t.graph.part (t.graph.location o) 1 ∧ m ∈ t.store.get 1 := by
  obtain ⟨t, run, grown, idle, satisfied⟩ := analyze_sound Graph.built_fieldCycle 8
  have taken : ⟨0, 1, .addr⟩ ∈ t.graph.edges := grown.mem_edges (by simp [Graph.edges_fieldCycle])
  have moved : ⟨1, 1, .gep (.constant 1)⟩ ∈ t.graph.edges := grown.mem_edges (by simp [Graph.edges_fieldCycle])
  exact ⟨t, run, idle, satisfied _ taken, satisfied _ moved⟩

end PointsTo.Solver
