import PointsTo.Proofs.Solver.Turn

namespace PointsTo.Solver

/-- All that a run is made of. -/
inductive Step (s : Solver) : Solver → Prop
  | seed {e edge} : s.graph.addrEdges[s.cursor]? = some e → s.graph.edges[e]? = some edge →
      Step s ({ s with cursor := s.cursor + 1 }.gain edge.target edge.source)
  | record (event : Event) : Step s (s.record event)
  | settle {n queue} : s.queue.pop? = some (n, queue) → Step s (s.settle n queue)
  | infer {t} : s.Infers t → Step s t

theorem Valid.seed {s : Solver} (valid : s.Valid) {e : EdgeId} {edge : Edge} (found : s.graph.edges[e]? = some edge) :
    ({ s with cursor := s.cursor + 1 }.gain edge.target edge.source).Valid := by
  obtain ⟨source, target⟩ := valid.graph.ends edge (Array.mem_iff_getElem?.mpr ⟨e, found⟩)
  have gains := gains_gain { s with cursor := s.cursor + 1 } edge.target edge.source
  have graph : ({ s with cursor := s.cursor + 1 }.gain edge.target edge.source).graph = s.graph := gain_graph ..
  have size := congrArg (fun g : Graph => g.nodes.size) graph
  refine valid.gains gains ?_ (Nat.le_of_eq size.symm) ?_ ?_
  · rw [graph]
    exact valid.graph
  · rw [graph]
    exact target
  · intro x same
    rw [graph, same]
    exact source

theorem Step.valid {s t : Solver} (step : s.Step t) (valid : s.Valid) : t.Valid := by
  cases step with
  | seed _ found => exact valid.seed found
  | record event => exact ⟨valid.graph, valid.facts, valid.apart, valid.queue, valid.waiting, valid.inside⟩
  | settle next => exact valid.settle next
  | infer step => exact step.valid valid

theorem Step.grown {s t : Solver} (step : s.Step t) (valid : s.Valid) : s.graph.Grown t.graph := by
  cases step with
  | seed _ _ => rw [gain_graph]; exact .refl _
  | record _ => exact .refl _
  | settle _ => exact .refl _
  | infer step => exact (step.outcome valid).1

theorem Step.mem_get {s t : Solver} (step : s.Step t) (valid : s.Valid) {k : NodeId} {x : Nat}
    (member : x ∈ s.store.get k) : x ∈ t.store.get k := by
  cases step with
  | seed _ _ => exact (gains_gain ..).mem_get.mpr (Or.inl member)
  | record _ => exact member
  | settle _ => exact DiffStore.mem_get_flush.mpr member
  | infer step =>
    obtain ⟨_, _, _, _, _, gains, _⟩ := step.outcome valid
    exact gains.mem_get.mpr (Or.inl member)

theorem Step.cursor_le {s t : Solver} (step : s.Step t) (valid : s.Valid) : s.cursor ≤ t.cursor := by
  cases step with
  | seed _ _ =>
    rw [gain_cursor]
    exact Nat.le_succ _
  | record _ => exact Nat.le_refl _
  | settle _ => exact Nat.le_refl _
  | infer step =>
    have same := (step.outcome valid).2.2.1
    omega

def Steps : Solver → Solver → Prop := Relation.ReflTransGen Step

namespace Steps
variable {s t u : Solver}

theorem trans (first : s.Steps t) (second : t.Steps u) : s.Steps u :=
  Relation.ReflTransGen.trans first second

/-- What every step keeps, a run keeps. -/
theorem keeps {P : Solver → Prop} (step : ∀ s t : Solver, s.Valid → s.Step t → P s → P t) (run : s.Steps t)
    (valid : s.Valid) (start : P s) : t.Valid ∧ P t := by
  induction run with
  | refl => exact ⟨valid, start⟩
  | tail _ last ih =>
    obtain ⟨validB, atB⟩ := ih
    exact ⟨last.valid validB, step _ _ validB last atB⟩

theorem valid (run : s.Steps t) (valid : s.Valid) : t.Valid :=
  (run.keeps (P := fun _ => True) (fun _ _ _ _ _ => trivial) valid trivial).1

theorem grown (run : s.Steps t) (valid : s.Valid) : s.graph.Grown t.graph :=
  (run.keeps (P := fun t => s.graph.Grown t.graph) (fun _ _ validB step before => before.trans (step.grown validB))
    valid (.refl _)).2

theorem mem_get (run : s.Steps t) (valid : s.Valid) (k : NodeId) (x : Nat) (member : x ∈ s.store.get k) :
    x ∈ t.store.get k :=
  (run.keeps (P := fun t => x ∈ t.store.get k) (fun _ _ validB step => step.mem_get validB) valid member).2

theorem cursor_le (run : s.Steps t) (valid : s.Valid) : s.cursor ≤ t.cursor :=
  (run.keeps (P := fun t => s.cursor ≤ t.cursor)
    (fun _ _ validB step before => Nat.le_trans before (step.cursor_le validB)) valid (Nat.le_refl _)).2

end Steps

theorem Inferences.steps {s t : Solver} (run : s.Inferences t) : s.Steps t := by
  induction run with
  | refl => exact .refl
  | tail _ step ih => exact ih.trans (.single (.infer step))

theorem Turn.steps {s t : Solver} (turn : s.Turn t) (valid : s.Valid) : s.Steps t := by
  obtain ⟨n, queue, next, toT, _⟩ := turn.spec valid
  exact Steps.trans (.single (.settle next)) toT.steps

theorem Turns.steps {s t : Solver} {k : Nat} (turns : s.Turns k t) (valid : s.Valid) : s.Steps t := by
  induction turns with
  | start => exact .refl
  | next before turn ih => exact ih.trans (turn.steps (before.valid valid))

theorem seed_eq {s : Solver} {e : EdgeId} {edge : Edge} (found : s.graph.edges[e]? = some edge) :
    s.seed e = .ok ({ s with cursor := s.cursor + 1 }.gain edge.target edge.source) := by
  rw [seed, edge_eq_ok found]
  rfl

theorem seeds_run {rest : List EdgeId} {s : Solver} (valid : s.Valid)
    (left : s.graph.addrEdges.toList.drop s.cursor = rest) :
    ∃ t, rest.foldlM seed s = .ok t ∧ s.Steps t ∧ t.graph = s.graph ∧ t.graph.addrEdges.size ≤ t.cursor ∧
      ∀ k, t.store.settledOf k = s.store.settledOf k := by
  induction rest generalizing s with
  | nil =>
    have done := List.drop_eq_nil_iff.mp left
    exact ⟨s, rfl, .refl, rfl, by simpa using done, fun _ => rfl⟩
  | cons e rest ih =>
    have listed : s.graph.addrEdges[s.cursor]? = some e := by
      have first := congrArg List.head? left
      rw [List.head?_drop, Array.getElem?_toList] at first
      exact first
    have member : e ∈ s.graph.addrEdges := Array.mem_iff_getElem?.mpr ⟨_, listed⟩
    obtain ⟨edge, found, _⟩ := (valid.graph.addresses e).mp member
    have validT := valid.seed found
    have graph : ({ s with cursor := s.cursor + 1 }.gain edge.target edge.source).graph = s.graph := gain_graph ..
    have cursor : ({ s with cursor := s.cursor + 1 }.gain edge.target edge.source).cursor = s.cursor + 1 :=
      gain_cursor ..
    obtain ⟨t, run, toT, same, finished, settled⟩ := ih validT (by
      rw [graph, cursor, ← List.drop_drop, List.drop_one, left]
      rfl)
    refine ⟨t, ?_, Steps.trans (.single (.seed listed found)) toT, same.trans graph, finished, fun k => ?_⟩
    · rw [List.foldlM_cons, seed_eq found]
      exact run
    · rw [settled, (gains_gain ..).settled]

theorem activate_run {s : Solver} (valid : s.Valid) :
    ∃ t, s.activate = .ok t ∧ s.Steps t ∧ t.graph = s.graph ∧ t.graph.addrEdges.size ≤ t.cursor ∧
      ∀ k, t.store.settledOf k = s.store.settledOf k := by
  obtain ⟨t, run, toT, graph, finished, settled⟩ := seeds_run valid rfl
  refine ⟨t.record (.activated t.queue.length), ?_, toT.trans (.single (.record _)), graph, finished, settled⟩
  rw [activate, run]
  rfl

end PointsTo.Solver
