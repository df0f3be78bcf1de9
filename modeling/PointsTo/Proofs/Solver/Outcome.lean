import PointsTo.Proofs.Solver.Batches
import PointsTo.Proofs.CallTargets

namespace PointsTo

theorem Graph.Grown.function_iff {g h : Graph} (grown : Grown g h) {n : NodeId} {f : FuncId} :
    h.kind? n = some (.function f) ↔ g.kind? n = some (.function f) := by
  constructor
  · intro function
    by_cases old : n < g.nodes.size
    · rw [← grown.kind?_eq old]
      exact function
    · obtain ⟨base, offset, field, _⟩ := grown.newNodes n (Nat.not_lt.mp old) (lt_of_kind? function)
      rw [function] at field
      cases field
  · exact grown.kind?

theorem Graph.eq_of_location_node {g : Graph} {n m : NodeId} (here : g.location n = .node m) : n = m := by
  rcases g.location_cases n with ⟨base, offset, _, field⟩ | ⟨_, plain⟩
  · rw [here] at field
    cases field
  · exact Location.node.inj (plain.symm.trans here)

namespace Solver

/-- The settled sets have no repetitions, and with them the whole sets. -/
def Tidy (s : Solver) : Prop := ∀ k, (s.store.settledOf k).WellFormed

theorem Step.tidy {s t : Solver} (valid : s.Valid) (step : s.Step t) (tidy : s.Tidy) : t.Tidy := by
  intro k
  cases step with
  | seed _ _ =>
    rw [(gains_gain ..).settled]
    exact tidy k
  | record _ => exact tidy k
  | settle _ => exact DiffStore.wellFormed_settledOf_flush tidy _ k
  | infer step =>
    obtain ⟨_, _, _, _, _, gains, _⟩ := step.outcome valid
    rw [gains.settled]
    exact tidy k

theorem tidy_prepare (g : Graph) (limit : Nat) : ((ofGraph g).prepare limit).Tidy := by
  intro k
  have same : ((ofGraph g).prepare limit).store.settledOf k = .empty :=
    (DiffStore.parts_foldl_init _ .empty k).2.trans (by simp [DiffStore.settledOf, DiffStore.empty])
  rw [same]
  exact PointeeSet.wellFormed_empty

/-- `t` is what the analysis of `g` with a field limit ends in. -/
structure Analyzed (g : Graph) (limit : Nat) (t : Solver) : Prop where
  run : (ofGraph g).analyze limit = .ok t
  grown : { g with fieldLimit := limit }.Grown t.graph
  stable : t.Stable
  satisfied : ∀ edge ∈ t.graph.edges, t.Satisfies edge
  exact : t.Exact { g with fieldLimit := limit }
  tidy : t.Tidy

theorem exists_analyzed {g : Graph} (built : g.Built) (limit : Nat) : ∃ t, Analyzed g limit t := by
  obtain ⟨t, run, steps, stable, finished⟩ := analyze_run built limit
  have wf := (built.fieldLimit limit).wellFormed
  have valid := (stable_prepare built limit).toRested.valid
  have follows := steps.follows valid wf (follows_of_no_facts (not_mem_get_prepare g limit))
  have grown := steps.grown valid
  have tidy := (steps.keeps (fun _ _ validB step => step.tidy validB) valid (tidy_prepare g limit)).2
  exact ⟨t, run, grown, stable, stable.satisfies finished,
    follows.exact wf stable finished fun edge => grown.mem_edges, tidy⟩

namespace Analyzed
variable {g : Graph} {limit : Nat} {t : Solver} (done : Analyzed g limit t)

include done

theorem location {n : NodeId} (bound : n < g.nodes.size) : t.graph.location n = g.location n :=
  done.grown.location_eq bound

theorem mem_edges {edge : Edge} (member : edge ∈ g.edges) : edge ∈ t.graph.edges :=
  done.grown.mem_edges member

theorem mem_get_iff {n a : NodeId} : a ∈ t.store.get n ↔
    { g with fieldLimit := limit }.Derives (t.graph.location n) (t.graph.location a) := by
  rw [← solution_location done.stable.graph]
  exact done.exact.facts _ _

/-- A derived fact about a given node is in the set of this node. -/
theorem exists_mem {n : NodeId} {a : Location} (bound : n < g.nodes.size)
    (derived : { g with fieldLimit := limit }.Derives (g.location n) a) :
    ∃ x ∈ t.store.get n, t.graph.location x = a := by
  obtain ⟨m, x, atM, atX, member⟩ := (done.exact.facts _ _).mpr derived
  rw [← done.location bound] at atM
  exact ⟨x, done.stable.graph.location_injective atM ▸ member, atX⟩

/-- The functions that a given pointer may call are those of the nodes that are derived for it. -/
theorem targets {n : NodeId} (bound : n < g.nodes.size) :
    ∃ targets, callTargets t.graph t.store n = .ok targets ∧ targets.Pairwise (· < ·) ∧
      ∀ f, f ∈ targets ↔ ∃ m, g.kind? m = some (.function f) ∧
        { g with fieldLimit := limit }.Derives (g.location n) (.node m) := by
  have set : (t.store.get n).WellFormed := PointeeSet.wellFormed_union (done.tidy n) _
  obtain ⟨targets, found, ascending, exactly⟩ := callTargets_ascending (done.stable.facts n) done.stable.graph set
  refine ⟨targets, found, ascending, fun f => (exactly f).trans ?_⟩
  constructor
  · rintro ⟨a, member, function⟩
    have plain : t.graph.location a = .node a := Graph.location_of_not_field (by simp [function])
    refine ⟨a, done.grown.function_iff.mp function, ?_⟩
    rw [← plain, ← done.location bound]
    exact done.mem_get_iff.mp member
  · rintro ⟨m, function, derived⟩
    obtain ⟨x, member, atX⟩ := done.exists_mem bound derived
    have same := Graph.eq_of_location_node atX
    subst same
    exact ⟨x, member, done.grown.function_iff.mpr function⟩

theorem ascending {n : NodeId} (bound : n < g.nodes.size) {targets : List FuncId}
    (found : callTargets t.graph t.store n = .ok targets) : targets.Pairwise (· < ·) := by
  obtain ⟨targets', found', sorted, _⟩ := done.targets bound
  cases found'.symm.trans found
  exact sorted

end Analyzed

end Solver

end PointsTo
