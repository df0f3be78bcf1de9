import PointsTo.Proofs.Solver.Steps
import Mathlib.Data.Finset.Card
import Mathlib.Data.Finset.Prod
import Mathlib.Order.Interval.Finset.Nat

namespace PointsTo

namespace Graph

theorem card_objects (g : Graph) :
    ((Finset.range g.nodes.size).filter fun n => g.kind? n = some .object).card =
      g.nodes.toList.countP fun node => node.kind == .object := by
  have general (nodes : List Node) :
      ((Finset.range nodes.length).filter fun n => (nodes[n]?).map (·.kind) = some .object).card =
        nodes.countP fun node => node.kind == .object := by
    induction nodes using List.reverseRecOn with
    | nil => rfl
    | append_singleton nodes last ih =>
      have before : (Finset.range nodes.length).filter
          (fun n => ((nodes ++ [last])[n]?).map (·.kind) = some .object) =
          (Finset.range nodes.length).filter fun n => (nodes[n]?).map (·.kind) = some .object := by
        refine Finset.filter_congr fun n member => ?_
        rw [List.getElem?_append_left (Finset.mem_range.mp member)]
      rw [List.length_append, List.length_singleton, Finset.range_add_one, Finset.filter_insert, before,
        List.countP_append]
      by_cases object : last.kind = .object
      · rw [if_pos (by simp [object]), Finset.card_insert_of_notMem (by simp), ih]
        simp [object]
      · rw [if_neg (by simp [object]), ih]
        simp [object]
  have atList := general g.nodes.toList
  simp only [Array.length_toList, Array.getElem?_toList] at atList
  exact atList

/-- There are no more new nodes than pairs of an old object and an offset below the limit. -/
theorem Grown.new_le {g h : Graph} (grown : g.Grown h) (wf : h.WellFormed) :
    h.nodes.size - g.nodes.size ≤ (g.nodes.toList.countP fun node => node.kind == .object) * g.fieldLimit := by
  let objects := (Finset.range g.nodes.size).filter fun n => g.kind? n = some .object
  let fields := (objects ×ˢ Finset.range g.fieldLimit).image fun p => Location.field p.1 p.2
  -- a new node stands for one of these fields, and no other node does
  have inside : (Finset.Ico g.nodes.size h.nodes.size).card ≤ fields.card := by
    apply Finset.card_le_card_of_injOn h.location
    · intro n member
      obtain ⟨lower, upper⟩ := Finset.mem_Ico.mp member
      obtain ⟨base, offset, field, object, below⟩ := grown.newNodes n lower upper
      rw [location_of_field field]
      refine Finset.mem_coe.mpr (Finset.mem_image.mpr ⟨(base, offset), ?_, rfl⟩)
      have known : base ∈ objects := Finset.mem_filter.mpr ⟨Finset.mem_range.mpr (lt_of_kind? object), object⟩
      exact Finset.mem_product.mpr ⟨known, Finset.mem_range.mpr below⟩
    · exact wf.location_injective.injOn
  calc h.nodes.size - g.nodes.size = (Finset.Ico g.nodes.size h.nodes.size).card := (Nat.card_Ico _ _).symm
    _ ≤ fields.card := inside
    _ ≤ (objects ×ˢ Finset.range g.fieldLimit).card := Finset.card_image_le
    _ = objects.card * g.fieldLimit := by rw [Finset.card_product, Finset.card_range]
    _ = (g.nodes.toList.countP fun node => node.kind == .object) * g.fieldLimit := by rw [card_objects]

theorem Grown.size_le_nodeBound {g h : Graph} (grown : g.Grown h) (wf : h.WellFormed) :
    h.nodes.size ≤ g.nodeBound := by
  have new := grown.new_le wf
  unfold nodeBound
  omega

end Graph

namespace Solver

/-- The settled facts about nodes below a bound. -/
def settledPairs (s : Solver) (bound : Nat) : Finset (Nat × Nat) :=
  (Finset.range bound ×ˢ Finset.range bound).filter fun p => p.2 ∈ s.store.settledOf p.1

theorem card_settledPairs_le (s : Solver) (bound : Nat) : (s.settledPairs bound).card ≤ bound * bound := by
  have all := Finset.card_filter_le (Finset.range bound ×ˢ Finset.range bound)
    (fun p => p.2 ∈ s.store.settledOf p.1)
  rwa [Finset.card_product, Finset.card_range] at all

theorem Turn.mem_settledOf {s t : Solver} (turn : s.Turn t) (valid : s.Valid) {k : NodeId} {x : Nat}
    (settled : x ∈ s.store.settledOf k) : x ∈ t.store.settledOf k := by
  obtain ⟨n, queue, next, toT, _⟩ := turn.spec valid
  rw [toT.settledOf (valid.settle next)]
  exact DiffStore.mem_settledOf_flush.mpr (Or.inl settled)

theorem Turn.settles {s t : Solver} (turn : s.Turn t) (valid : s.Valid) :
    ∃ n < s.graph.nodes.size, ∃ x < s.graph.nodes.size, x ∉ s.store.settledOf n ∧ x ∈ t.store.settledOf n := by
  obtain ⟨n, queue, next, toT, _⟩ := turn.spec valid
  have waits : n ∈ s.queue.toList := by
    rw [Worklist.toList_pop? next]
    exact List.mem_cons_self
  obtain ⟨x, pending⟩ := (valid.waiting n).mp waits
  have bound := valid.facts n x (DiffStore.mem_get.mpr (Or.inr pending))
  refine ⟨n, valid.inside n waits, x, bound, fun settled => valid.apart n x settled pending, ?_⟩
  rw [toT.settledOf (valid.settle next)]
  exact DiffStore.mem_settledOf_flush.mpr (Or.inr ⟨rfl, pending⟩)

theorem Turn.card_lt {s t : Solver} (turn : s.Turn t) (valid : s.Valid) {bound : Nat}
    (inside : s.graph.nodes.size ≤ bound) : (s.settledPairs bound).card < (t.settledPairs bound).card := by
  apply Finset.card_lt_card
  rw [Finset.ssubset_iff_of_subset]
  · obtain ⟨n, boundN, x, boundX, unsettled, settled⟩ := turn.settles valid
    refine ⟨(n, x), ?_, ?_⟩
    · simp only [settledPairs, Finset.mem_filter, Finset.mem_product, Finset.mem_range]
      exact ⟨⟨Nat.lt_of_lt_of_le boundN inside, Nat.lt_of_lt_of_le boundX inside⟩, settled⟩
    · simp [settledPairs, unsettled]
  · intro pair member
    simp only [settledPairs, Finset.mem_filter] at member ⊢
    exact ⟨member.1, turn.mem_settledOf valid member.2⟩

theorem Turns.grown {s t : Solver} {k : Nat} (turns : s.Turns k t) (valid : s.Valid) : s.graph.Grown t.graph :=
  (turns.steps valid).grown valid

/-- Each turn has settled a fact of its own. -/
theorem Turns.card_le {s t : Solver} {k bound : Nat} (turns : s.Turns k t) (valid : s.Valid)
    (inside : t.graph.nodes.size ≤ bound) : k + (s.settledPairs bound).card ≤ (t.settledPairs bound).card := by
  induction turns with
  | start => simp
  | @next k t u before turn ih =>
    have validT := before.valid valid
    have size := ((turn.steps validT).grown validT).size_le
    have insideT : t.graph.nodes.size ≤ bound := by omega
    have earlier := ih insideT
    have last := turn.card_lt validT insideT
    omega

theorem Turns.le_sq {s t : Solver} {k : Nat} (turns : s.Turns k t) (valid : s.Valid) :
    k ≤ t.graph.nodes.size ^ 2 := by
  have count := turns.card_le valid (Nat.le_refl _)
  have all := t.card_settledPairs_le t.graph.nodes.size
  rw [Nat.pow_two]
  omega

/-- A loop with enough turns ahead ends with an empty queue. -/
theorem drain_run {g : Graph} {fuel : Nat} {s : Solver} (grown : g.Grown s.graph) (valid : s.Valid)
    (enough : g.nodeBound * g.nodeBound ≤ fuel + (s.settledPairs g.nodeBound).card) :
    ∃ k t, s.drain fuel = .ok t ∧ s.Turns k t ∧ t.queue.pop? = none := by
  induction fuel generalizing s with
  | zero =>
    cases next : s.queue.pop? with
    | none => exact ⟨0, s, rfl, .start, next⟩
    | some entry =>
      obtain ⟨n, queue⟩ := entry
      obtain ⟨t, run, _⟩ := process_run valid next
      have turn : s.Turn t := ⟨n, queue, next, run⟩
      have more := turn.card_lt valid (grown.size_le_nodeBound valid.graph)
      have all := t.card_settledPairs_le g.nodeBound
      omega
  | succ fuel ih =>
    cases next : s.queue.pop? with
    | none =>
      refine ⟨0, s, ?_, .start, next⟩
      rw [drain, next]
      rfl
    | some entry =>
      obtain ⟨n, queue⟩ := entry
      obtain ⟨t, run, _⟩ := process_run valid next
      have turn : s.Turn t := ⟨n, queue, next, run⟩
      have more := turn.card_lt valid (grown.size_le_nodeBound valid.graph)
      obtain ⟨k, u, rest, turns, done⟩ := ih (grown.trans ((turn.steps valid).grown valid)) (turn.valid valid)
        (by omega)
      refine ⟨k + 1, u, ?_, .cons turn turns, done⟩
      rw [drain, next]
      simp only [run]
      exact rest

/-- Nothing is pending, and the sets hold nodes. -/
structure Rested (s : Solver) : Prop where
  graph : s.graph.WellFormed
  idle : ∀ k x, x ∉ s.store.pendingOf k
  facts : ∀ k, ∀ x ∈ s.store.get k, x < s.graph.nodes.size

theorem Rested.valid {s : Solver} (rested : s.Rested) : { s with queue := .empty }.Valid where
  graph := rested.graph
  facts := rested.facts
  apart k x _ pending := rested.idle k x pending
  queue := Worklist.wellFormed_empty
  waiting k := by
    simp only [rested.idle, exists_false, iff_false]
    simp [Worklist.empty, Worklist.toList]
  inside k member := by simp [Worklist.empty, Worklist.toList] at member

theorem Valid.rested {s : Solver} (valid : s.Valid) (done : s.queue.pop? = none) : s.Rested where
  graph := valid.graph
  idle k x pending := by
    have waits := (valid.waiting k).mpr ⟨x, pending⟩
    rw [Worklist.pop?_eq_none_iff.mp done] at waits
    simp at waits
  facts := valid.facts

theorem solve_run {s : Solver} (rested : s.Rested) :
    ∃ u k t, { s with queue := .empty }.activate = .ok u ∧ { s with queue := .empty }.Steps u ∧
      u.graph = s.graph ∧ u.graph.addrEdges.size ≤ u.cursor ∧
      (∀ k, u.store.settledOf k = s.store.settledOf k) ∧ u.Turns k t ∧ t.queue.pop? = none ∧ s.solve = .ok t := by
  obtain ⟨u, active, toU, graph, finished, settled⟩ := activate_run rested.valid
  have validU := toU.valid rested.valid
  have enough : u.graph.nodeBound * u.graph.nodeBound ≤ u.stepBound + (u.settledPairs u.graph.nodeBound).card := by
    have more := Nat.mul_le_mul_left u.graph.nodeBound (Nat.le_add_right u.graph.nodeBound u.store.mass)
    unfold stepBound
    omega
  obtain ⟨k, t, run, turns, done⟩ := drain_run (.refl _) validU enough
  refine ⟨u, k, t, active, toU, graph, finished, settled, turns, done, ?_⟩
  rw [solve, active]
  exact run

/-- From any state with nothing pending, the loop ends. Each of its turns settles a new fact, the nodes it creates are
fields of objects below the limit and no two of them are alike, so that their number is bounded from the start, and
there are at most as many turns as pairs of nodes at the end. -/
theorem solve_terminates {s : Solver} (built : s.graph.Built) (idle : ∀ k x, x ∉ s.store.pendingOf k)
    (facts : ∀ k, ∀ x ∈ s.store.get k, x < s.graph.nodes.size) :
    ∃ u k t, { s with queue := .empty }.activate = .ok u ∧ u.Turns k t ∧ t.queue.pop? = none ∧
      s.solve = .ok t ∧
      (∀ i v w, u.Turns i v → v.Turn w → ∃ n x, x ∉ v.store.settledOf n ∧ x ∈ w.store.settledOf n) ∧
      (∀ n, s.graph.nodes.size ≤ n → n < t.graph.nodes.size → ∃ base offset,
        t.graph.kind? n = some (.field base offset) ∧ s.graph.kind? base = some .object ∧
          offset < s.graph.fieldLimit) ∧
      (∀ n m base offset, t.graph.kind? n = some (.field base offset) →
        t.graph.kind? m = some (.field base offset) → n = m) ∧
      t.graph.nodes.size - s.graph.nodes.size ≤
        (s.graph.nodes.toList.countP fun node => node.kind == .object) * s.graph.fieldLimit ∧
      k ≤ t.graph.nodes.size ^ 2 := by
  have rested : s.Rested := ⟨built.wellFormed, idle, facts⟩
  obtain ⟨u, k, t, active, toU, graph, _, _, turns, done, run⟩ := solve_run rested
  have validU := toU.valid rested.valid
  have validT := turns.valid validU
  have grown : s.graph.Grown t.graph := graph ▸ turns.grown validU
  refine ⟨u, k, t, active, turns, done, run, ?_, grown.newNodes, ?_, grown.new_le validT.graph, turns.le_sq validU⟩
  · intro i v w before turn
    obtain ⟨n, _, x, _, unsettled, settled⟩ := turn.settles (before.valid validU)
    exact ⟨n, x, unsettled, settled⟩
  · intro n m base offset first second
    apply validT.graph.location_injective
    rw [Graph.location_of_field first, Graph.location_of_field second]

theorem solve_terminates_fieldCycle :
    ∃ u k t, (ofGraph Graph.fieldCycle).activate = .ok u ∧ u.Turns k t ∧ t.queue.pop? = none ∧
      t.graph.nodes.size - 2 ≤ 8 ∧ k ≤ t.graph.nodes.size ^ 2 := by
  obtain ⟨u, k, t, active, turns, done, _, _, _, _, new, few⟩ := solve_terminates (s := ofGraph Graph.fieldCycle)
    Graph.built_fieldCycle
    (fun k x pending => DiffStore.not_mem_get_empty k x (DiffStore.mem_get.mpr (Or.inr pending)))
    (fun k x member => absurd member (DiffStore.not_mem_get_empty k x))
  exact ⟨u, k, t, active, turns, done, new, few⟩

end Solver

end PointsTo
