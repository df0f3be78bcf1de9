import Mathlib.Algebra.Order.BigOperators.Group.List
import Mathlib.Algebra.Ring.Nat
import PointsTo.Report.Statistics
import PointsTo.Proofs.DiffStore.Refinement
import PointsTo.Proofs.Entries
import PointsTo.Proofs.Graph.Assembly
import PointsTo.Proofs.Results
import PointsTo.Proofs.Solver.Moves
import PointsTo.Proofs.Solver.Soundness

namespace PointsTo

/-- The facts of some sets, each with its node. -/
def factPairs (sets : List (NodeId × PointeeSet)) : List (NodeId × Nat) :=
  sets.flatMap fun entry => entry.2.toList.map (entry.1, ·)

theorem mem_factPairs {sets : List (NodeId × PointeeSet)} {n : NodeId} {x : Nat} :
    (n, x) ∈ factPairs sets ↔ ∃ set, (n, set) ∈ sets ∧ x ∈ set := by
  simp [factPairs, PointeeSet.mem_toList]

theorem length_factPairs (sets : List (NodeId × PointeeSet)) :
    (factPairs sets).length = (sets.map (·.2.count)).sum := by
  simp [factPairs, List.length_flatMap, PointeeSet.count_eq_length]

theorem nodup_factPairs {sets : List (NodeId × PointeeSet)} (keys : (sets.map (·.1)).Nodup)
    (wf : ∀ entry ∈ sets, entry.2.WellFormed) : (factPairs sets).Nodup := by
  rw [factPairs, List.nodup_flatMap]
  constructor
  · intro entry member
    exact (PointeeSet.nodup_toList (wf entry member)).map fun x y same => (Prod.mk.inj same).2
  · refine (List.pairwise_map.mp keys).imp fun different => ?_
    intro pair first second
    obtain ⟨x, _, rfl⟩ := List.mem_map.mp first
    obtain ⟨y, _, same⟩ := List.mem_map.mp second
    exact different (Prod.mk.inj same).1.symm

/-- Sets with the same facts have the same number of facts. -/
theorem sum_count_eq {a b : List (NodeId × PointeeSet)} (first : (factPairs a).Nodup) (second : (factPairs b).Nodup)
    (same : ∀ n x, (n, x) ∈ factPairs a ↔ (n, x) ∈ factPairs b) :
    (a.map (·.2.count)).sum = (b.map (·.2.count)).sum := by
  rw [← length_factPairs, ← length_factPairs]
  exact ((List.perm_ext_iff_of_nodup first second).mpr fun pair => same pair.1 pair.2).length_eq

namespace Solver

/-- Facts stand under nodes, and no set has an element twice. -/
structure Proper (s : Solver) : Prop where
  keys : ∀ k x, x ∈ s.store.get k → k < s.graph.nodes.size
  sets : s.store.WellFormed

theorem Step.proper {s t : Solver} (valid : s.Valid) (step : s.Step t) (proper : s.Proper) : t.Proper := by
  obtain ⟨keys, sets⟩ := proper
  cases step with
  | @seed e edge _ found =>
    have target := (valid.graph.ends edge (Array.mem_iff_getElem?.mpr ⟨e, found⟩)).2
    constructor
    · intro k x member
      rw [gain_graph]
      rcases (gains_gain ..).mem_get.mp member with old | ⟨rfl, _⟩
      · exact keys k x old
      · exact target
    · rw [gain, schedule_store]
      exact sets.add _ _
  | record _ => exact ⟨keys, sets⟩
  | settle _ => exact ⟨fun k x member => keys k x (DiffStore.mem_get_flush.mp member), sets.flush _⟩
  | infer step =>
    constructor
    · intro k x member
      obtain ⟨grown, _, _, j, _, gains, target, _⟩ := step.outcome valid
      refine Nat.lt_of_lt_of_le ?_ grown.size_le
      rcases gains.mem_get.mp member with old | ⟨rfl, _⟩
      · exact keys k x old
      · exact target
    · cases step with
      | copy _ _ =>
        rw [send, schedule_store]
        exact sets.unite _ _
      | link _ _ =>
        rw [send, schedule_store]
        exact sets.unite _ _
      | @access p x offset o r m _ settled run =>
        rw [gain, schedule_store, (valid.reaches (valid.settled_lt settled) run).store]
        exact (sets.init m).add x m

theorem Steps.proper {s t : Solver} (run : s.Steps t) (valid : s.Valid) (proper : s.Proper) : t.Proper :=
  (run.keeps (fun _ _ validB step => step.proper validB) valid proper).2

theorem Inferences.processed {s t : Solver} (run : s.Inferences t) : t.processed = s.processed := by
  induction run with
  | refl => rfl
  | tail _ step ih =>
    refine Eq.trans ?_ ih
    cases step with
    | copy _ _ => exact schedule_processed ..
    | link _ _ => exact schedule_processed ..
    | access _ _ run =>
      obtain ⟨graph, log, rfl⟩ := reach_frame run
      exact schedule_processed ..

/-- What is sent in at most `steps` turns: the pending facts of each node that is taken from the queue. -/
def sentWithin : (steps : Nat) → Solver → List (NodeId × PointeeSet)
  | 0, _ => []
  | steps + 1, s =>
    match s.queue.pop? with
    | none => []
    | some (n, queue) =>
      match { s with queue }.process n with
      | .error _ => []
      | .ok t => (n, (s.store.flush n).1) :: sentWithin steps t

/-- All that is sent where the solver runs. -/
def sentBySolve (s : Solver) : List (NodeId × PointeeSet) :=
  match { s with queue := .empty }.activate with
  | .error _ => []
  | .ok t => t.sentWithin t.stepBound

/-- From `s` to `t`, the sets `sent` have been sent on, with facts that were not settled before and are settled since. -/
structure Sends (s t : Solver) (sent : List (NodeId × PointeeSet)) : Prop where
  nodup : (factPairs sent).Nodup
  settled : ∀ n x, x ∈ t.store.settledOf n ↔ x ∈ s.store.settledOf n ∨ (n, x) ∈ factPairs sent
  new : ∀ n x, (n, x) ∈ factPairs sent → x ∉ s.store.settledOf n
  some : ∀ entry ∈ sent, ∃ x, x ∈ entry.2
  processed : t.processed = s.processed + sent.length

namespace Sends
variable {s t u : Solver} {sent later : List (NodeId × PointeeSet)}

theorem nothing (settled : ∀ k, t.store.settledOf k = s.store.settledOf k) (processed : t.processed = s.processed) :
    s.Sends t [] where
  nodup := List.nodup_nil
  settled n x := by simp [settled, factPairs]
  new n x member := absurd member List.not_mem_nil
  some entry member := absurd member List.not_mem_nil
  processed := processed

theorem trans (first : s.Sends t sent) (second : t.Sends u later) : s.Sends u (sent ++ later) where
  nodup := by
    rw [factPairs, List.flatMap_append]
    refine List.nodup_append.mpr ⟨first.nodup, second.nodup, ?_⟩
    -- what has been sent before is settled by then
    rintro ⟨n, x⟩ before _ after rfl
    exact second.new n x after ((first.settled n x).mpr (Or.inr before))
  settled n x := by
    rw [second.settled, first.settled, factPairs, factPairs, factPairs, List.flatMap_append, List.mem_append, or_assoc]
  new n x member := by
    rw [factPairs, List.flatMap_append] at member
    rcases List.mem_append.mp member with before | after
    · exact first.new n x before
    · exact fun old => second.new n x after ((first.settled n x).mpr (Or.inl old))
  some entry member := (List.mem_append.mp member).elim (first.some entry) (second.some entry)
  processed := by rw [second.processed, first.processed, List.length_append, Nat.add_assoc]

end Sends

theorem sends_process {s t : Solver} (valid : s.Valid) (proper : s.Proper) {n : NodeId} {queue : Worklist}
    (next : s.queue.pop? = some (n, queue)) (run : { s with queue }.process n = .ok t) :
    s.Sends t [(n, (s.store.flush n).1)] := by
  obtain ⟨t', run', toT, _⟩ := process_run valid next
  cases run.symm.trans run'
  have pending (k x : Nat) : (k, x) ∈ factPairs [(n, (s.store.flush n).1)] ↔ k = n ∧ x ∈ s.store.pendingOf n := by
    rw [mem_factPairs, DiffStore.flush_facts]
    simp
  refine ⟨nodup_factPairs (by simp) ?_, fun k x => ?_, fun k x => ?_, ?_, toT.processed⟩
  · rw [DiffStore.flush_facts]
    simpa using (proper.sets n).1
  · rw [toT.settledOf (valid.settle next), pending]
    exact DiffStore.mem_settledOf_flush
  · rw [pending]
    rintro ⟨rfl, waits⟩ settled
    exact valid.apart k x settled waits
  · have waits : n ∈ s.queue.toList := by
      rw [Worklist.toList_pop? next]
      exact List.mem_cons_self
    rw [DiffStore.flush_facts]
    simpa using (valid.waiting n).mp waits

theorem sends_drain {steps : Nat} {s t : Solver} (valid : s.Valid) (proper : s.Proper) (run : s.drain steps = .ok t) :
    s.Sends t (s.sentWithin steps) := by
  induction steps generalizing s with
  | zero =>
    cases run
    exact .nothing (fun _ => rfl) rfl
  | succ steps ih =>
    rw [drain] at run
    rw [sentWithin]
    cases next : s.queue.pop? with
    | none =>
      rw [next] at run
      cases run
      exact .nothing (fun _ => rfl) rfl
    | some entry =>
      obtain ⟨n, queue⟩ := entry
      rw [next] at run
      obtain ⟨u, turn, rest⟩ := bind_eq_ok_iff.mp run
      simp only [turn]
      have toU : s.Turn u := ⟨n, queue, next, turn⟩
      have properU := (toU.steps valid).proper valid proper
      exact (sends_process valid proper next turn).trans (ih (toU.valid valid) properU rest)

theorem sends_solve {s t : Solver} (rested : s.Rested) (proper : s.Proper) (run : s.solve = .ok t) :
    s.Sends t s.sentBySolve ∧ t.Rested ∧ t.Proper := by
  obtain ⟨u, k, t', active, toU, _, _, settled, turns, done, run'⟩ := solve_run rested
  cases run.symm.trans run'
  have validU := toU.valid rested.valid
  have properU : u.Proper := toU.proper rested.valid ⟨proper.keys, proper.sets⟩
  have properT := (turns.steps validU).proper validU properU
  have drained : u.drain u.stepBound = .ok t := by
    rw [solve, active] at run
    exact run
  have begun : s.Sends u [] := .nothing settled (activate_moves active).processed
  have sent : s.sentBySolve = u.sentWithin u.stepBound := by rw [sentBySolve, active]
  rw [sent]
  exact ⟨begun.trans (sends_drain validU properU drained), (turns.valid validU).rested done, properT⟩

/-- How a solver comes about: it begins with sets that are all empty, and runs again and again, with edges added and the
field limit set in between. It has sent the sets `sent` on, one after the other. -/
inductive Ledger : Solver → List (NodeId × PointeeSet) → Prop
  | start {g : Graph} (built : g.Built) (keys : List NodeId) : Ledger { ofGraph g with store := .ofKeys keys } []
  | edge {s sent edge h e} : Ledger s sent → s.graph.addEdge edge = .ok (h, e) → Ledger { s with graph := h } sent
  | prepare {s sent} (limit : Nat) : Ledger s sent → Ledger (s.prepare limit) sent
  | record {s sent} (event : Event) : Ledger s sent → Ledger (s.record event) sent
  | solve {s t sent} : Ledger s sent → s.solve = .ok t → Ledger t (sent ++ s.sentBySolve)

/-- The sets are in order, nothing is pending, and what has been sent is what is settled. -/
structure Balanced (s : Solver) (sent : List (NodeId × PointeeSet)) : Prop where
  rested : s.Rested
  proper : s.Proper
  sends : ∃ start : Solver, (∀ k x, x ∉ start.store.settledOf k) ∧ start.processed = 0 ∧ start.Sends s sent

theorem balanced_start {g : Graph} (built : g.Built) (keys : List NodeId) :
    Balanced { ofGraph g with store := .ofKeys keys } [] := by
  have rep := DiffStore.represents_ofKeys keys
  have none (k : NodeId) (x : Nat) : x ∉ (DiffStore.ofKeys keys).get k := by
    rw [rep.sets]
    exact Finset.notMem_empty x
  refine ⟨⟨built.wellFormed, fun k x pending => ?_, fun k x member => absurd member (none k x)⟩,
    ⟨fun k x member => absurd member (none k x), rep.wellFormed⟩, _, fun k x settled => ?_, ?_,
    .nothing (fun _ => rfl) rfl⟩
  · exact none k x (DiffStore.mem_get.mpr (Or.inr pending))
  · exact none k x (DiffStore.mem_get.mpr (Or.inl settled))
  · rfl

namespace Balanced
variable {s t : Solver} {sent : List (NodeId × PointeeSet)} (balanced : s.Balanced sent)

include balanced

/-- What leaves the sets and the counter alone leaves the books in order. -/
theorem keep (graph : t.graph.WellFormed) (size : s.graph.nodes.size ≤ t.graph.nodes.size)
    (pending : ∀ k, t.store.pendingOf k = s.store.pendingOf k)
    (settled : ∀ k, t.store.settledOf k = s.store.settledOf k) (processed : t.processed = s.processed) :
    t.Balanced sent := by
  obtain ⟨rested, proper, start, none, zero, sends⟩ := balanced
  have get (k : NodeId) : t.store.get k = s.store.get k := by
    rw [DiffStore.get, DiffStore.get, pending, settled]
  refine ⟨⟨graph, fun k => ?_, fun k x member => ?_⟩, ⟨fun k x member => ?_, fun k => ?_⟩, start, none, zero, ?_⟩
  · rw [pending]
    exact rested.idle k
  · rw [get] at member
    exact Nat.lt_of_lt_of_le (rested.facts k x member) size
  · rw [get] at member
    exact Nat.lt_of_lt_of_le (proper.keys k x member) size
  · rw [pending, settled]
    exact proper.sets k
  · simpa using sends.trans (.nothing settled processed)

theorem solve (run : s.solve = .ok t) : t.Balanced (sent ++ s.sentBySolve) := by
  obtain ⟨rested, proper, start, none, zero, sends⟩ := balanced
  obtain ⟨more, restedT, properT⟩ := sends_solve rested proper run
  exact ⟨restedT, properT, start, none, zero, sends.trans more⟩

end Balanced

theorem Ledger.balanced {s : Solver} {sent : List (NodeId × PointeeSet)} (ledger : Ledger s sent) :
    s.Balanced sent := by
  induction ledger with
  | start built keys => exact balanced_start built keys
  | @edge s sent edge h e _ added ih =>
    have nodes : h.nodes = s.graph.nodes := by
      obtain ⟨_, _, inserted⟩ := Graph.addEdge_eq_ok_iff.mp added
      rw [← Graph.nodes_insertEdge s.graph edge, inserted]
    refine ih.keep (ih.rested.graph.addEdge added) ?_ (fun _ => rfl) (fun _ => rfl) rfl
    exact Nat.le_of_eq (congrArg Array.size nodes.symm)
  | @prepare s sent limit _ ih =>
    have graph := ih.rested.graph
    exact ih.keep ⟨graph.toEdgesFiled.of_eq rfl rfl rfl (Nat.le_refl _), graph.toNodesFiled.of_eq rfl rfl rfl⟩
      (Nat.le_refl _) (fun k => (DiffStore.parts_foldl_init _ s.store k).1)
      (fun k => (DiffStore.parts_foldl_init _ s.store k).2) rfl
  | record event _ ih => exact ih.keep ih.rested.graph (Nat.le_refl _) (fun _ => rfl) (fun _ => rfl) rfl
  | solve _ run ih => exact ih.solve run

theorem Ledger.exists_solve {s : Solver} {sent : List (NodeId × PointeeSet)} (ledger : Ledger s sent) :
    ∃ t, s.solve = .ok t ∧ Ledger t (sent ++ s.sentBySolve) := by
  obtain ⟨_, _, t, _, _, _, _, _, _, _, run⟩ := solve_run ledger.balanced.rested
  exact ⟨t, run, ledger.solve run⟩

theorem Ledger.exists_analyze {s : Solver} {sent : List (NodeId × PointeeSet)} (ledger : Ledger s sent)
    (limit : Nat) : ∃ t, s.analyze limit = .ok t ∧ Ledger t (sent ++ (s.prepare limit).sentBySolve) := by
  obtain ⟨t, run, last⟩ := (ledger.prepare limit).exists_solve
  refine ⟨_, ?_, (last.record (.propagated t.processed t.copyEdges)).record .solved⟩
  rw [analyze, propagate, run]
  rfl

end Solver

theorem PointeeSet.nonempty_iff {set : PointeeSet} : (!set.isEmpty) = true ↔ ∃ x, x ∈ set := by
  rw [Bool.not_eq_true', Bool.eq_false_iff, ne_eq, isEmpty_iff, not_forall]
  simp only [not_not]

namespace DiffStore

theorem mem_settledOf {s : DiffStore} {n : NodeId} {x : Nat} :
    x ∈ s.settledOf n ↔ ∃ set, (n, set) ∈ s.settled.toList ∧ x ∈ set := by
  simp only [settledOf, Std.TreeMap.getD_eq_getD_getElem?, Std.TreeMap.mem_toList_iff_getElem?_eq_some]
  cases s.settled[n]? <;> simp [PointeeSet.not_mem_empty]

theorem mem_settled_of_fact {s : DiffStore} {n : NodeId} {x : Nat} (settled : x ∈ s.settledOf n) : n ∈ s.settled := by
  obtain ⟨set, listed, _⟩ := mem_settledOf.mp settled
  rw [Std.TreeMap.mem_iff_isSome_getElem?, Std.TreeMap.mem_toList_iff_getElem?_eq_some.mp listed]
  rfl

theorem nodup_settled_keys (s : DiffStore) : (s.settled.toList.map (·.1)).Nodup := by
  rw [Std.TreeMap.map_fst_toList_eq_keys]
  exact Std.TreeMap.nodup_keys

theorem WellFormed.nodup_settled {s : DiffStore} (wf : s.WellFormed) : (factPairs s.settled.toList).Nodup := by
  refine nodup_factPairs s.nodup_settled_keys fun entry member => ?_
  have set := (wf entry.1).2
  rw [settledOf, Std.TreeMap.getD_eq_getD_getElem?, Std.TreeMap.mem_toList_iff_getElem?_eq_some.mp member] at set
  exact set

end DiffStore

theorem PointsToStatistics.relations_eq (s : Solver) :
    (ofSolver s).relations = (s.store.settled.toList.map (·.2.count)).sum := by
  rw [ofSolver, values_eq_map_toList, ← List.sum_eq_foldl_nat, List.map_map]
  rfl

namespace Solver.Balanced
variable {s : Solver} {sent : List (NodeId × PointeeSet)} (balanced : s.Balanced sent)

include balanced

theorem mem_get_iff {n : NodeId} {x : Nat} : x ∈ s.store.get n ↔ x ∈ s.store.settledOf n :=
  ⟨balanced.rested.settled, fun settled => DiffStore.mem_get.mpr (Or.inl settled)⟩

theorem mem_settled {n : NodeId} {x : Nat} (member : x ∈ s.store.get n) : n ∈ s.store.settled :=
  DiffStore.mem_settled_of_fact (balanced.mem_get_iff.mp member)

theorem nodup_sent : (factPairs sent).Nodup := by
  obtain ⟨_, _, _, sends⟩ := balanced.sends
  exact sends.nodup

theorem mem_sent_iff {n : NodeId} {x : Nat} : (n, x) ∈ factPairs sent ↔ x ∈ s.store.get n := by
  obtain ⟨start, none, _, sends⟩ := balanced.sends
  rw [balanced.mem_get_iff, sends.settled]
  exact ⟨Or.inr, fun either => either.resolve_left (none n x)⟩

theorem relations_eq_sent : (PointsToStatistics.ofSolver s).relations = (sent.map (·.2.count)).sum := by
  rw [PointsToStatistics.relations_eq]
  refine sum_count_eq balanced.proper.sets.nodup_settled balanced.nodup_sent fun n x => ?_
  rw [balanced.mem_sent_iff, balanced.mem_get_iff, mem_factPairs, DiffStore.mem_settledOf]

theorem relations_eq_get : (PointsToStatistics.ofSolver s).relations =
    ((List.range s.graph.nodes.size).map fun n => (s.store.get n).count).sum := by
  have sets : (factPairs ((List.range s.graph.nodes.size).map fun n => (n, s.store.get n))).Nodup := by
    apply nodup_factPairs
    · rw [List.map_map]
      exact (List.map_id (List.range s.graph.nodes.size)).symm ▸ List.nodup_range
    · simp only [List.mem_map]
      rintro _ ⟨n, _, rfl⟩
      exact balanced.proper.sets.get n
  rw [PointsToStatistics.relations_eq]
  refine (sum_count_eq balanced.proper.sets.nodup_settled sets fun n x => ?_).trans (by rw [List.map_map]; rfl)
  rw [mem_factPairs, mem_factPairs, ← DiffStore.mem_settledOf, ← balanced.mem_get_iff]
  constructor
  · intro member
    exact ⟨_, List.mem_map.mpr ⟨n, List.mem_range.mpr (balanced.proper.keys n x member), rfl⟩, member⟩
  · rintro ⟨set, listed, member⟩
    obtain ⟨m, _, same⟩ := List.mem_map.mp listed
    cases same
    exact member

theorem pointers_eq : (PointsToStatistics.ofSolver s).pointers =
    (List.range s.graph.nodes.size).countP fun n => !(s.store.get n).isEmpty := by
  have nodes : ((s.store.settled.toList.filter fun entry => !entry.2.isEmpty).map (·.1)).Perm
      ((List.range s.graph.nodes.size).filter fun n => !(s.store.get n).isEmpty) := by
    apply (List.perm_ext_iff_of_nodup ?_ (List.nodup_range.filter _)).mpr
    · intro n
      simp only [List.mem_map, List.mem_filter, List.mem_range, PointeeSet.nonempty_iff]
      constructor
      · rintro ⟨⟨_, set⟩, ⟨listed, x, member⟩, rfl⟩
        have known := balanced.mem_get_iff.mpr (DiffStore.mem_settledOf.mpr ⟨set, listed, member⟩)
        exact ⟨balanced.proper.keys _ x known, x, known⟩
      · rintro ⟨_, x, member⟩
        obtain ⟨set, listed, inSet⟩ := DiffStore.mem_settledOf.mp (balanced.mem_get_iff.mp member)
        exact ⟨(n, set), ⟨listed, x, inSet⟩, rfl⟩
    · exact s.store.nodup_settled_keys.sublist (List.filter_sublist.map _)
  rw [PointsToStatistics.ofSolver, values_eq_map_toList, List.countP_map, List.countP_eq_length_filter,
    List.countP_eq_length_filter, ← nodes.length_eq, List.length_map]
  rfl

theorem processed_eq : (PointsToStatistics.ofSolver s).processed = sent.length := by
  obtain ⟨start, _, zero, sends⟩ := balanced.sends
  exact sends.processed.trans (by rw [zero, Nat.zero_add])

theorem length_sent_le : sent.length ≤ (sent.map (·.2.count)).sum := by
  obtain ⟨_, _, _, sends⟩ := balanced.sends
  rw [← List.length_map (·.2.count)]
  refine List.length_le_sum_of_one_le _ fun count member => ?_
  obtain ⟨entry, listed, rfl⟩ := List.mem_map.mp member
  obtain ⟨x, fact⟩ := sends.some entry listed
  rw [PointeeSet.count_eq_length]
  exact List.length_pos_of_mem (PointeeSet.mem_toList.mpr fact)

end Solver.Balanced

namespace Solver

/-- The books of a solver balance. Its next run ends; the sets that it has sent on hold every fact once and nothing else,
so that their sizes add up to the number of relations, and no more nodes have been processed than there are relations.
Every node with a fact has a settled entry, and the numbers of pointers and of relations, which are taken from the settled
entries, are the numbers of nodes with facts and of all their facts. -/
theorem ledger_balances {s : Solver} {sent : List (NodeId × PointeeSet)} (ledger : Ledger s sent) :
    (∃ t, s.solve = .ok t ∧ Ledger t (sent ++ s.sentBySolve)) ∧
      (∀ limit, ∃ t, s.analyze limit = .ok t ∧ Ledger t (sent ++ (s.prepare limit).sentBySolve)) ∧
      (factPairs sent).Nodup ∧ (∀ n x, (n, x) ∈ factPairs sent ↔ x ∈ s.store.get n) ∧
      (∀ n x, x ∈ s.store.get n → n < s.graph.nodes.size ∧ n ∈ s.store.settled) ∧
      let p := PointsToStatistics.ofSolver s
      p.relations = (sent.map (·.2.count)).sum ∧ p.processed = sent.length ∧ p.processed ≤ p.relations ∧
      p.pointers = ((List.range s.graph.nodes.size).countP fun n => !(s.store.get n).isEmpty) ∧
      p.relations = ((List.range s.graph.nodes.size).map fun n => (s.store.get n).count).sum := by
  have balanced := ledger.balanced
  refine ⟨ledger.exists_solve, ledger.exists_analyze, balanced.nodup_sent, fun _ _ => balanced.mem_sent_iff,
    fun n x member => ⟨balanced.proper.keys n x member, balanced.mem_settled member⟩, balanced.relations_eq_sent,
    balanced.processed_eq, ?_, balanced.pointers_eq, balanced.relations_eq_get⟩
  rw [balanced.processed_eq, balanced.relations_eq_sent]
  exact balanced.length_sent_le

/-- A pointer to two targets that is copied: `q = &o; q = &f; r = q`. -/
def twoTargets : List Edge := [⟨0, 5, .addr⟩, ⟨1, 5, .addr⟩, ⟨5, 6, .copy⟩]

theorem ledger_balances_twoTargets :
    ∃ t h e u sent, (ofGraph (Graph.callback twoTargets)).analyze 8 = .ok t ∧
      t.graph.addEdge ⟨1, 2, .addr⟩ = .ok (h, e) ∧ { t with graph := h }.solve = .ok u ∧ Ledger u sent ∧
      (factPairs sent).Nodup ∧ (sent.map (·.2.count)).sum = 5 ∧ sent.length = 3 ∧
      (PointsToStatistics.ofSolver u).pointers = 3 := by
  have evaluated : ((ofGraph (Graph.callback twoTargets)).analyze 8).toOption.any fun t =>
      (t.graph.addEdge ⟨1, 2, .addr⟩).toOption.any fun added =>
        ({ t with graph := added.1 }.solve).toOption.any fun u =>
          PointsToStatistics.ofSolver u = PointsToStatistics.mk 3 5 3 0 := by decide +kernel
  have built : (Graph.callback twoTargets).Built := Graph.built_callback (by decide)
  have start : Ledger (ofGraph (Graph.callback twoTargets)) [] := .start built []
  obtain ⟨_, analyses, _⟩ := ledger_balances start
  obtain ⟨t, run, ledger⟩ := analyses 8
  obtain ⟨t', run', later⟩ := exists_of_any evaluated
  cases run.symm.trans run'
  obtain ⟨⟨h, e⟩, added, solves⟩ := exists_of_any later
  obtain ⟨u, solved, numbers⟩ := exists_of_any solves
  have last := (ledger.edge added).solve solved
  obtain ⟨_, _, once, _, _, relations, processed, _⟩ := ledger_balances last
  rw [of_decide_eq_true numbers] at relations processed
  exact ⟨t, h, e, u, _, run, added, solved, last, once, relations.symm, processed.symm,
    congrArg PointsToStatistics.pointers (of_decide_eq_true numbers)⟩

end Solver

end PointsTo
