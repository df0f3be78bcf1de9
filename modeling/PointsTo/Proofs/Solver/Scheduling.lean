import PointsTo.Proofs.Solver.Moves
import PointsTo.Proofs.Solver.Termination

namespace PointsTo.Solver
variable {s t : Solver}

/-- The nodes that wait are those with pending facts. -/
structure Scheduled (s : Solver) : Prop where
  queue : s.queue.WellFormed
  waiting : ∀ n, n ∈ s.queue.toList ↔ ∃ x, x ∈ s.store.pendingOf n

theorem scheduled_of_idle (idle : ∀ n x, x ∉ s.store.pendingOf n) : { s with queue := .empty }.Scheduled where
  queue := Worklist.wellFormed_empty
  waiting n := by
    simp only [idle, exists_false, iff_false]
    simp [Worklist.empty, Worklist.toList]

namespace Scheduled
variable (scheduled : s.Scheduled)

include scheduled

theorem gains {k : NodeId} {facts : Nat → Prop} (gains : Gains s.store t.store s.queue t.queue k facts) :
    t.Scheduled :=
  ⟨gains.wellFormed scheduled.queue, gains.waiting_iff scheduled.queue scheduled.waiting⟩

theorem move (move : s.Move t) : t.Scheduled := by
  cases move with
  | copy _ _ => exact ⟨scheduled.queue, scheduled.waiting⟩
  | @access offset o r m run =>
    obtain ⟨graph, log, rfl⟩ := reach_frame run
    refine ⟨scheduled.queue, fun n => ?_⟩
    simp only [DiffStore.pendingOf_init]
    exact scheduled.waiting n
  | send n facts => exact scheduled.gains (gains_send s n facts)
  | gain n x => exact scheduled.gains (gains_gain s n x)
  | note _ _ => exact ⟨scheduled.queue, scheduled.waiting⟩

theorem moves (moves : s.Moves t) : t.Scheduled := by
  induction moves with
  | refl => exact scheduled
  | tail _ move ih => exact ih.move move

theorem isEmpty_pendingOf {n : NodeId} (waits : n ∈ s.queue.toList) : (s.store.pendingOf n).isEmpty = false := by
  obtain ⟨x, pending⟩ := (scheduled.waiting n).mp waits
  rw [Bool.eq_false_iff]
  exact fun nothing => PointeeSet.isEmpty_iff.mp nothing x pending

theorem isEmpty_of_pop? {n : NodeId} {queue : Worklist} (next : s.queue.pop? = some (n, queue)) :
    (s.store.pendingOf n).isEmpty = false := by
  refine scheduled.isEmpty_pendingOf ?_
  rw [Worklist.toList_pop? next]
  exact List.mem_cons_self

theorem contains_eq (n : NodeId) : s.queue.contains n = !(s.store.pendingOf n).isEmpty := by
  rw [Bool.eq_iff_iff, Worklist.contains_iff scheduled.queue, scheduled.waiting, Bool.not_eq_true', Bool.eq_false_iff,
    ne_eq, PointeeSet.isEmpty_iff]
  simp only [not_forall, not_not]

/-- The node that has its turn has something to send, so that the turn counts. -/
theorem turn (turn : s.Turn t) : t.Scheduled ∧ t.processed = s.processed + 1 := by
  obtain ⟨n, queue, next, run⟩ := turn
  have pending := scheduled.isEmpty_of_pop? next
  have settled : (s.settle n queue).Scheduled :=
    ⟨Worklist.wellFormed_pop? scheduled.queue next, waiting_iff_flush scheduled.queue next scheduled.waiting⟩
  rcases process_moves run with ⟨nothing, _⟩ | ⟨_, moves⟩
  · exact absurd nothing (Bool.eq_false_iff.mp pending)
  · exact ⟨settled.moves moves, moves.processed⟩

theorem turns {k : Nat} (turns : s.Turns k t) : t.Scheduled ∧ t.processed = s.processed + k := by
  induction turns with
  | start => exact ⟨scheduled, rfl⟩
  | @next k t u _ turn ih =>
    obtain ⟨scheduledT, processedT⟩ := ih
    obtain ⟨scheduledU, processedU⟩ := scheduledT.turn turn
    exact ⟨scheduledU, by rw [processedU, processedT, Nat.add_assoc]⟩

end Scheduled

/-- A run in which nothing is pending at the start. After the address edges have had their turn, and after any number of
turns of the loop, the nodes in the queue are those with pending facts; the next of them has some to send, and as many nodes
count as processed as there were turns. A finished run is such a number of turns; and on a graph that the operations on
graphs can build, with sets of its nodes, every run finishes, with an empty queue. -/
theorem waiting_iff_pending (idle : ∀ n x, x ∉ s.store.pendingOf n) :
    (∀ u k v, { s with queue := .empty }.activate = .ok u → u.Turns k v →
      v.queue.toList.Nodup ∧ (∀ n, n ∈ v.queue.toList ↔ ∃ x, x ∈ v.store.pendingOf n) ∧
      (∀ n, v.queue.contains n = !(v.store.pendingOf n).isEmpty) ∧
      (∀ n queue, v.queue.pop? = some (n, queue) → (v.store.flush n).1.isEmpty = false) ∧
      v.processed = s.processed + k) ∧
    (∀ t, s.solve = .ok t → ∃ u k, { s with queue := .empty }.activate = .ok u ∧ u.Turns k t) ∧
    (s.graph.Built → (∀ n, ∀ x ∈ s.store.get n, x < s.graph.nodes.size) →
      ∃ u k t, { s with queue := .empty }.activate = .ok u ∧ u.Turns k t ∧ t.queue.pop? = none ∧ s.solve = .ok t) := by
  refine ⟨fun u k v active turns => ?_, fun t => solve_turns, fun built facts => ?_⟩
  · have moves := activate_moves active
    obtain ⟨scheduled, processed⟩ := ((scheduled_of_idle idle).moves moves).turns turns
    refine ⟨scheduled.queue.nodup, scheduled.waiting, scheduled.contains_eq, fun n queue next => ?_, ?_⟩
    · rw [DiffStore.flush_facts]
      exact scheduled.isEmpty_of_pop? next
    · rw [processed, moves.processed]
  · obtain ⟨u, k, t, active, _, _, _, _, turns, done, run⟩ := solve_run ⟨built.wellFormed, idle, facts⟩
    exact ⟨u, k, t, active, turns, done, run⟩

/-- The pointer of the cycle learns a new field in each of its turns, and waits again at once. -/
theorem waiting_iff_pending_fieldCycle :
    ∃ u t, (ofGraph Graph.fieldCycle).activate = .ok u ∧ (∀ n, n ∈ u.queue.toList ↔ ∃ x, x ∈ u.store.pendingOf n) ∧
      u.queue.toList = [1] ∧ u.Turns 8 t ∧ t.queue.pop? = none ∧ (∀ n x, x ∉ t.store.pendingOf n) ∧
      (ofGraph Graph.fieldCycle).solve = .ok t ∧ t.processed = 8 := by
  have started : (ofGraph Graph.fieldCycle).activate.toOption.any fun u => u.queue.toList = [1] := by decide +kernel
  have finished : (ofGraph Graph.fieldCycle).solve.toOption.any fun t => t.processed = 8 := by decide +kernel
  have idle (n : NodeId) (x : Nat) : x ∉ (ofGraph Graph.fieldCycle).store.pendingOf n :=
    fun pending => DiffStore.not_mem_get_empty n x (DiffStore.mem_get.mpr (Or.inr pending))
  obtain ⟨always, _, ends⟩ := waiting_iff_pending idle
  obtain ⟨u, k, t, active, turns, done, run⟩ := ends Graph.built_fieldCycle
    fun n x member => absurd member (DiffStore.not_mem_get_empty n x)
  obtain ⟨u', active', queue⟩ := exists_of_any started
  obtain ⟨t', run', processed⟩ := exists_of_any finished
  cases active.symm.trans active'
  cases run.symm.trans run'
  obtain ⟨_, atStart, _⟩ := always u 0 u active .start
  obtain ⟨_, atEnd, _, _, count⟩ := always u k t active turns
  have eight : k = 8 := by
    rw [of_decide_eq_true processed] at count
    exact (Nat.zero_add k).symm.trans count.symm
  subst eight
  refine ⟨u, t, active, atStart, of_decide_eq_true queue, turns, done, fun n x pending => ?_, run,
    of_decide_eq_true processed⟩
  have waits := (atEnd n).mpr ⟨x, pending⟩
  rw [Worklist.pop?_eq_none_iff.mp done] at waits
  exact List.not_mem_nil waits

end PointsTo.Solver
