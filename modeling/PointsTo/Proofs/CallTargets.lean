import PointsTo.Resolution
import PointsTo.DiffStore.Lemmas
import PointsTo.Proofs.Graph.Tables
import PointsTo.Proofs.Results
import Mathlib.Data.List.Nodup

namespace PointsTo

namespace Graph

theorem functionOf?_eq_some_iff {g : Graph} {n : NodeId} {f : FuncId} :
    g.functionOf? n = some f ↔ g.kind? n = some (.function f) := by
  unfold functionOf? kind?
  split
  · rename_i entry
    simp [entry]
  · rename_i other
    simp only [reduceCtorEq, false_iff]
    intro known
    obtain ⟨node, atNode, kind⟩ := Option.map_eq_some_iff.mp known
    obtain ⟨name, _⟩ := node
    cases kind
    exact other name f atNode

theorem function_eq_ok {g : Graph} {n : NodeId} (bound : n < g.nodes.size) : g.function n = .ok (g.functionOf? n) := by
  have atNode : g.nodes[n]? = some g.nodes[n] := by simp [bound]
  rw [function, node, atNode]
  rfl

theorem mapM_function {g : Graph} {ns : List NodeId} (inside : ∀ n ∈ ns, n < g.nodes.size) :
    ns.mapM g.function = .ok (ns.map g.functionOf?) :=
  mapM_eq_ok fun n member => function_eq_ok (inside n member)

/-- No two nodes stand for the same function. -/
theorem WellFormed.function_injective {g : Graph} (wf : g.WellFormed) {n m : NodeId} {f : FuncId}
    (first : g.kind? n = some (.function f)) (second : g.kind? m = some (.function f)) : n = m := by
  have atN := (wf.functions f n).mpr first
  have atM := (wf.functions f m).mpr second
  exact Option.some.inj (atN.symm.trans atM)

end Graph

/-- Distinct numbers are strictly ascending once they are sorted. -/
theorem mergeSort_ascending {ns : List Nat} (distinct : ns.Nodup) : ns.mergeSort.Pairwise (· < ·) := by
  have sorted := @List.pairwise_mergeSort Nat (fun a b => decide (a ≤ b))
    (fun a b c first second => by simp only [decide_eq_true_eq] at *; omega)
    (fun a b => by simp only [Bool.or_eq_true, decide_eq_true_eq]; omega) ns
  have apart : ns.mergeSort.Nodup := (List.mergeSort_perm ..).nodup_iff.mpr distinct
  exact (sorted.and apart).imp fun both => Nat.lt_of_le_of_ne (of_decide_eq_true both.1) both.2

section targets
variable {g : Graph} {store : DiffStore} {pointer : NodeId}
  (inside : ∀ a ∈ store.get pointer, a < g.nodes.size)

include inside

theorem callTargets_eq :
    callTargets g store pointer = .ok ((store.get pointer).toList.filterMap g.functionOf?).mergeSort := by
  have found : (store.get pointer).toList.mapM g.function = .ok ((store.get pointer).toList.map g.functionOf?) :=
    Graph.mapM_function fun a member => inside a (PointeeSet.mem_toList.mp member)
  rw [callTargets, found]
  simp only [bind, Except.bind, pure, Except.pure, List.filterMap_map, Function.id_comp]

theorem callTargets_ascending (wf : g.WellFormed) (set : (store.get pointer).WellFormed) :
    ∃ targets, callTargets g store pointer = .ok targets ∧ targets.Pairwise (· < ·) ∧
      ∀ f, f ∈ targets ↔ ∃ a ∈ store.get pointer, g.kind? a = some (.function f) := by
  refine ⟨_, callTargets_eq inside, ?_, ?_⟩
  · refine mergeSort_ascending ((PointeeSet.nodup_toList set).filterMap ?_)
    intro a b f atA atB
    exact wf.function_injective (Graph.functionOf?_eq_some_iff.mp atA) (Graph.functionOf?_eq_some_iff.mp atB)
  · intro f
    simp only [List.mem_mergeSort, List.mem_filterMap, PointeeSet.mem_toList, Graph.functionOf?_eq_some_iff]

end targets

end PointsTo
