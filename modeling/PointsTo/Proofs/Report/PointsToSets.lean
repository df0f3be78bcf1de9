import PointsTo.Proofs.Program.Safety
import PointsTo.Proofs.Solver.Ledger

namespace PointsTo

namespace DiffStore

/-- Every key with facts has a settled entry. -/
def Entered (s : DiffStore) : Prop := ∀ k x, x ∈ s.get k → k ∈ s.settled

/-- The settled keys whose sets are not empty. -/
def pointers (s : DiffStore) : List NodeId := s.keys.filter fun k => !(s.get k).isEmpty

theorem nonempty_eq (s : DiffStore) : s.nonempty = s.pointers.map fun k => (k, s.get k) := by
  rw [nonempty, pointers, List.filter_map]
  rfl

theorem pointers_ascending (s : DiffStore) : s.pointers.Pairwise (· < ·) :=
  (Std.TreeMap.ordered_keys.imp Nat.compare_eq_lt.mp).filter _

theorem Entered.mem_pointers {s : DiffStore} (entered : s.Entered) {k : NodeId} :
    k ∈ s.pointers ↔ ∃ x, x ∈ s.get k := by
  rw [pointers, List.mem_filter, PointeeSet.nonempty_iff, mem_keys]
  exact ⟨And.right, fun some => ⟨some.elim (entered k), some⟩⟩

end DiffStore

theorem PointeeSet.mergeSort_eq {set : PointeeSet} (wf : set.WellFormed) {ns : List Nat} (ascending : ns.Pairwise (· < ·))
    (same : ∀ x, x ∈ ns ↔ x ∈ set) : set.toList.mergeSort = ns := by
  refine List.Pairwise.eq_of_mem_iff (mergeSort_ascending (nodup_toList wf)) ascending fun x => ?_
  rw [List.mem_mergeSort, mem_toList, same]

theorem pointsToReport_pointers (g : Graph) (store : DiffStore) : pointsToReport g store =
    (store.pointers.mapM fun k => pointsToLine g k (store.get k)).map String.join := by
  rw [pointsToReport, DiffStore.nonempty_eq, List.mapM_map]
  rfl

/-- A line depends on what is in the set only. -/
theorem pointsToLine_congr {g : Graph} {n : NodeId} {a b : PointeeSet} (first : a.WellFormed) (second : b.WellFormed)
    (same : ∀ x, x ∈ a ↔ x ∈ b) : pointsToLine g n a = pointsToLine g n b := by
  have sorted : a.toList.mergeSort = b.toList.mergeSort := by
    refine PointeeSet.mergeSort_eq first (mergeSort_ascending (PointeeSet.nodup_toList second)) fun x => ?_
    rw [List.mem_mergeSort, PointeeSet.mem_toList, same]
  rw [pointsToLine, sorted, pointsToLine]

theorem pointsToReport_congr {g : Graph} {store store' : DiffStore} (wf : store.WellFormed) (wf' : store'.WellFormed)
    (entered : store.Entered) (entered' : store'.Entered) (same : ∀ k x, x ∈ store.get k ↔ x ∈ store'.get k) :
    pointsToReport g store = pointsToReport g store' := by
  have keys : store.pointers = store'.pointers := by
    refine List.Pairwise.eq_of_mem_iff store.pointers_ascending store'.pointers_ascending fun k => ?_
    simp only [entered.mem_pointers, entered'.mem_pointers, same]
  have lines : (fun k => pointsToLine g k (store.get k)) = fun k => pointsToLine g k (store'.get k) :=
    funext fun k => pointsToLine_congr (wf.get k) (wf'.get k) (same k)
  rw [pointsToReport_pointers, pointsToReport_pointers, keys, lines]

namespace Graph

def nameOf (g : Graph) (n : NodeId) : String := ((g.nodes[n]?).map (·.name)).getD ""

/-- The nodes that `n` points to, in their order. -/
def pointees (g : Graph) (store : DiffStore) (n : NodeId) : List NodeId :=
  (List.range g.nodes.size).filter (store.get n).contains

def pointsToEntry (g : Graph) (store : DiffStore) (n : NodeId) : String :=
  g.nameOf n ++ " ==> \x7b " ++ String.join ((g.pointees store n).map (g.nameOf · ++ " ")) ++ "\x7d\n"

/-- An entry for each node that points to something, in the order of the nodes. -/
def pointsToText (g : Graph) (store : DiffStore) : String :=
  String.join (((List.range g.nodes.size).filter fun n => !(store.get n).isEmpty).map (g.pointsToEntry store))

theorem nodeName_eq {g : Graph} {n : NodeId} (bound : n < g.nodes.size) : g.nodeName n = .ok (g.nameOf n) := by
  have found : g.nodes[n]? = some g.nodes[n] := by simp [bound]
  rw [nodeName, node, nameOf, found]
  rfl

theorem mem_pointees {g : Graph} {store : DiffStore} {n : NodeId} {x : Nat} :
    x ∈ g.pointees store n ↔ x < g.nodes.size ∧ x ∈ store.get n := by
  rw [pointees, List.mem_filter, List.mem_range, PointeeSet.mem_def]

end Graph

section text
variable {g : Graph} {store : DiffStore} (inside : ∀ n x, x ∈ store.get n → n < g.nodes.size ∧ x < g.nodes.size)

include inside

theorem pointsToLine_eq (wf : store.WellFormed) {n : NodeId} (bound : n < g.nodes.size) :
    pointsToLine g n (store.get n) = .ok (g.pointsToEntry store n) := by
  have sorted : (store.get n).toList.mergeSort = g.pointees store n := by
    refine PointeeSet.mergeSort_eq (wf.get n) (List.pairwise_lt_range.filter _) fun x => ?_
    rw [Graph.mem_pointees]
    exact ⟨And.right, fun member => ⟨(inside n x member).2, member⟩⟩
  have names : (g.pointees store n).mapM g.nodeName = .ok ((g.pointees store n).map g.nameOf) :=
    mapM_eq_ok fun x member => Graph.nodeName_eq (Graph.mem_pointees.mp member).1
  rw [pointsToLine, Graph.nodeName_eq bound, sorted, names, Graph.pointsToEntry]
  simp only [bind, Except.bind, pure, Except.pure, List.map_map, Function.comp_def]

theorem pointsToReport_eq (wf : store.WellFormed) (entered : store.Entered) :
    pointsToReport g store = .ok (g.pointsToText store) := by
  have keys : store.pointers = (List.range g.nodes.size).filter fun n => !(store.get n).isEmpty := by
    refine List.Pairwise.eq_of_mem_iff store.pointers_ascending (List.pairwise_lt_range.filter _) fun n => ?_
    rw [entered.mem_pointers, List.mem_filter, List.mem_range, PointeeSet.nonempty_iff]
    refine ⟨?_, And.right⟩
    rintro ⟨x, member⟩
    exact ⟨(inside n x member).1, x, member⟩
  have lines : store.pointers.mapM (fun n => pointsToLine g n (store.get n)) =
      .ok (store.pointers.map (g.pointsToEntry store)) := by
    refine mapM_eq_ok fun n member => pointsToLine_eq inside wf ?_
    rw [keys] at member
    exact List.mem_range.mp (List.mem_of_mem_filter member)
  rw [pointsToReport_pointers, lines, keys]
  rfl

end text

open Solver in
/-- After an analysis the report is made of one entry for each node that points to something, whether it was described
or came to be on the way. Two stores, such as any operations build, give the same report over any graph if they have the
same sets and an entry for each set that is not empty. -/
theorem pointsToReport_canonical {d : Description} {l : Loader} (loaded : d.load = .ok l) (limit : Nat) :
    (∃ s, (ofGraph l.graph).analyze limit = .ok s ∧ s.store.WellFormed ∧ s.store.Entered ∧
      (∀ n x, x ∈ s.store.get n → n < s.graph.nodes.size ∧ x < s.graph.nodes.size) ∧
      pointsToReport s.graph s.store = .ok (s.graph.pointsToText s.store)) ∧
    (∀ keys operations, (StoreOperation.store keys operations).WellFormed) ∧
    ∀ (g : Graph) (store store' : DiffStore), store.WellFormed → store'.WellFormed → store.Entered → store'.Entered →
      (∀ k x, x ∈ store.get k ↔ x ∈ store'.get k) → pointsToReport g store = pointsToReport g store' := by
  have start : Ledger (ofGraph l.graph) [] := .start (Description.load_represents loaded).program.built []
  obtain ⟨s, run, ledger⟩ := start.exists_analyze limit
  have balanced := ledger.balanced
  have inside (n x : Nat) (member : x ∈ s.store.get n) : n < s.graph.nodes.size ∧ x < s.graph.nodes.size :=
    ⟨balanced.proper.keys n x member, balanced.rested.facts n x member⟩
  have entered : s.store.Entered := fun _ _ member => balanced.mem_settled member
  refine ⟨⟨s, run, balanced.proper.sets, entered, inside, pointsToReport_eq inside balanced.proper.sets entered⟩,
    fun keys operations => (StoreOperation.store_represents keys operations).wellFormed, ?_⟩
  exact fun g store store' wf wf' entered entered' same => pointsToReport_congr wf wf' entered entered' same

open Solver StoreOperation in
theorem pointsToReport_canonical_dispatch :
    (∃ l s, dispatch.load = .ok l ∧ (ofGraph l.graph).analyze 8 = .ok s ∧ pointsToReport s.graph s.store =
      .ok ("t ==> \x7b table \x7d\n" ++ "slot ==> \x7b table.1 \x7d\n" ++ "h ==> \x7b handler \x7d\n" ++
        "g ==> \x7b handler \x7d\n" ++ "table.1 ==> \x7b handler \x7d\n")) ∧
    ∀ g, pointsToReport g (store [3] [.add 3 1, .add 3 0]) =
      pointsToReport g (store [] [.unite 3 (.ofList [0]), .flush 3, .add 3 1]) := by
  have evaluated : (dispatch.analyzed 8).any fun run => run.2.graph.pointsToText run.2.store =
      "t ==> \x7b table \x7d\n" ++ "slot ==> \x7b table.1 \x7d\n" ++ "h ==> \x7b handler \x7d\n" ++
        "g ==> \x7b handler \x7d\n" ++ "table.1 ==> \x7b handler \x7d\n" := by decide +kernel
  obtain ⟨l, s, loaded, ran, text⟩ := Description.of_analyzed evaluated
  obtain ⟨⟨s', ran', _, _, _, report⟩, wf, canonical⟩ := pointsToReport_canonical loaded 8
  cases ran.symm.trans ran'
  rw [of_decide_eq_true text] at report
  -- the same facts, all of them pending on one side and one of them settled on the other
  have first (k x : Nat) : x ∈ (store [3] [.add 3 1, .add 3 0]).get k ↔ k = 3 ∧ (x = 1 ∨ x = 0) := by
    rw [(store_represents _ _).sets]
    by_cases here : k = 3 <;> simp [plainStore, apply, PlainStore.receive, PlainStore.empty, here]
  have second (k x : Nat) :
      x ∈ (store [] [.unite 3 (.ofList [0]), .flush 3, .add 3 1]).get k ↔ k = 3 ∧ (x = 1 ∨ x = 0) := by
    rw [(store_represents _ _).sets]
    by_cases here : k = 3 <;>
      simp [plainStore, apply, PlainStore.receive, PlainStore.flush, PlainStore.empty, PointeeSet.mem_contents,
        PointeeSet.mem_ofList, here]
  refine ⟨⟨l, s, loaded, ran, report⟩, fun g => canonical g _ _ (wf _ _) (wf _ _) ?_ ?_ fun k x => ?_⟩
  · intro k x member
    obtain ⟨rfl, _⟩ := (first k x).mp member
    decide +kernel
  · intro k x member
    obtain ⟨rfl, _⟩ := (second k x).mp member
    decide +kernel
  · rw [first, second]

end PointsTo
