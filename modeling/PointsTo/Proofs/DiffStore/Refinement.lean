import Mathlib.Data.Finset.Card
import Mathlib.Data.Finset.SDiff
import Mathlib.Data.Finset.Dedup
import Mathlib.Data.List.Induction
import PointsTo.DiffStore.Lemmas

namespace PointsTo

def PointeeSet.contents (s : PointeeSet) : Finset Nat := s.toList.toFinset

/-- What can be done to a store. -/
inductive StoreOperation
  | init (k : NodeId)
  | add (k : NodeId) (e : Nat)
  | unite (k : NodeId) (source : PointeeSet)
  | flush (k : NodeId)
  | clear

/-- What an operation answers, with facts in sets of some type. -/
inductive StoreAnswer (σ : Type)
  | done
  | grew (new : Bool)
  | facts (facts : σ)

def StoreAnswer.map {σ τ : Type} (f : σ → τ) : StoreAnswer σ → StoreAnswer τ
  | done => .done
  | grew new => .grew new
  | facts set => .facts (f set)

/-- A plain map from keys to sets. -/
structure PlainStore where
  sets : NodeId → Finset Nat
  /-- What a set has received since it was last flushed. -/
  recent : NodeId → Finset Nat

namespace PlainStore

def empty : PlainStore := ⟨fun _ => ∅, fun _ => ∅⟩

def receive (p : PlainStore) (k : NodeId) (facts : Finset Nat) : PlainStore where
  sets := Function.update p.sets k (p.sets k ∪ facts)
  recent := Function.update p.recent k (p.recent k ∪ facts \ p.sets k)

def flush (p : PlainStore) (k : NodeId) : PlainStore := { p with recent := Function.update p.recent k ∅ }

end PlainStore

namespace StoreOperation

def run (s : DiffStore) : StoreOperation → DiffStore × StoreAnswer PointeeSet
  | init k => (s.init k, .done)
  | add k e => ((s.add k e).1, .grew (s.add k e).2)
  | unite k source => ((s.unite k source).1, .grew (s.unite k source).2)
  | flush k => ((s.flush k).2, .facts (s.flush k).1)
  | clear => (.empty, .done)

/-- The operation on a plain map. -/
def apply (p : PlainStore) : StoreOperation → PlainStore
  | init _ => p
  | add k e => p.receive k {e}
  | unite k source => p.receive k source.contents
  | flush k => p.flush k
  | clear => .empty

/-- The answer of a plain map: whether the set of the key grows, or what it has received since it was last flushed. -/
def answer (p : PlainStore) (operation : StoreOperation) : StoreAnswer (Finset Nat) :=
  match operation with
  | init _ | clear => .done
  | add k _ | unite k _ => .grew (decide ((operation.apply p).sets k ≠ p.sets k))
  | flush k => .facts (p.recent k)

/-- Does the operation leave the key alone? -/
def Spares (j : NodeId) : StoreOperation → Prop
  | init k | add k _ | unite k _ | flush k => j ≠ k
  | clear => False

/-- The store after some operations, with empty sets for some keys at the start. -/
def store (keys : List NodeId) (operations : List StoreOperation) : DiffStore :=
  operations.foldl (fun s operation => (operation.run s).1) (.ofKeys keys)

def plainStore (operations : List StoreOperation) : PlainStore := operations.foldl apply .empty

/-- The facts that an operation hands out, each with its key. -/
def handedOut (s : DiffStore) : StoreOperation → List (NodeId × Nat)
  | flush k => (s.flush k).1.toList.map (k, ·)
  | init _ | add _ _ | unite _ _ | clear => []

/-- All that is handed out in the course of some operations. -/
def flushed (s : DiffStore) : List StoreOperation → List (NodeId × Nat)
  | [] => []
  | operation :: rest => operation.handedOut s ++ flushed (operation.run s).1 rest

end StoreOperation

theorem PointeeSet.mem_contents {s : PointeeSet} {x : Nat} : x ∈ s.contents ↔ x ∈ s := by
  rw [contents, List.mem_toFinset, mem_toList]

theorem PointeeSet.card_contents {s : PointeeSet} (wf : s.WellFormed) : s.contents.card = s.count := by
  rw [count_eq_length, contents, List.toFinset_card_of_nodup (nodup_toList wf)]

namespace DiffStore

/-- Every part of every key is a well-formed set. -/
def WellFormed (s : DiffStore) : Prop := ∀ k, (s.pendingOf k).WellFormed ∧ (s.settledOf k).WellFormed

/-- The store stands for the plain map. -/
structure Represents (s : DiffStore) (p : PlainStore) : Prop where
  wellFormed : s.WellFormed
  disjoint : s.Disjoint
  sets : ∀ k x, x ∈ s.get k ↔ x ∈ p.sets k
  recent : ∀ k x, x ∈ s.pendingOf k ↔ x ∈ p.recent k

theorem wellFormed_empty : empty.WellFormed := fun _ => ⟨PointeeSet.wellFormed_empty, PointeeSet.wellFormed_empty⟩

theorem WellFormed.get {s : DiffStore} (wf : s.WellFormed) (k : NodeId) : (s.get k).WellFormed :=
  PointeeSet.wellFormed_union (wf k).2 _

theorem WellFormed.init {s : DiffStore} (wf : s.WellFormed) (k : NodeId) : (s.init k).WellFormed := by
  intro j
  rw [pendingOf_init, settledOf_init]
  exact wf j

theorem WellFormed.add {s : DiffStore} (wf : s.WellFormed) (k : NodeId) (e : Nat) : (s.add k e).1.WellFormed := by
  intro j
  rw [pendingOf_add, settledOf_add]
  split
  · exact ⟨PointeeSet.wellFormed_insert (wf k).1 e, (wf j).2⟩
  · exact wf j

theorem WellFormed.unite {s : DiffStore} (wf : s.WellFormed) (k : NodeId) (source : PointeeSet) :
    (s.unite k source).1.WellFormed := by
  intro j
  rw [pendingOf_unite, settledOf_unite]
  split
  · exact ⟨PointeeSet.wellFormed_union (wf k).1 _, (wf j).2⟩
  · exact wf j

theorem WellFormed.flush {s : DiffStore} (wf : s.WellFormed) (k : NodeId) : (s.flush k).2.WellFormed := by
  intro j
  refine ⟨?_, wellFormed_settledOf_flush (fun j => (wf j).2) k j⟩
  rw [pendingOf_flush]
  split
  · exact PointeeSet.wellFormed_empty
  · exact (wf j).1

namespace Represents
variable {s : DiffStore} {p : PlainStore}

theorem empty : DiffStore.empty.Represents .empty where
  wellFormed := wellFormed_empty
  disjoint := disjoint_empty
  sets k x := iff_of_false (not_mem_get_empty k x) (Finset.notMem_empty x)
  recent _ x := iff_of_false (PointeeSet.not_mem_empty x) (Finset.notMem_empty x)

theorem init (rep : s.Represents p) (k : NodeId) : (s.init k).Represents p where
  wellFormed := rep.wellFormed.init k
  disjoint j x := by
    rw [pendingOf_init, settledOf_init]
    exact rep.disjoint j x
  sets j x := by rw [get_init, rep.sets]
  recent j x := by rw [pendingOf_init, rep.recent]

/-- Adding one fact and adding many differ in the form of the sets only: what counts is what becomes of the facts. -/
theorem receive {t : DiffStore} (rep : s.Represents p) {k : NodeId} {facts : Finset Nat} (wf : t.WellFormed)
    (settled : ∀ j, t.settledOf j = s.settledOf j)
    (pending : ∀ j x, x ∈ t.pendingOf j ↔ x ∈ s.pendingOf j ∨ j = k ∧ x ∈ facts ∧ x ∉ s.settledOf k) :
    t.Represents (p.receive k facts) where
  wellFormed := wf
  disjoint := rep.disjoint.receive settled fun j x waiting =>
    ((pending j x).mp waiting).imp_right fun ⟨key, _, unsettled⟩ => key ▸ unsettled
  sets j x := by
    rw [mem_get, settled, pending]
    by_cases key : j = k
    · subst key
      simp only [PlainStore.receive, Function.update_self, Finset.mem_union, ← rep.sets, mem_get]
      grind
    · simp only [PlainStore.receive, Function.update_of_ne key, ← rep.sets, mem_get]
      grind
  recent j x := by
    rw [pending]
    by_cases key : j = k
    · subst key
      simp only [PlainStore.receive, Function.update_self, Finset.mem_union, Finset.mem_sdiff, ← rep.sets,
        ← rep.recent, mem_get]
      grind
    · simp only [PlainStore.receive, Function.update_of_ne key, ← rep.recent]
      grind

theorem add (rep : s.Represents p) (k : NodeId) (e : Nat) : (s.add k e).1.Represents (p.receive k {e}) := by
  refine rep.receive (rep.wellFormed.add k e) (settledOf_add s k e) fun j x => ?_
  rw [mem_pendingOf_add, Finset.mem_singleton]
  grind

theorem unite (rep : s.Represents p) (k : NodeId) (source : PointeeSet) :
    (s.unite k source).1.Represents (p.receive k source.contents) := by
  refine rep.receive (rep.wellFormed.unite k source) (settledOf_unite s k source) fun j x => ?_
  rw [mem_pendingOf_unite, PointeeSet.mem_contents]

theorem flush (rep : s.Represents p) (k : NodeId) : (s.flush k).2.Represents (p.flush k) where
  wellFormed := rep.wellFormed.flush k
  disjoint := rep.disjoint.flush k
  sets j x := by rw [mem_get_flush, rep.sets, PlainStore.flush]
  recent j x := by
    rw [mem_pendingOf_flush]
    by_cases key : j = k
    · simp [PlainStore.flush, key]
    · simp only [PlainStore.flush, Function.update_of_ne key, ← rep.recent, ne_eq, key, not_false_eq_true, true_and]

theorem contents_pendingOf (rep : s.Represents p) (k : NodeId) : (s.pendingOf k).contents = p.recent k := by
  ext x
  rw [PointeeSet.mem_contents, rep.recent]

/-- The parts of a key do not overlap, so that nothing is counted twice. -/
theorem count_get (rep : s.Represents p) (k : NodeId) :
    (s.get k).count = (s.pendingOf k).count + (s.settledOf k).count := by
  obtain ⟨pending, settled⟩ := rep.wellFormed k
  have together : (s.get k).contents = (s.pendingOf k).contents ∪ (s.settledOf k).contents := by
    ext x
    rw [Finset.mem_union, PointeeSet.mem_contents, PointeeSet.mem_contents, PointeeSet.mem_contents, mem_get, or_comm]
  have apart : ∀ x ∈ (s.pendingOf k).contents, x ∉ (s.settledOf k).contents := fun x waiting old =>
    rep.disjoint k x (PointeeSet.mem_contents.mp old) (PointeeSet.mem_contents.mp waiting)
  rw [← PointeeSet.card_contents (rep.wellFormed.get k), ← PointeeSet.card_contents pending,
    ← PointeeSet.card_contents settled, together, Finset.card_union_of_disjoint (Finset.disjoint_left.mpr apart)]

end Represents

theorem represents_ofKeys (keys : List NodeId) : (ofKeys keys).Represents .empty := by
  have general (s : DiffStore) (rep : s.Represents .empty) : (keys.foldl init s).Represents .empty := by
    induction keys generalizing s with
    | nil => exact rep
    | cons k keys ih => exact ih (s.init k) (rep.init k)
  exact general empty .empty

end DiffStore

theorem PlainStore.receive_grows (p : PlainStore) (k : NodeId) (facts : Finset Nat) :
    (p.receive k facts).sets k ≠ p.sets k ↔ ∃ x ∈ facts, x ∉ p.sets k := by
  have sets : (p.receive k facts).sets k = p.sets k ∪ facts := Function.update_self ..
  rw [sets, Ne, Finset.union_eq_left, Finset.not_subset]

namespace StoreOperation
variable {s : DiffStore} {p : PlainStore}

theorem run_represents (rep : s.Represents p) (operation : StoreOperation) :
    (operation.run s).1.Represents (operation.apply p) := by
  cases operation with
  | init k => exact rep.init k
  | add k e => exact rep.add k e
  | unite k source => exact rep.unite k source
  | flush k => exact rep.flush k
  | clear => exact .empty

theorem run_answer (rep : s.Represents p) (operation : StoreOperation) :
    (operation.run s).2.map PointeeSet.contents = operation.answer p := by
  cases operation with
  | init k => rfl
  | add k e =>
    have grew : (s.add k e).2 = decide ((p.receive k {e}).sets k ≠ p.sets k) := by
      rw [Bool.eq_iff_iff, decide_eq_true_eq, PlainStore.receive_grows, DiffStore.add_new, rep.sets]
      simp
    exact congrArg StoreAnswer.grew grew
  | unite k source =>
    have grew : (s.unite k source).2 = decide ((p.receive k source.contents).sets k ≠ p.sets k) := by
      rw [Bool.eq_iff_iff, decide_eq_true_eq, PlainStore.receive_grows, DiffStore.unite_new]
      simp only [rep.sets, PointeeSet.mem_contents]
    exact congrArg StoreAnswer.grew grew
  | flush k =>
    have facts : (s.flush k).1.contents = p.recent k := by rw [DiffStore.flush_facts, rep.contents_pendingOf]
    exact congrArg StoreAnswer.facts facts
  | clear => rfl

/-- The other keys keep their sets as they are, down to the form and order of both parts. -/
theorem run_spares (s : DiffStore) {operation : StoreOperation} {j : NodeId} (spares : operation.Spares j) :
    (operation.run s).1.pendingOf j = s.pendingOf j ∧ (operation.run s).1.settledOf j = s.settledOf j := by
  cases operation with
  | init k => exact ⟨DiffStore.pendingOf_init s k j, DiffStore.settledOf_init s k j⟩
  | add k e =>
    refine ⟨?_, DiffStore.settledOf_add s k e j⟩
    exact (DiffStore.pendingOf_add s k e j).trans (if_neg fun here => spares here.1)
  | unite k source =>
    refine ⟨?_, DiffStore.settledOf_unite s k source j⟩
    exact (DiffStore.pendingOf_unite s k source j).trans (if_neg fun here => spares here.1)
  | flush k =>
    exact ⟨(DiffStore.pendingOf_flush s k j).trans (if_neg spares), (DiffStore.settledOf_flush s k j).trans (if_neg spares)⟩
  | clear => exact absurd spares id

theorem settled_run {operation : StoreOperation} (keeps : operation ≠ clear) {k : NodeId} {x : Nat}
    (settled : x ∈ s.settledOf k) : x ∈ (operation.run s).1.settledOf k := by
  cases operation with
  | init j => exact (DiffStore.settledOf_init s j k).symm ▸ settled
  | add j e => exact (DiffStore.settledOf_add s j e k).symm ▸ settled
  | unite j source => exact (DiffStore.settledOf_unite s j source k).symm ▸ settled
  | flush j => exact DiffStore.mem_settledOf_flush.mpr (Or.inl settled)
  | clear => exact absurd rfl keeps

/-- What is handed out has waited until then, and is settled from then on. -/
theorem handedOut_settles {operation : StoreOperation} {k : NodeId} {x : Nat}
    (handed : (k, x) ∈ operation.handedOut s) :
    x ∈ s.pendingOf k ∧ x ∈ (operation.run s).1.settledOf k := by
  cases operation with
  | flush j =>
    obtain ⟨y, listed, same⟩ := List.mem_map.mp handed
    obtain ⟨rfl, rfl⟩ := Prod.mk.inj same
    rw [DiffStore.flush_facts, PointeeSet.mem_toList] at listed
    exact ⟨listed, DiffStore.mem_settledOf_flush.mpr (Or.inr ⟨rfl, listed⟩)⟩
  | init | add | unite | clear => cases handed

theorem nodup_handedOut (rep : s.Represents p) (operation : StoreOperation) : (operation.handedOut s).Nodup := by
  cases operation with
  | flush k =>
    have facts : (s.flush k).1.toList.Nodup := by
      rw [DiffStore.flush_facts]
      exact PointeeSet.nodup_toList (rep.wellFormed k).1
    exact facts.map fun x y same => (Prod.mk.inj same).2
  | init | add | unite | clear => exact List.nodup_nil

theorem not_settled_of_flushed {later : List StoreOperation} (rep : s.Represents p) (keeps : clear ∉ later)
    {k : NodeId} {x : Nat} (handed : (k, x) ∈ flushed s later) : x ∉ s.settledOf k := by
  induction later generalizing s p with
  | nil => cases handed
  | cons operation later ih =>
    rcases List.mem_append.mp handed with now | afterwards
    · exact fun settled => rep.disjoint k x settled (handedOut_settles now).1
    · have other : operation ≠ clear := fun same => keeps (same ▸ List.mem_cons_self)
      have old := ih (run_represents rep operation) (fun member => keeps (List.mem_cons_of_mem _ member)) afterwards
      exact fun settled => old (settled_run other settled)

theorem nodup_flushed {later : List StoreOperation} (rep : s.Represents p) (keeps : clear ∉ later) :
    (flushed s later).Nodup := by
  induction later generalizing s p with
  | nil => exact List.nodup_nil
  | cons operation later ih =>
    have next := run_represents rep operation
    have keepsLater : clear ∉ later := fun member => keeps (List.mem_cons_of_mem _ member)
    refine List.nodup_append.mpr ⟨nodup_handedOut rep operation, ih next keepsLater, ?_⟩
    rintro ⟨k, x⟩ now _ afterwards rfl
    exact not_settled_of_flushed next keepsLater afterwards (handedOut_settles now).2

theorem store_represents (keys : List NodeId) (operations : List StoreOperation) :
    (store keys operations).Represents (plainStore operations) := by
  induction operations using List.reverseRecOn with
  | nil => exact DiffStore.represents_ofKeys keys
  | append_singleton operations operation ih =>
    rw [store, plainStore, List.foldl_append, List.foldl_append]
    exact run_represents ih operation

/-- After any operations on a store that began with empty sets for some keys or for none, the store stands for the plain
map after the same operations: its parts do not overlap, and add up. The next operation, whichever it is, answers as on
the plain map and changes no other key. As long as the store is not cleared, no fact is handed out twice. -/
theorem store_refines_plainStore (keys : List NodeId) (operations : List StoreOperation) :
    (store keys operations).Represents (plainStore operations) ∧
      (∀ k x, (store keys operations).contains k x = true ↔ x ∈ (plainStore operations).sets k) ∧
      (∀ k, ((store keys operations).get k).count =
        ((store keys operations).pendingOf k).count + ((store keys operations).settledOf k).count) ∧
      (∀ next : StoreOperation,
        (next.run (store keys operations)).2.map PointeeSet.contents = next.answer (plainStore operations) ∧
          ∀ j, next.Spares j →
            (next.run (store keys operations)).1.pendingOf j = (store keys operations).pendingOf j ∧
              (next.run (store keys operations)).1.settledOf j = (store keys operations).settledOf j) ∧
      ∀ later, clear ∉ later → (flushed (store keys operations) later).Nodup := by
  have rep := store_represents keys operations
  refine ⟨rep, fun k x => ?_, rep.count_get, fun next => ⟨run_answer rep next, fun j => run_spares _⟩,
    fun later => nodup_flushed rep⟩
  rw [DiffStore.contains_iff, rep.sets]

end StoreOperation

end PointsTo
