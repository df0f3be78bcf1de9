import Mathlib.Data.Finset.Card
import Mathlib.Data.Finset.SDiff
import Mathlib.Data.Finset.Dedup
import PointsTo.PointeeSet.Lemmas
import PointsTo.Proofs.FirstOccurrences

namespace PointsTo

/-- What has happened to a set since it was made or last cleared. -/
structure SetHistory where
  /-- The elements that were put in, in their order, without those that were taken out again. -/
  arrivals : List Nat
  /-- Did a new element ever arrive when the set was full, or was a set united into this one to which that had
  happened? -/
  outgrown : Bool

namespace SetHistory

def empty : SetHistory := ⟨[], false⟩

/-- The elements in the order in which each of them first arrived. -/
def order (h : SetHistory) : List Nat := h.arrivals.eraseDups

/-- A set that is full, and gets an element that it has not, outgrows the short list. -/
def arrive (h : SetHistory) (x : Nat) : SetHistory where
  arrivals := h.arrivals ++ [x]
  outgrown := h.outgrown || decide (h.arrivals.toFinset.card = PointeeSet.smallCapacity ∧ x ∉ h.arrivals)

def receive (h : SetHistory) (xs : List Nat) : SetHistory := xs.foldl arrive h

def unite (h other : SetHistory) : SetHistory :=
  let united := h.receive other.order
  { united with outgrown := united.outgrown || other.outgrown }

def subtract (h other : SetHistory) : SetHistory where
  arrivals := h.arrivals.filter (· ∉ other.arrivals)
  outgrown := h.outgrown

end SetHistory

/-- What can be done to a family of sets. -/
inductive SetOperation
  | insert (i x : Nat)
  | union (i j : Nat)
  | subtract (i j : Nat)
  | clear (i : Nat)
  /-- The first set becomes a copy of the second. -/
  | clone (i j : Nat)
  /-- The set is made anew from the elements of a list. -/
  | collect (i : Nat) (xs : List Nat)

namespace SetOperation

/-- The set that an operation is done to. -/
def subject : SetOperation → Nat
  | insert i _ | union i _ | subtract i _ | clear i | clone i _ | collect i _ => i

/-- What becomes of the subject, and the answer of the operations that say whether something changed. -/
def run (sets : Nat → PointeeSet) : SetOperation → PointeeSet × Option Bool
  | insert i x => Prod.map id some ((sets i).insert x)
  | union i j => Prod.map id some ((sets i).union (sets j))
  | subtract i j => Prod.map id some ((sets i).subtract (sets j))
  | clear _ => (.empty, none)
  | clone _ j => (sets j, none)
  | collect _ xs => (.ofList xs, none)

/-- The operation on finite sets. -/
def contents (sets : Nat → Finset Nat) : SetOperation → Finset Nat
  | insert i x => Insert.insert x (sets i)
  | union i j => sets i ∪ sets j
  | subtract i j => sets i \ sets j
  | clear _ => ∅
  | clone _ j => sets j
  | collect _ xs => xs.toFinset

/-- What the operation adds to the history of its subject. -/
def history (histories : Nat → SetHistory) : SetOperation → SetHistory
  | insert i x => (histories i).arrive x
  | union i j => (histories i).unite (histories j)
  | subtract i j => (histories i).subtract (histories j)
  | clear _ => .empty
  | clone _ j => histories j
  | collect _ xs => SetHistory.empty.receive xs

/-- Does the operation say whether it changed something? -/
def reports : SetOperation → Bool
  | insert .. | union .. | subtract .. => true
  | clear .. | clone .. | collect .. => false

/-- A family after some operations, each of which replaces its subject. -/
def family {α : Type} (start : α) (effect : (Nat → α) → SetOperation → α) (operations : List SetOperation) : Nat → α :=
  operations.foldl (fun family operation => Function.update family operation.subject (effect family operation))
    fun _ => start

def pointeeSets : List SetOperation → Nat → PointeeSet := family .empty fun sets operation => (operation.run sets).1

def finiteSets : List SetOperation → Nat → Finset Nat := family ∅ contents

def histories : List SetOperation → Nat → SetHistory := family .empty history

/-- What holds of two families at the start and is kept by each operation, holds of them after all operations. -/
theorem family_related {α β : Type} {R : α → β → Prop} {a : α} {b : β} {f : (Nat → α) → SetOperation → α}
    {g : (Nat → β) → SetOperation → β} (start : R a b)
    (step : ∀ (xs : Nat → α) (ys : Nat → β), (∀ i, R (xs i) (ys i)) → ∀ operation, R (f xs operation) (g ys operation))
    (operations : List SetOperation) (i : Nat) : R (family a f operations i) (family b g operations i) := by
  induction operations using List.reverseRecOn generalizing i with
  | nil => exact start
  | append_singleton operations operation ih =>
    simp only [family, List.foldl_append, List.foldl_cons, List.foldl_nil]
    by_cases subject : i = operation.subject
    · rw [subject, Function.update_self, Function.update_self]
      exact step _ _ ih operation
    · rw [Function.update_of_ne subject, Function.update_of_ne subject]
      exact ih i

end SetOperation

namespace SetHistory

theorem mem_order {h : SetHistory} {x : Nat} : x ∈ h.order ↔ x ∈ h.arrivals := List.mem_eraseDups

theorem card_arrivals (h : SetHistory) : h.arrivals.toFinset.card = h.order.length := by
  have same : h.arrivals.toFinset = h.order.toFinset := by
    ext x
    rw [List.mem_toFinset, List.mem_toFinset, mem_order]
  rw [same]
  exact List.toFinset_card_of_nodup (nodup_eraseDups h.arrivals)

theorem arrivals_receive (h : SetHistory) (xs : List Nat) : (h.receive xs).arrivals = h.arrivals ++ xs := by
  induction xs generalizing h with
  | nil => exact (List.append_nil _).symm
  | cons x xs ih =>
    have later := ih (h.arrive x)
    rw [arrive, List.append_assoc] at later
    exact later

end SetHistory

namespace PointeeSet

def isLarge : PointeeSet → Bool
  | small _ => false
  | large _ => true

/-- The set has come out of this history. -/
def Follows : PointeeSet → SetHistory → Prop
  | small elems, h => h.outgrown = false ∧ elems = h.order ∧ elems.length ≤ smallCapacity
  | large bits, h => h.outgrown = true ∧ ∀ x, x ∈ bits ↔ x ∈ h.arrivals

theorem follows_empty : empty.Follows .empty := ⟨rfl, rfl, Nat.zero_le _⟩

namespace Follows
variable {s t : PointeeSet} {h k : SetHistory}

theorem mem_iff (follows : s.Follows h) {x : Nat} : x ∈ s ↔ x ∈ h.arrivals := by
  cases s with
  | small elems => rw [mem_small, follows.2.1, SetHistory.mem_order]
  | large bits => exact follows.2 x

theorem isLarge (follows : s.Follows h) : s.isLarge = h.outgrown := by
  cases s with
  | small elems => exact follows.1.symm
  | large bits => exact follows.1.symm

theorem wellFormed (follows : s.Follows h) : s.WellFormed := by
  cases s with
  | small elems => exact ⟨follows.2.1 ▸ nodup_eraseDups h.arrivals, follows.2.2⟩
  | large bits => trivial

theorem insert (follows : s.Follows h) (x : Nat) : (s.insert x).1.Follows (h.arrive x) := by
  have members (y : Nat) : y ∈ (s.insert x).1 ↔ y ∈ (h.arrive x).arrivals := by
    rw [mem_insert, follows.mem_iff, SetHistory.arrive, List.mem_append, List.mem_singleton, or_comm]
  cases s with
  | small elems =>
    obtain ⟨short, listed, bound⟩ := follows
    have present : elems.contains x = true ↔ x ∈ h.arrivals := by
      rw [List.contains_iff_mem, listed, SetHistory.mem_order]
    have outgrown : (h.arrive x).outgrown = decide (elems.length = smallCapacity ∧ x ∉ h.arrivals) := by
      rw [SetHistory.arrive, short, SetHistory.card_arrivals, ← listed, Bool.false_or]
    simp only [PointeeSet.insert] at members ⊢
    split
    · rename_i old
      refine ⟨?_, listed.trans (eraseDups_concat_of_mem (present.mp old)).symm, bound⟩
      rw [outgrown]
      simp [present.mp old]
    · rename_i new
      have absent : x ∉ h.arrivals := fun member => new (present.mpr member)
      rw [if_neg new] at members
      split
      · rename_i room
        refine ⟨?_, ?_, by rw [List.length_append, List.length_singleton]; omega⟩
        · rw [outgrown, decide_eq_false_iff_not]
          omega
        · rw [listed]
          exact (eraseDups_concat_of_not_mem absent).symm
      · rename_i full
        rw [if_neg full] at members
        refine ⟨?_, members⟩
        rw [outgrown, decide_eq_true_eq]
        exact ⟨by omega, absent⟩
  | large bits => exact ⟨by rw [SetHistory.arrive, follows.1, Bool.true_or], members⟩

theorem insertAll (follows : s.Follows h) (xs : List Nat) : (s.insertAll xs).1.Follows (h.receive xs) := by
  induction xs generalizing s h with
  | nil => exact follows
  | cons x xs ih =>
    rw [insertAll_cons]
    exact ih (follows.insert x)

theorem union (follows : s.Follows h) (other : t.Follows k) : (s.union t).1.Follows (h.unite k) := by
  cases t with
  | small elems =>
    obtain ⟨short, listed, _⟩ := other
    have result := follows.insertAll k.order
    rw [SetHistory.unite, short, Bool.or_false, PointeeSet.union, listed]
    exact result
  | large bits =>
    have outgrown : (h.unite k).outgrown = true := by rw [SetHistory.unite, other.1, Bool.or_true]
    have members (x : Nat) : x ∈ (s.union (large bits)).1 ↔ x ∈ (h.unite k).arrivals := by
      rw [mem_union, follows.mem_iff, other.mem_iff, SetHistory.unite, SetHistory.arrivals_receive, List.mem_append,
        SetHistory.mem_order]
    cases s with
    | small elems => exact ⟨outgrown, members⟩
    | large bits => exact ⟨outgrown, members⟩

theorem subtract (follows : s.Follows h) (other : t.Follows k) : (s.subtract t).1.Follows (h.subtract k) := by
  have members (x : Nat) : x ∈ (s.subtract t).1 ↔ x ∈ (h.subtract k).arrivals := by
    rw [mem_subtract, follows.mem_iff, other.mem_iff, SetHistory.subtract, List.mem_filter, decide_eq_true_eq]
  cases s with
  | small elems =>
    obtain ⟨short, listed, bound⟩ := follows
    refine ⟨short, ?_, Nat.le_trans (List.length_filter_le ..) bound⟩
    rw [SetHistory.order, SetHistory.subtract, eraseDups_filter, ← SetHistory.order, ← listed]
    refine List.filter_congr fun x _ => ?_
    simp only [← other.mem_iff, mem_def, decide_not, Bool.decide_eq_true]
  | large bits =>
    cases t with
    | small elems => exact ⟨follows.1, members⟩
    | large bits => exact ⟨follows.1, members⟩

end Follows

/-- The set answers as the finite set does. Its history tells which form it has and in which order it is walked. -/
structure Behaves (s : PointeeSet) (contents : Finset Nat) (h : SetHistory) : Prop where
  contains : ∀ x, s.contains x = true ↔ x ∈ contents
  count : s.count = contents.card
  isEmpty : s.isEmpty = true ↔ contents = ∅
  once : ∀ x, s.toList.count x = if x ∈ contents then 1 else 0
  inOrder : s.isLarge = false → s.toList = h.order
  ascending : s.isLarge = true → s.toList.Pairwise (· < ·)
  isLarge : s.isLarge = h.outgrown
  short : s.isLarge = false → s.count ≤ smallCapacity

theorem Follows.behaves {s : PointeeSet} {h : SetHistory} (follows : s.Follows h) {contents : Finset Nat}
    (members : ∀ x, x ∈ s ↔ x ∈ contents) : s.Behaves contents h where
  contains := members
  count := by
    have same : s.toList.toFinset = contents := by
      ext x
      rw [List.mem_toFinset, mem_toList, members]
    rw [count_eq_length, ← same, List.toFinset_card_of_nodup (nodup_toList follows.wellFormed)]
  isEmpty := by
    rw [isEmpty_iff, Finset.eq_empty_iff_forall_notMem]
    exact forall_congr' fun x => not_congr (members x)
  once x := by
    simp only [(nodup_toList follows.wellFormed).count, mem_toList, members]
  inOrder small := by
    cases s with
    | small elems => exact follows.2.1
    | large bits => cases small
  ascending large := by
    cases s with
    | small elems => cases large
    | large bits => exact DenseSet.toList_sorted bits
  isLarge := follows.isLarge
  short small := by
    cases s with
    | small elems => exact follows.2.2
    | large bits => cases small

end PointeeSet

namespace SetOperation

theorem follows (operations : List SetOperation) (i : Nat) :
    (pointeeSets operations i).Follows (histories operations i) := by
  refine family_related PointeeSet.follows_empty ?_ operations i
  intro sets histories before operation
  cases operation with
  | insert i x => exact (before i).insert x
  | union i j => exact (before i).union (before j)
  | subtract i j => exact (before i).subtract (before j)
  | clear i => exact PointeeSet.follows_empty
  | clone i j => exact before j
  | collect i xs => exact PointeeSet.follows_empty.insertAll xs

/-- One operation does to points-to sets what it does to finite sets. -/
theorem mem_run {sets : Nat → PointeeSet} {finite : Nat → Finset Nat} (same : ∀ i x, x ∈ sets i ↔ x ∈ finite i)
    (operation : SetOperation) (x : Nat) : x ∈ (operation.run sets).1 ↔ x ∈ operation.contents finite := by
  cases operation with
  | insert i y =>
    rw [contents, Finset.mem_insert, ← same]
    exact PointeeSet.mem_insert
  | union i j =>
    rw [contents, Finset.mem_union, ← same, ← same]
    exact PointeeSet.mem_union
  | subtract i j =>
    rw [contents, Finset.mem_sdiff, ← same, ← same]
    exact PointeeSet.mem_subtract
  | clear i => exact iff_of_false (PointeeSet.not_mem_empty x) (Finset.notMem_empty x)
  | clone i j => exact same j x
  | collect i xs => exact PointeeSet.mem_ofList.trans List.mem_toFinset.symm

theorem mem_pointeeSets (operations : List SetOperation) (i x : Nat) :
    x ∈ pointeeSets operations i ↔ x ∈ finiteSets operations i :=
  family_related (R := fun (s : PointeeSet) (contents : Finset Nat) => ∀ x, x ∈ s ↔ x ∈ contents)
    (fun x => iff_of_false (PointeeSet.not_mem_empty x) (Finset.notMem_empty x))
    (fun _ _ before operation => mem_run before operation) operations i x

/-- The answer tells whether the contents change. -/
theorem run_answer {sets : Nat → PointeeSet} {finite : Nat → Finset Nat} (same : ∀ i x, x ∈ sets i ↔ x ∈ finite i)
    (operation : SetOperation) : (operation.run sets).2 =
      if operation.reports then some (decide (operation.contents finite ≠ finite operation.subject)) else none := by
  cases operation with
  | insert i x =>
    have changed : ((sets i).insert x).2 = decide (Insert.insert x (finite i) ≠ finite i) := by
      rw [Bool.eq_iff_iff, decide_eq_true_eq, Ne, Finset.insert_eq_self, ← same]
      exact PointeeSet.insert_new_iff
    exact congrArg some changed
  | union i j =>
    have changed : ((sets i).union (sets j)).2 = decide (finite i ∪ finite j ≠ finite i) := by
      rw [Bool.eq_iff_iff, decide_eq_true_eq, Ne, Finset.union_eq_left, Finset.not_subset]
      simp only [← same]
      exact PointeeSet.union_changed
    exact congrArg some changed
  | subtract i j =>
    have changed : ((sets i).subtract (sets j)).2 = decide (finite i \ finite j ≠ finite i) := by
      rw [Bool.eq_iff_iff, decide_eq_true_eq, Ne, Finset.sdiff_eq_self_iff_disjoint, Finset.not_disjoint_iff]
      simp only [← same]
      exact PointeeSet.subtract_changed
    exact congrArg some changed
  | clear i => rfl
  | clone i j => rfl
  | collect i xs => rfl

/-- After any operations on any number of points-to sets, each of them behaves as a finite set with its history, sets
are compared as finite sets are, and the next operation, whichever it is, says whether it changes something. -/
theorem pointeeSets_behave (operations : List SetOperation) :
    (∀ i, (pointeeSets operations i).Behaves (finiteSets operations i) (histories operations i)) ∧
      (∀ i j, (pointeeSets operations i).superset (pointeeSets operations j) = true ↔
        finiteSets operations j ⊆ finiteSets operations i) ∧
      ∀ next : SetOperation, (next.run (pointeeSets operations)).2 =
        if next.reports then
          some (decide (next.contents (finiteSets operations) ≠ finiteSets operations next.subject))
        else none := by
  have same := mem_pointeeSets operations
  refine ⟨fun i => (follows operations i).behaves (same i), fun i j => ?_, run_answer same⟩
  rw [PointeeSet.superset_iff, Finset.subset_iff]
  simp only [same]

end SetOperation

end PointsTo
