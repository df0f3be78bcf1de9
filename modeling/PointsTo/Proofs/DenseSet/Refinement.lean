import Mathlib.Data.Finset.Card
import Mathlib.Data.Finset.SDiff
import Mathlib.Data.Finset.Dedup
import PointsTo.Proofs.DenseSet.Walk

namespace PointsTo

/-- What can be done to a family of dense sets. -/
inductive DenseOperation
  | insert (i x : Nat)
  | erase (i x : Nat)
  | ensure (i capacity : Nat)
  | clear (i : Nat)
  /-- The first set becomes a copy of the second. -/
  | clone (i j : Nat)
  | union (i j : Nat)
  | subtract (i j : Nat)

namespace DenseOperation

/-- The set that an operation is done to. -/
def subject : DenseOperation → Nat
  | insert i _ | erase i _ | ensure i _ | clear i | clone i _ | union i _ | subtract i _ => i

/-- The capacity for which an operation makes room. -/
def capacity? (sets : Nat → DenseSet) : DenseOperation → Option Nat
  | insert _ x => some (x + 1)
  | ensure _ capacity => some capacity
  | union _ j => some (64 * (sets j).words.size)
  | erase .. | clear .. | clone .. | subtract .. => none

/-- What becomes of the subject, and the answer of the operations that say whether something changed. -/
def run (sets : Nat → DenseSet) : DenseOperation → Except Fault (DenseSet × Option Bool)
  | insert i x => ((sets i).insertChecked x).map (Prod.map id some)
  | erase i x => .ok (Prod.map id some ((sets i).erase x))
  | ensure i capacity => ((sets i).ensureChecked capacity).map (·, none)
  | clear i => .ok ((sets i).clear, none)
  | clone _ j => .ok (sets j, none)
  | union i j =>
    ((sets i).ensureChecked (64 * (sets j).words.size)).map fun _ => Prod.map id some ((sets i).union (sets j))
  | subtract i j => .ok (Prod.map id some ((sets i).subtract (sets j)))

/-- The operation on finite sets. -/
def contents (sets : Nat → Finset Nat) : DenseOperation → Finset Nat
  | insert i x => Insert.insert x (sets i)
  | erase i x => (sets i).erase x
  | ensure i _ => sets i
  | clear _ => ∅
  | clone _ j => sets j
  | union i j => sets i ∪ sets j
  | subtract i j => sets i \ sets j

/-- Whether the contents change, for the operations that say so. -/
def answer (sets : Nat → Finset Nat) (operation : DenseOperation) : Option Bool :=
  match operation with
  | insert .. | erase .. | union .. | subtract .. => some (decide (operation.contents sets ≠ sets operation.subject))
  | ensure .. | clear .. | clone .. => none

/-- The family after an operation. -/
def apply (sets : Nat → DenseSet) (operation : DenseOperation) : Except Fault (Nat → DenseSet) :=
  (operation.run sets).map fun result => Function.update sets operation.subject result.1

def applyContents (sets : Nat → Finset Nat) (operation : DenseOperation) : Nat → Finset Nat :=
  Function.update sets operation.subject (operation.contents sets)

/-- The dense sets after some operations, of which none failed. -/
def denseSets (operations : List DenseOperation) : Except Fault (Nat → DenseSet) :=
  operations.foldlM apply fun _ => .empty

def finiteSets (operations : List DenseOperation) : Nat → Finset Nat := operations.foldl applyContents fun _ => ∅

end DenseOperation

namespace DenseSet

/-- The set answers as the finite set does. -/
structure Behaves (s : DenseSet) (contents : Finset Nat) : Prop where
  contains : ∀ x, s.contains x = true ↔ x ∈ contents
  isEmpty : s.isEmpty = true ↔ contents = ∅
  listed : ∀ x, x ∈ s.toList ↔ x ∈ contents
  ascending : s.toList.Pairwise (· < ·)
  walked : s.cursor.Yields s.toList
  count : s.count = contents.card

section contents
variable {s t : DenseSet} {a b : Finset Nat} (same : ∀ x, x ∈ s ↔ x ∈ a)

include same

theorem behaves : s.Behaves a where
  contains := same
  isEmpty := by
    rw [isEmpty_iff, Finset.eq_empty_iff_forall_notMem]
    exact forall_congr' fun x => not_congr (same x)
  listed x := mem_toList.trans (same x)
  ascending := s.toList_sorted
  walked := s.cursor_yields
  count := by
    have members : s.toList.toFinset = a := by
      ext x
      rw [List.mem_toFinset, mem_toList, same]
    have distinct : s.toList.Nodup := s.toList_sorted.imp Nat.ne_of_lt
    rw [count_eq_length, ← members, List.toFinset_card_of_nodup distinct]

theorem insert_answer (x : Nat) : (s.insert x).2 = decide (Insert.insert x a ≠ a) := by
  rw [insert_new, Bool.eq_iff_iff, Bool.not_eq_true', decide_eq_true_eq, Ne, Finset.insert_eq_self, ← same, mem_def,
    Bool.not_eq_true]

theorem erase_answer (x : Nat) : (s.erase x).2 = decide (a.erase x ≠ a) := by
  rw [erase_changed, Bool.eq_iff_iff, decide_eq_true_eq, Ne, Finset.erase_eq_self, Decidable.not_not, ← same, mem_def]

theorem union_answer (other : ∀ x, x ∈ t ↔ x ∈ b) : (s.union t).2 = decide (a ∪ b ≠ a) := by
  rw [Bool.eq_iff_iff, decide_eq_true_eq, Ne, Finset.union_eq_left, Finset.not_subset, union_changed]
  simp only [same, other]

theorem subtract_answer (other : ∀ x, x ∈ t ↔ x ∈ b) : (s.subtract t).2 = decide (a \ b ≠ a) := by
  rw [Bool.eq_iff_iff, decide_eq_true_eq, Ne, Finset.sdiff_eq_self_iff_disjoint, Finset.not_disjoint_iff,
    subtract_changed]
  simp only [same, other]

end contents

end DenseSet

namespace DenseOperation
variable {sets : Nat → DenseSet} {operation : DenseOperation}

/-- An operation that finds room does to the dense sets what it does to the finite sets, and answers whether the
contents change. -/
theorem run_of_room {finite : Nat → Finset Nat} (same : ∀ i x, x ∈ sets i ↔ x ∈ finite i)
    (room : ∀ capacity ∈ operation.capacity? sets, DenseSet.hasRoomFor capacity = true) :
    ∃ set, operation.run sets = .ok (set, operation.answer finite) ∧ ∀ x, x ∈ set ↔ x ∈ operation.contents finite := by
  cases operation with
  | insert i x =>
    refine ⟨((sets i).insert x).1, ?_, fun y => ?_⟩
    · rw [run, DenseSet.insertChecked, if_pos (room _ rfl), answer, contents, subject,
        ← DenseSet.insert_answer (same i)]
      rfl
    · rw [DenseSet.mem_insert, contents, Finset.mem_insert, same]
  | erase i x =>
    refine ⟨((sets i).erase x).1, ?_, fun y => ?_⟩
    · rw [run, answer, contents, subject, ← DenseSet.erase_answer (same i)]
      rfl
    · rw [DenseSet.mem_erase, contents, Finset.mem_erase, same]
  | ensure i capacity =>
    refine ⟨(sets i).ensure capacity, ?_, fun x => DenseSet.mem_ensure.trans (same i x)⟩
    rw [run, DenseSet.ensureChecked, if_pos (room _ rfl)]
    rfl
  | clear i => exact ⟨_, rfl, fun x => iff_of_false (DenseSet.not_mem_clear _ x) (Finset.notMem_empty x)⟩
  | clone i j => exact ⟨_, rfl, same j⟩
  | union i j =>
    refine ⟨((sets i).union (sets j)).1, ?_, fun x => ?_⟩
    · rw [run, DenseSet.ensureChecked, if_pos (room _ rfl), answer, contents, subject,
        ← DenseSet.union_answer (same i) (same j)]
      rfl
    · rw [DenseSet.mem_union, contents, Finset.mem_union, same, same]
  | subtract i j =>
    refine ⟨((sets i).subtract (sets j)).1, ?_, fun x => ?_⟩
    · rw [run, answer, contents, subject, ← DenseSet.subtract_answer (same i) (same j)]
      rfl
    · rw [DenseSet.mem_subtract, contents, Finset.mem_sdiff, same, same]

/-- An operation that finds no room fails. -/
theorem run_without_room {capacity : Nat} (asked : operation.capacity? sets = some capacity)
    (full : ¬ DenseSet.hasRoomFor capacity = true) : operation.run sets = .error (.capacityTooLarge capacity) := by
  cases operation with
  | insert i x =>
    cases asked
    rw [run, DenseSet.insertChecked, if_neg full]
    rfl
  | ensure i capacity =>
    cases asked
    rw [run, DenseSet.ensureChecked, if_neg full]
    rfl
  | union i j =>
    cases asked
    rw [run, DenseSet.ensureChecked, if_neg full]
    rfl
  | _ => cases asked

theorem room_of_run {result : DenseSet × Option Bool} (ran : operation.run sets = .ok result) :
    ∀ capacity ∈ operation.capacity? sets, DenseSet.hasRoomFor capacity = true := by
  intro capacity asked
  refine Classical.byContradiction fun full => ?_
  rw [run_without_room asked full] at ran
  cases ran

/-- One operation keeps the families in step. -/
theorem mem_apply {finite : Nat → Finset Nat} {after : Nat → DenseSet} (same : ∀ i x, x ∈ sets i ↔ x ∈ finite i)
    (applied : operation.apply sets = .ok after) (i x : Nat) :
    x ∈ after i ↔ x ∈ operation.applyContents finite i := by
  unfold apply at applied
  cases ran : operation.run sets with
  | error fault =>
    rw [ran] at applied
    cases applied
  | ok result =>
    obtain ⟨set, run, members⟩ := run_of_room same (room_of_run ran)
    rw [run] at applied
    cases applied
    change x ∈ Function.update sets operation.subject set i ↔ _
    unfold applyContents
    by_cases here : i = operation.subject
    · rw [here, Function.update_self, Function.update_self]
      exact members x
    · rw [Function.update_of_ne here, Function.update_of_ne here]
      exact same i x

/-- So do all of them, one after the other. -/
theorem mem_foldlM {operations : List DenseOperation} {finite : Nat → Finset Nat} {after : Nat → DenseSet}
    (same : ∀ i x, x ∈ sets i ↔ x ∈ finite i) (ran : operations.foldlM apply sets = .ok after) (i x : Nat) :
    x ∈ after i ↔ x ∈ operations.foldl applyContents finite i := by
  induction operations generalizing sets finite with
  | nil =>
    cases ran
    exact same i x
  | cons operation operations ih =>
    rw [List.foldlM_cons] at ran
    cases applied : operation.apply sets with
    | error fault =>
      rw [applied] at ran
      cases ran
    | ok next =>
      rw [applied] at ran
      exact ih (mem_apply same applied) ran

theorem mem_denseSets {operations : List DenseOperation} (ran : denseSets operations = .ok sets) (i x : Nat) :
    x ∈ sets i ↔ x ∈ finiteSets operations i :=
  mem_foldlM (fun _ x => iff_of_false (DenseSet.not_mem_empty x) (Finset.notMem_empty x)) ran i x

/-- After any operations on any number of dense sets that found room, each of them behaves as a finite set, and sets are
compared as finite sets are. The next operation, whichever it is, says whether it changes something, unless it finds no
room. -/
theorem denseSets_behave {operations : List DenseOperation} (ran : denseSets operations = .ok sets) :
    (∀ i, (sets i).Behaves (finiteSets operations i)) ∧
      (∀ i j, (sets i).superset (sets j) = true ↔ finiteSets operations j ⊆ finiteSets operations i) ∧
      ∀ next : DenseOperation,
        ((∀ capacity ∈ next.capacity? sets, DenseSet.hasRoomFor capacity = true) →
          ∃ set, next.run sets = .ok (set, next.answer (finiteSets operations)) ∧
            ∀ x, x ∈ set ↔ x ∈ next.contents (finiteSets operations)) ∧
        ∀ capacity ∈ next.capacity? sets, ¬ DenseSet.hasRoomFor capacity = true →
          next.run sets = .error (.capacityTooLarge capacity) := by
  have same := mem_denseSets ran
  refine ⟨fun i => DenseSet.behaves (same i), fun i j => ?_, fun next => ⟨run_of_room same, fun _ => run_without_room⟩⟩
  rw [DenseSet.superset_iff, Finset.subset_iff]
  simp only [same]

/-- Sets of one, three and eight words, of which the last has five words to spare. -/
def unevenWords : List DenseOperation :=
  [.insert 0 3, .clone 1 0, .insert 1 64, .insert 1 130, .ensure 2 500, .union 2 1, .erase 1 64, .subtract 2 0,
    .clear 0]

theorem denseSets_behave_unevenWords : ∃ sets, denseSets unevenWords = .ok sets ∧ (sets 2).toList = [64, 130] ∧
    (sets 2).Behaves (finiteSets unevenWords 2) ∧
    ((sets 2).superset (sets 1) = true ↔ finiteSets unevenWords 1 ⊆ finiteSets unevenWords 2) ∧
    (∃ set, run sets (.union 1 2) = .ok (set, some true) ∧
      ∀ x, x ∈ set ↔ x ∈ finiteSets unevenWords 1 ∪ finiteSets unevenWords 2) ∧
    run sets (.ensure 0 18446744073709551552) = .error (.capacityTooLarge 18446744073709551552) := by
  have ran : denseSets unevenWords = .ok _ := rfl
  obtain ⟨each, compared, next⟩ := denseSets_behave ran
  have answered : answer (finiteSets unevenWords) (.union 1 2) = some true := by decide +kernel
  have united := (next (.union 1 2)).1 (by decide +kernel)
  have refused := (next (.ensure 0 18446744073709551552)).2 _ rfl (by decide)
  rw [answered] at united
  exact ⟨_, ran, by decide +kernel, each 2, compared 2 1, united, refused⟩

end DenseOperation

end PointsTo
