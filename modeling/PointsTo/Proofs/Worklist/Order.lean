import PointsTo.Worklist.Lemmas
import PointsTo.Proofs.Results

namespace PointsTo

/-- What can be done to a worklist. -/
inductive QueueOperation
  | push (x : Nat)
  | pop
deriving DecidableEq, Repr

/-- A worklist in use, with the pushes that it accepted and what was taken from it, each in order. -/
structure Traffic where
  queue : Worklist
  accepted : List Nat
  taken : List Nat

namespace QueueOperation

/-- Does an operation, and notes what the worklist answers. -/
def apply (t : Traffic) : QueueOperation → Except Fault Traffic
  | push x => (t.queue.pushChecked x).map fun answer =>
    { t with queue := answer.1, accepted := t.accepted ++ if answer.2 then [x] else [] }
  | pop =>
    match t.queue.pop? with
    | some (x, queue) => .ok { t with queue, taken := t.taken ++ [x] }
    | none => .ok t

/-- What some operations on an empty worklist lead to, if none of them fails. -/
def traffic (operations : List QueueOperation) : Except Fault Traffic := operations.foldlM apply ⟨.empty, [], []⟩

end QueueOperation

namespace Worklist
variable {q : Worklist} {x : Nat}

theorem pushChecked_of_room (room : DenseSet.hasRoomFor (x + 1) = true) : q.pushChecked x = .ok (q.push x) :=
  if_pos room

theorem pushChecked_without_room (full : ¬ DenseSet.hasRoomFor (x + 1) = true) :
    q.pushChecked x = .error (.capacityTooLarge (x + 1)) :=
  if_neg full

/-- A push appends what it accepts, and nothing else. -/
theorem toList_push_answer (wf : q.WellFormed) :
    (q.push x).1.toList = q.toList ++ if (q.push x).2 then [x] else [] := by
  rw [toList_push wf]
  by_cases waits : x ∈ q.toList
  · have refused : ¬ (q.push x).2 = true := fun new => (push_new wf).mp new waits
    rw [if_pos waits, if_neg refused, List.append_nil]
  · rw [if_neg waits, if_pos ((push_new wf).mpr waits)]

end Worklist

namespace Traffic

/-- What was taken and what waits are what was accepted, in the same order. -/
structure InOrder (t : Traffic) : Prop where
  queue : t.queue.WellFormed
  balance : t.taken ++ t.queue.toList = t.accepted

variable {t : Traffic}

theorem InOrder.push (inOrder : t.InOrder) {x : Nat} (room : DenseSet.hasRoomFor (x + 1) = true) :
    ∃ u, QueueOperation.apply t (.push x) = .ok u ∧ u.InOrder := by
  refine ⟨_, by rw [QueueOperation.apply, Worklist.pushChecked_of_room room]; rfl,
    Worklist.wellFormed_push inOrder.queue x, ?_⟩
  rw [Worklist.toList_push_answer inOrder.queue, ← List.append_assoc, inOrder.balance]

theorem InOrder.pop (inOrder : t.InOrder) : ∃ u, QueueOperation.apply t .pop = .ok u ∧ u.InOrder := by
  cases next : t.queue.pop? with
  | none => exact ⟨t, by rw [QueueOperation.apply, next], inOrder⟩
  | some entry =>
    obtain ⟨x, queue⟩ := entry
    refine ⟨_, by rw [QueueOperation.apply, next], Worklist.wellFormed_pop? inOrder.queue next, ?_⟩
    have balance := inOrder.balance
    rw [Worklist.toList_pop? next] at balance
    rw [List.append_assoc]
    exact balance

/-- Any operations that find room can be done, and leave all in order. -/
theorem inOrder_traffic {operations : List QueueOperation}
    (room : ∀ x, .push x ∈ operations → DenseSet.hasRoomFor (x + 1) = true) :
    ∃ t, QueueOperation.traffic operations = .ok t ∧ t.InOrder := by
  refine foldlM_reaches ⟨Worklist.wellFormed_empty, rfl⟩ fun operation member t inOrder => ?_
  cases operation with
  | push x => exact inOrder.push (room x member)
  | pop => exact inOrder.pop

end Traffic

/-- After any pushes and pops that find room, nothing waits twice and a worklist knows what waits. What was taken from it and
what waits are the accepted pushes, in their order. The next push is accepted exactly if its number does not wait, and
then stands last; the next pop takes what stands first. -/
theorem worklist_serves_in_order {operations : List QueueOperation}
    (room : ∀ x, .push x ∈ operations → DenseSet.hasRoomFor (x + 1) = true) :
    ∃ t, QueueOperation.traffic operations = .ok t ∧ t.queue.toList.Nodup ∧
      (∀ x, t.queue.contains x = true ↔ x ∈ t.queue.toList) ∧ t.taken ++ t.queue.toList = t.accepted ∧
      (∀ x, DenseSet.hasRoomFor (x + 1) = true → ∃ queue new, t.queue.pushChecked x = .ok (queue, new) ∧
        (new = true ↔ x ∉ t.queue.toList) ∧ queue.toList = t.queue.toList ++ if new then [x] else []) ∧
      (∀ x, ¬ DenseSet.hasRoomFor (x + 1) = true → t.queue.pushChecked x = .error (.capacityTooLarge (x + 1))) ∧
      (t.queue.pop? = none ↔ t.queue.toList = []) ∧
      ∀ x queue, t.queue.pop? = some (x, queue) → t.queue.toList = x :: queue.toList := by
  obtain ⟨t, run, wf, balance⟩ := Traffic.inOrder_traffic room
  refine ⟨t, run, wf.nodup, fun x => Worklist.contains_iff wf, balance, fun x roomX => ?_,
    fun x => Worklist.pushChecked_without_room, Worklist.pop?_eq_none_iff, fun x queue => Worklist.toList_pop?⟩
  exact ⟨_, _, Worklist.pushChecked_of_room roomX, Worklist.push_new wf, Worklist.toList_push_answer wf⟩

/-- A number is pushed while it waits, again after it was taken, and others come from other words of the set. -/
def pushedAgain : List QueueOperation :=
  [.push 3, .push 70, .push 3, .pop, .push 3, .push 200, .push 70, .pop, .pop, .push 70]

theorem worklist_serves_in_order_pushedAgain : ∃ t, QueueOperation.traffic pushedAgain = .ok t ∧
    t.accepted = [3, 70, 3, 200, 70] ∧ t.taken = [3, 70, 3] ∧ t.queue.toList = [200, 70] ∧
    t.taken ++ t.queue.toList = t.accepted ∧ t.queue.toList.Nodup ∧
    (∃ queue new, t.queue.pushChecked 70 = .ok (queue, new) ∧ (new = true ↔ 70 ∉ t.queue.toList)) ∧
    t.queue.pushChecked 18446744073709551551 = .error (.capacityTooLarge 18446744073709551552) := by
  have evaluated : (QueueOperation.traffic pushedAgain).toOption.any fun t =>
      t.accepted = [3, 70, 3, 200, 70] ∧ t.taken = [3, 70, 3] ∧ t.queue.toList = [200, 70] := by decide +kernel
  have room : ∀ x, .push x ∈ pushedAgain → DenseSet.hasRoomFor (x + 1) = true := by
    intro x pushed
    have known : x = 3 ∨ x = 70 ∨ x = 200 := by
      simp [pushedAgain] at pushed
      omega
    rcases known with rfl | rfl | rfl <;> decide
  obtain ⟨t, run, once, _, balance, push, refuse, _⟩ := worklist_serves_in_order room
  obtain ⟨t', run', holds⟩ := exists_of_any evaluated
  cases run.symm.trans run'
  obtain ⟨accepted, taken, waiting⟩ := of_decide_eq_true holds
  obtain ⟨queue, new, pushed, answer, _⟩ := push 70 (by decide)
  exact ⟨t, run, accepted, taken, waiting, balance, once, ⟨queue, new, pushed, answer⟩, refuse _ (by decide)⟩

end PointsTo
