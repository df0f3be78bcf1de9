import PointsTo.DenseSet

namespace PointsTo

/-- A first-in, first-out queue in which nothing waits twice: two lists, the second one reversed, beside the set of what
waits. -/
structure Worklist where
  front : List Nat
  back : List Nat
  waiting : DenseSet
deriving Repr

namespace Worklist

def empty : Worklist := ⟨[], [], .empty⟩

instance : Inhabited Worklist := ⟨empty⟩

/-- The waiting elements, the next one first. -/
def toList (q : Worklist) : List Nat := q.front ++ q.back.reverse

def contains (q : Worklist) (x : Nat) : Bool := q.waiting.contains x

def length (q : Worklist) : Nat := q.front.length + q.back.length

def isEmpty (q : Worklist) : Bool := q.front.isEmpty && q.back.isEmpty

/-- Lets `x` wait, and says whether it did not wait already. -/
def push (q : Worklist) (x : Nat) : Worklist × Bool :=
  match q.waiting.insert x with
  | (waiting, true) => ({ q with back := x :: q.back, waiting }, true)
  | (waiting, false) => ({ q with waiting }, false)

/-- The next element and the queue without it. -/
def pop? (q : Worklist) : Option (Nat × Worklist) :=
  match q.front with
  | x :: front => some (x, { q with front, waiting := (q.waiting.erase x).1 })
  | [] =>
    match q.back.reverse with
    | [] => none
    | x :: front => some (x, ⟨front, [], (q.waiting.erase x).1⟩)

/-- As `push`, for any number; what a dense set cannot hold is refused. -/
def pushChecked (q : Worklist) (x : Nat) : Except Fault (Worklist × Bool) :=
  if DenseSet.hasRoomFor (x + 1) then .ok (q.push x) else .error (.capacityTooLarge (x + 1))

end Worklist

end PointsTo
