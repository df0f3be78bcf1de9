import PointsTo.DenseSet

namespace PointsTo

/-- A points-to set. It begins as a short list in the order of insertion, and becomes a dense set when the list is full
or when a dense set is united into it. The order in which a set is walked decides how fields and edges are numbered. -/
inductive PointeeSet
  | small (elems : List Nat)
  | large (bits : DenseSet)
deriving DecidableEq, Repr

namespace PointeeSet

/-- A short list holds at most this many elements. -/
def smallCapacity : Nat := 32

def empty : PointeeSet := .small []

instance : EmptyCollection PointeeSet := ⟨empty⟩

instance : Inhabited PointeeSet := ⟨empty⟩

def contains : PointeeSet → Nat → Bool
  | small elems, x => elems.contains x
  | large bits, x => bits.contains x

instance : Membership Nat PointeeSet := ⟨fun s x => s.contains x = true⟩

instance (x : Nat) (s : PointeeSet) : Decidable (x ∈ s) := inferInstanceAs (Decidable (s.contains x = true))

def isEmpty : PointeeSet → Bool
  | small elems => elems.isEmpty
  | large bits => bits.isEmpty

def count : PointeeSet → Nat
  | small elems => elems.length
  | large bits => bits.count

/-- The elements in the order in which the set is walked. -/
def toList : PointeeSet → List Nat
  | small elems => elems
  | large bits => bits.toList

/-- Adds `x`, and says whether the contents changed. -/
def insert : PointeeSet → Nat → PointeeSet × Bool
  | small elems, x =>
    if elems.contains x then (small elems, false)
    else if elems.length < smallCapacity then (small (elems ++ [x]), true)
    else (large ((DenseSet.ofList elems).insert x).1, true)
  | large bits, x =>
    let (bits, changed) := bits.insert x
    (large bits, changed)

/-- Adds the elements of a list one by one, and says whether the contents changed. -/
def insertAll (s : PointeeSet) (xs : List Nat) : PointeeSet × Bool :=
  xs.foldl (fun (s, changed) x =>
    let (s, new) := s.insert x
    (s, changed || new)) (s, false)

/-- Adds the elements of the second set, and says whether the contents changed. -/
def union : PointeeSet → PointeeSet → PointeeSet × Bool
  | s, small elems => s.insertAll elems
  | small elems, large bits =>
    let (bits, changed) := (DenseSet.ofList elems).union bits
    (large bits, changed)
  | large bits, large other =>
    let (bits, changed) := bits.union other
    (large bits, changed)

/-- Takes the elements of the second set out, and says whether the contents changed. -/
def subtract : PointeeSet → PointeeSet → PointeeSet × Bool
  | small elems, other =>
    let kept := elems.filter fun x => !other.contains x
    (small kept, kept.length != elems.length)
  | large bits, small elems =>
    let (bits, changed) := elems.foldl (fun (s, changed) x =>
      let (s, gone) := s.erase x
      (s, changed || gone)) (bits, false)
    (large bits, changed)
  | large bits, large other =>
    let (bits, changed) := bits.subtract other
    (large bits, changed)

/-- Does the first set hold every element of the second? -/
def superset : PointeeSet → PointeeSet → Bool
  | large bits, large other => bits.superset other
  | s, other => other.toList.all s.contains

def ofList (xs : List Nat) : PointeeSet := (empty.insertAll xs).1

end PointeeSet

end PointsTo
