import PointsTo.PointeeSet
import Std.Data.TreeMap

namespace PointsTo

/-- A points-to set for each key, in two parts: what has been passed on already, and what has arrived since. -/
structure DiffStore where
  pending : Std.TreeMap NodeId PointeeSet
  settled : Std.TreeMap NodeId PointeeSet

namespace DiffStore

def empty : DiffStore := ⟨∅, ∅⟩

instance : Inhabited DiffStore := ⟨empty⟩

def pendingOf (s : DiffStore) (k : NodeId) : PointeeSet := s.pending.getD k .empty

def settledOf (s : DiffStore) (k : NodeId) : PointeeSet := s.settled.getD k .empty

/-- Gives `k` an empty entry on both sides where it has none. -/
def init (s : DiffStore) (k : NodeId) : DiffStore where
  pending := s.pending.insertIfNew k .empty
  settled := s.settled.insertIfNew k .empty

def ofKeys (ks : List NodeId) : DiffStore := ks.foldl init empty

/-- The points-to set of `k`, walked with the settled part first. -/
def get (s : DiffStore) (k : NodeId) : PointeeSet := ((s.settledOf k).union (s.pendingOf k)).1

def contains (s : DiffStore) (k : NodeId) (e : Nat) : Bool :=
  (s.settledOf k).contains e || (s.pendingOf k).contains e

/-- Adds the fact `e ∈ k`, and says whether it is new. -/
def add (s : DiffStore) (k : NodeId) (e : Nat) : DiffStore × Bool :=
  if (s.settledOf k).contains e then (s, false)
  else
    let (set, new) := (s.pendingOf k).insert e
    ({ s with pending := s.pending.insert k set }, new)

/-- Adds all elements of `source` to `k`, and says whether one of them is new. -/
def unite (s : DiffStore) (k : NodeId) (source : PointeeSet) : DiffStore × Bool :=
  let s := { s with settled := s.settled.insertIfNew k .empty }
  let fresh := (source.subtract (s.settledOf k)).1
  if fresh.isEmpty then (s, false)
  else
    let (set, new) := (s.pendingOf k).union fresh
    ({ s with pending := s.pending.insert k set }, new)

/-- Settles what is pending for `k`, and returns it. -/
def flush (s : DiffStore) (k : NodeId) : PointeeSet × DiffStore :=
  match s.pending[k]? with
  | none => (.empty, s)
  | some facts =>
    (facts, {
      pending := s.pending.insert k .empty
      settled := s.settled.insert k ((s.settledOf k).union facts).1 })

/-- The keys with a settled entry, ascending. -/
def keys (s : DiffStore) : List NodeId := s.settled.keys

/-- The keys with a settled entry and a set that is not empty, with that set, ascending. -/
def nonempty (s : DiffStore) : List (NodeId × PointeeSet) :=
  (s.keys.map fun k => (k, s.get k)).filter fun (_, set) => !set.isEmpty

def size (s : DiffStore) : Nat := s.settled.size

def isEmpty (s : DiffStore) : Bool := s.settled.isEmpty

end DiffStore

end PointsTo
