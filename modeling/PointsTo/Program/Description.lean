import PointsTo.Graph.Edge

namespace PointsTo

/-- What a described node is. -/
inductive NodeSort
  | value
  | object
  | array
  | function
deriving DecidableEq, Repr

structure NodeEntry where
  name : String
  sort : NodeSort
deriving DecidableEq, Repr

structure EdgeEntry where
  family : EdgeFamily
  source : String
  target : String
  /-- Without an offset, a field access may reach any field. -/
  offset : Option Nat
deriving DecidableEq, Repr

structure DirectCallEntry where
  label : String
  caller : String
  callee : String
deriving DecidableEq, Repr

structure IndirectCallEntry where
  label : String
  caller : Option String
  pointer : String
deriving DecidableEq, Repr

structure Description where
  nodes : List NodeEntry
  edges : List EdgeEntry
  directCalls : List DirectCallEntry
  indirectCalls : List IndirectCallEntry
deriving DecidableEq, Repr

/-- The constraint that an entry describes; the offset of anything but a field access is ignored. -/
def EdgeEntry.kind (entry : EdgeEntry) : EdgeKind := entry.family.withOffset entry.offset

end PointsTo
