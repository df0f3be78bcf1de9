import PointsTo.Index

namespace PointsTo

/-- What a node stands for. An `array` is an object whose fields are not told apart, and a `field` is the
part of the object `base` at a constant offset. -/
inductive NodeKind
  | value
  | object
  | array
  | function (f : FuncId)
  | field (base : NodeId) (offset : Nat)
deriving DecidableEq, Repr

structure Node where
  name : String
  kind : NodeKind
deriving DecidableEq, Repr

/-- The name of the field of `base` at `offset`. -/
def fieldName (base : String) (offset : Nat) : String := base ++ "." ++ toString offset

end PointsTo
