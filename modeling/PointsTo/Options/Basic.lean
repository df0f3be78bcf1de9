import PointsTo.Graph.Basic

namespace PointsTo

structure Options where
  input : Option String := none
  fieldLimit : Nat := defaultFieldLimit
  statistics : Bool := false
  pointsToOutput : Option String := none
  callGraphOutput : Option String := none
  graphOutput : Option String := none
  indirectCallsOutput : Option String := none
deriving DecidableEq, Repr

instance : Inhabited Options := ⟨{}⟩

end PointsTo
