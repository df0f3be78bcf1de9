namespace PointsTo

/-- Why an operation cannot be carried out. The solver and the reports never meet one on a graph that
was read from a program description; they arise only from numbers given from outside. -/
inductive Fault
  | indexTooLarge (index : Nat)
  | capacityTooLarge (capacity : Nat)
  | unknownNode (node : Nat)
  | unknownEdge (edge : Nat)
  | misfiledEdge (edge : Nat)
  | unknownFunction (function : Nat)
  | unknownCallSite (site : Nat)
deriving DecidableEq, Repr

/-- The wording of a fault. -/
def Fault.message : Fault → String
  | indexTooLarge index => "index " ++ toString index ++ " does not fit its type"
  | capacityTooLarge capacity => "capacity " ++ toString capacity ++ " is too large"
  | unknownNode node => "there is no node " ++ toString node
  | unknownEdge edge => "there is no edge " ++ toString edge
  | misfiledEdge edge => "edge " ++ toString edge ++ " is filed under another kind"
  | unknownFunction function => "there is no function " ++ toString function
  | unknownCallSite site => "there is no call site " ++ toString site

end PointsTo
