import PointsTo.Graph.Edge

namespace PointsTo

inductive Level
  | warn
  | info
  | debug
deriving DecidableEq, Repr

inductive Event
  | ignoredOffset (source target : String)
  | duplicateEdge (family : EdgeFamily) (source target : String)
  | loaded (nodes edges directCalls indirectCalls : Nat)
  | initialized (nodes edges indirectCalls : Nat)
  | activated (nodes : Nat)
  | beyondFieldLimit (base : NodeId) (offset : Nat)
  | createdField (field base : NodeId) (offset : Nat)
  | propagated (processed copyEdges : Nat)
  | solved
  | callWithoutCaller (site : String)
  | unresolvedCall (site pointer : String)
  | notAFunction (pointee site : String)
  | resolved (newEdges : Nat)
  | writingPointsTo
  | writingCallGraph
  | writingGraph
  | writingIndirectCalls
  | writingStatistics
deriving DecidableEq, Repr

namespace Event

def level : Event → Level
  | ignoredOffset .. => .warn
  | duplicateEdge .. | activated .. | beyondFieldLimit .. | createdField .. | propagated ..
  | callWithoutCaller .. | unresolvedCall .. | notAFunction .. => .debug
  | _ => .info

private def nodeText (n : NodeId) : String := "NodeIndex(" ++ toString n ++ ")"

def message : Event → String
  | ignoredOffset source target => "Ignoring offset of non-gep edge " ++ source ++ " -> " ++ target
  | duplicateEdge family source target =>
    "Duplicate " ++ family.title ++ " edge " ++ source ++ " -> " ++ target
  | loaded nodes edges directCalls indirectCalls =>
    "Loaded " ++ toString nodes ++ " nodes, " ++ toString edges ++ " edges, " ++ toString directCalls ++
      " direct and " ++ toString indirectCalls ++ " indirect calls"
  | initialized nodes edges indirectCalls =>
    "Constraint graph: " ++ toString nodes ++ " nodes, " ++ toString edges ++ " edges, " ++
      toString indirectCalls ++ " indirect callsites"
  | activated nodes => toString nodes ++ " nodes activated by address edges"
  | beyondFieldLimit base offset =>
    "Offset " ++ toString offset ++ " of " ++ nodeText base ++ " exceeds the field limit"
  | createdField field base offset =>
    "Created field object " ++ nodeText field ++ " for (" ++ nodeText base ++ ", " ++ toString offset ++ ")"
  | propagated processed copyEdges =>
    "Propagation finished: " ++ toString processed ++ " nodes processed, " ++ toString copyEdges ++
      " copy edges added"
  | solved => "Andersen completed."
  | callWithoutCaller site => "Skipping callsite " ++ site ++ " without a caller"
  | unresolvedCall site pointer => "Unresolved callsite " ++ site ++ ": " ++ pointer ++ " points to nothing"
  | notAFunction pointee site => "Ignoring non-function target " ++ pointee ++ " at callsite " ++ site
  | resolved newEdges => "Resolved " ++ toString newEdges ++ " new indirect call edges"
  | writingPointsTo => "Dumping points-to results..."
  | writingCallGraph => "Dumping call graph..."
  | writingGraph => "Dumping constraint graph..."
  | writingIndirectCalls => "Dumping indirect calls..."
  | writingStatistics => "Dumping pta statistics..."

end Event

def Level.text : Level → String
  | warn => "WARN"
  | info => "INFO"
  | debug => "DEBUG"

/-- A line of the log: level and message. -/
def Event.text (event : Event) : String := event.level.text ++ " " ++ event.message

end PointsTo
