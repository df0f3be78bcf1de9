import PointsTo.Options.Basic
import PointsTo.Report.Dot
import PointsTo.Report.Tables
import PointsTo.Report.Statistics

namespace PointsTo

/-- Where texts come from and go to. -/
structure Medium (m : Type → Type) where
  /-- The text of a file, if it can be read and is text. -/
  read : String → m (Option String)
  /-- Makes an empty file, and says whether that succeeded. -/
  create : String → m Bool
  /-- Writes the text of a file that was made, and says whether that succeeded. -/
  write : String → String → m Bool
  /-- Writes to standard output. -/
  print : String → m Unit
  log : Event → m Unit

def Medium.logAll [Monad m] (medium : Medium m) (events : Array Event) : m Unit :=
  events.forM fun event => medium.log event

/-- Reports that go to a file. -/
inductive Report
  | pointsTo
  | callGraph
  | graph
  | indirectCalls
deriving DecidableEq, Repr

inductive DeliveryError
  | fault (fault : Fault)
  | notCreated (path : String)
  | notWritten (report : Report) (path : String)
deriving DecidableEq, Repr

def Report.text : Report → String
  | pointsTo => "points-to results"
  | callGraph => "call graph"
  | graph => "constraint graph"
  | indirectCalls => "indirect calls"

def Report.event : Report → Event
  | pointsTo => .writingPointsTo
  | callGraph => .writingCallGraph
  | graph => .writingGraph
  | indirectCalls => .writingIndirectCalls

def DeliveryError.message : DeliveryError → String
  | fault f => f.message
  | notCreated path => "Unable to create file " ++ path
  | notWritten report path => "Failed to write " ++ report.text ++ " to " ++ path

/-- This name stands for standard output in the reports that are tables. -/
def standardOutput : String := "stdout"

/-- A text that is there unless putting it together met a fault. -/
def textOf [Monad m] (text : Except Fault String) : ExceptT DeliveryError m String :=
  MonadExcept.ofExcept (text.mapError DeliveryError.fault)

/-- Delivers a table. The file is made before the text is put together. -/
def deliverTable [Monad m] (medium : Medium m) (report : Report) (path : String) (text : Except Fault String) :
    ExceptT DeliveryError m Unit := do
  medium.log report.event
  if path = standardOutput then
    medium.print (← textOf text)
  else
    unless ← medium.create path do throw (.notCreated path)
    unless ← medium.write path (← textOf text) do throw (.notWritten report path)

/-- Delivers a drawing. -/
def deliverDrawing [Monad m] (medium : Medium m) (report : Report) (path : String) (text : Except Fault String) :
    ExceptT DeliveryError m Unit := do
  medium.log report.event
  let text ← textOf text
  unless ← medium.create path do throw (.notWritten report path)
  unless ← medium.write path text do throw (.notWritten report path)

/-- Delivers what the options ask for. -/
def deliver [Monad m] (medium : Medium m) (o : Options) (s : Solver) (cg : CallGraph) :
    ExceptT DeliveryError m Unit := do
  if let some path := o.pointsToOutput then
    deliverTable medium .pointsTo path (pointsToReport s.graph s.store)
  if let some path := o.callGraphOutput then
    deliverDrawing medium .callGraph path (cg.dot s.graph)
  if let some path := o.graphOutput then
    deliverDrawing medium .graph path (.ok s.graph.dot)
  if let some path := o.indirectCallsOutput then
    deliverTable medium .indirectCalls path (indirectCallReport s.graph s.store)
  if o.statistics then
    medium.log .writingStatistics
    medium.print (statisticsReport s cg)

end PointsTo
