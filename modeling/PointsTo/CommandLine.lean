import PointsTo.Delivery
import PointsTo.Options.Arguments
import PointsTo.Program.Loader
import PointsTo.Text.Quoted

namespace PointsTo

/-- How a run ends. -/
inductive Ending
  | completed
  | help
  | version
  | usage
  | failed (message : String)
  | faulted (fault : Fault)
deriving DecidableEq, Repr

namespace Ending

def exitCode : Ending → UInt8
  | completed | help | version => 0
  | failed _ => 1
  | usage => 2
  | faulted _ => 101

def ofArgumentsEnd : ArgumentsEnd → Ending
  | .help => help
  | .version => version
  | .usage => usage

def ofDeliveryError : DeliveryError → Ending
  | .fault f => faulted f
  | e => failed e.message

/-- What a failed run says on standard error. -/
def errorText (message : String) : String := "Error: " ++ message

end Ending

def versionText : String := "pta 0.1.0\n"

def usageText : String := "pta [OPTIONS] INPUT"

/-- Options from the environment, then from the arguments, which win. -/
def commandOptions (flags : Option String) (arguments : List String) : Except Ending Options := do
  let o ←
    match flags with
    | none => pure {}
    | some value =>
      match environmentArguments? value with
      | some given => (Options.readArguments {} given).mapError Ending.ofArgumentsEnd
      | none => throw (.failed "PTA_FLAGS must be a JSON array of strings")
  (o.readArguments arguments).mapError Ending.ofArgumentsEnd

/-- Loads a file. -/
def loadFile [Monad m] (medium : Medium m) (path : String) : ExceptT Ending m Program := do
  match ← medium.read path with
  | none => throw (.failed ("Failed to read constraint graph file: " ++ quoted path))
  | some text =>
    match loadText text with
    | .error rejected =>
      medium.logAll rejected.log
      throw (.failed ("Failed to load constraint graph from " ++ quoted path))
    | .ok l =>
      medium.logAll l.log
      return l.program

/-- Solves a program, resolves its indirect calls and delivers the reports. -/
def analyzeProgram [Monad m] (medium : Medium m) (o : Options) (p : Program) : ExceptT Ending m Unit := do
  let s ← MonadExcept.ofExcept (((Solver.ofGraph p.graph).analyze o.fieldLimit).mapError Ending.faulted)
  medium.logAll s.log
  let r ← MonadExcept.ofExcept ((resolveCalls s.graph s.store p.callGraph).mapError fun i => Ending.faulted i.fault)
  medium.logAll r.log
  (deliver medium o s r.callGraph).adapt Ending.ofDeliveryError

def runCommand [Monad m] (medium : Medium m) (flags : Option String) (arguments : List String) :
    ExceptT Ending m Unit := do
  let o ← MonadExcept.ofExcept (commandOptions flags arguments)
  match o.input with
  | none => throw (.failed ("No input constraint graph given. Usage: " ++ usageText))
  | some path => analyzeProgram medium o (← loadFile medium path)

end PointsTo
