import PointsTo.Options.Basic
import PointsTo.Json.Value

namespace PointsTo

/-- Options that take a value. -/
inductive ValueOption
  | fieldLimit
  | pointsTo
  | callGraph
  | graph
  | indirectCalls
deriving DecidableEq, Repr

def ValueOption.ofName? : String → Option ValueOption
  | "field-limit" => some .fieldLimit
  | "dump-pts" => some .pointsTo
  | "dump-call-graph" => some .callGraph
  | "dump-constraint-graph" => some .graph
  | "dump-indirect-calls" => some .indirectCalls
  | _ => none

/-- Why arguments give no options. -/
inductive ArgumentsEnd
  | help
  | version
  | usage
deriving DecidableEq, Repr

/-- What the arguments have given so far. -/
structure Arguments where
  input : Option String := none
  fieldLimit : Option Nat := none
  statistics : Bool := false
  pointsToOutput : Option String := none
  callGraphOutput : Option String := none
  graphOutput : Option String := none
  indirectCallsOutput : Option String := none
  /-- A mistake was made that is noticed at the end. -/
  mistaken : Bool := false
deriving DecidableEq, Repr

/-- A limit is written with decimal digits, a plus before them if one likes, and fits a machine word. -/
def limit? (value : String) : Option Nat :=
  let digits :=
    match value.toList with
    | '+' :: r => r
    | cs => cs
  if digits.isEmpty || !digits.all Char.isDigit then none
  else
    let n := digitsValue digits
    if n < wordLimit then some n else none

/-- An argument that begins with two dashes: its name, and the value after the first equals sign. -/
def longOption? (argument : String) : Option (String × Option String) :=
  match argument.toList with
  | '-' :: '-' :: r =>
    let name := String.ofList (r.takeWhile (· != '='))
    match r.dropWhile (· != '=') with
    | [] => some (name, none)
    | _ :: value => some (name, some (String.ofList value))
  | _ => none

/-- The letters of an argument that begins with one dash. -/
def letters? (argument : String) : Option (Char × List Char) :=
  match argument.toList with
  | '-' :: c :: r => if c = '-' then none else some (c, r)
  | _ => none

/-- An argument can be the value of the option before it unless it looks like an option. A dash alone does
not. -/
def isValue (argument : String) : Bool :=
  match argument.toList with
  | '-' :: _ :: _ => false
  | _ => true

namespace Arguments

/-- Marks a mistake that is noticed at the end. -/
def mistake (a : Arguments) : Arguments := { a with mistaken := true }

/-- Fills a place that may be filled once. -/
def fill (place : Option α) (a filled : Arguments) : Arguments :=
  if place.isSome then a.mistake else filled

def put (a : Arguments) (option : ValueOption) (value : String) : Except ArgumentsEnd Arguments :=
  match option with
  | .fieldLimit =>
    match limit? value with
    | some n => .ok (fill a.fieldLimit a { a with fieldLimit := some n })
    | none => .error .usage
  | .pointsTo => .ok (fill a.pointsToOutput a { a with pointsToOutput := some value })
  | .callGraph => .ok (fill a.callGraphOutput a { a with callGraphOutput := some value })
  | .graph => .ok (fill a.graphOutput a { a with graphOutput := some value })
  | .indirectCalls => .ok (fill a.indirectCallsOutput a { a with indirectCallsOutput := some value })

/-- There is one input, and a second one is noticed at once. -/
def putInput (a : Arguments) (value : String) : Except ArgumentsEnd Arguments :=
  if a.input.isSome then .error .usage else .ok { a with input := some value }

/-- An option without a value. -/
def putSwitch (a : Arguments) (name : String) : Except ArgumentsEnd Arguments :=
  match name with
  | "dump-stats" => .ok (if a.statistics then a.mistake else { a with statistics := true })
  | "help" => .error .help
  | "version" => .error .version
  | _ => .error .usage

def scan (a : Arguments) : List String → Except ArgumentsEnd Arguments
  | [] => if a.mistaken then .error .usage else .ok a
  | "--" :: rest => do
    let a ← rest.foldlM putInput a
    if a.mistaken then .error .usage else .ok a
  | argument :: rest =>
    match longOption? argument with
    | some (name, value?) =>
      match ValueOption.ofName? name, value? with
      | some option, some value => do scan (← a.put option value) rest
      | some option, none =>
        match rest with
        | [] => .error .usage
        | value :: rest =>
          if isValue value then do scan (← a.put option value) rest else scan a.mistake (value :: rest)
      | none, some _ => .error .usage
      | none, none => do scan (← a.putSwitch name) rest
    | none =>
      match letters? argument with
      | some ('h', _) => .error .help
      | some ('V', _) => .error .version
      | some _ => .error .usage
      | none => do scan (← a.putInput argument) rest

end Arguments

namespace Options

/-- Options that are given win over those from before. -/
def override (o : Options) (a : Arguments) : Options where
  input := a.input <|> o.input
  fieldLimit := a.fieldLimit.getD o.fieldLimit
  statistics := a.statistics || o.statistics
  pointsToOutput := a.pointsToOutput <|> o.pointsToOutput
  callGraphOutput := a.callGraphOutput <|> o.callGraphOutput
  graphOutput := a.graphOutput <|> o.graphOutput
  indirectCallsOutput := a.indirectCallsOutput <|> o.indirectCallsOutput

def readArguments (o : Options) (arguments : List String) : Except ArgumentsEnd Options :=
  (Arguments.scan {} arguments).map o.override

end Options

/-- The arguments that an environment variable holds as a JSON array of strings. -/
def environmentArguments? (value : String) : Option (List String) := Json.strings? value

end PointsTo
