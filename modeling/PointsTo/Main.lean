import PointsTo.CommandLine

namespace PointsTo

/-- Files, standard output and, if it is asked for, the log on standard error. -/
def console (levels : List Level) : Medium IO where
  read path := do
    try
      return String.fromUTF8? (← IO.FS.readBinFile path)
    catch _ => return none
  create path := do
    try
      IO.FS.writeFile path ""
      return true
    catch _ => return false
  write path text := do
    try
      IO.FS.writeFile path text
      return true
    catch _ => return false
  print text := IO.print text
  log event := do
    if levels.contains event.level then IO.eprintln event.text

/-- The levels that a value of `PTA_LOG` asks for. -/
def logLevels : Option String → List Level
  | some "warn" => [.warn]
  | some "info" => [.warn, .info]
  | some "debug" | some "trace" => [.warn, .info, .debug]
  | _ => []

def helpText : String :=
  "USAGE:\n    " ++ usageText ++ "\n\n" ++
  "ARGS:\n    <INPUT>    The constraint graph to be analyzed, in JSON format.\n\n" ++
  "OPTIONS:\n" ++
  "        --dump-call-graph <FILE>          Write the call graph in DOT format.\n" ++
  "        --dump-constraint-graph <FILE>    Write the solved constraint graph in DOT format.\n" ++
  "        --dump-indirect-calls <FILE>      Write indirect calls with their targets, or to `stdout`.\n" ++
  "        --dump-pts <FILE>                 Write points-to sets, or to `stdout`.\n" ++
  "        --dump-stats                      Print statistics.\n" ++
  "        --field-limit <field-limit>       Offsets from this one on are merged into their object.\n" ++
  "    -h, --help                            Print this text.\n" ++
  "    -V, --version                         Print the version.\n"

def Ending.report : Ending → IO Unit
  | completed => return
  | help => IO.print helpText
  | version => IO.print versionText
  | usage => IO.eprintln ("error: invalid arguments\n\nUSAGE:\n    " ++ usageText)
  | failed message => IO.eprintln (errorText message)
  | faulted fault => IO.eprintln fault.message

end PointsTo

open PointsTo in
def main (arguments : List String) : IO UInt32 := do
  let medium := console (logLevels (← IO.getEnv "PTA_LOG"))
  let ending ←
    match ← (runCommand medium (← IO.getEnv "PTA_FLAGS") arguments).run with
    | .ok () => pure Ending.completed
    | .error ending => pure ending
  ending.report
  return ending.exitCode.toUInt32
