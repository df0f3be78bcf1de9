import PointsTo.Delivery

namespace PointsTo

/-- A directory in memory, with files but no directories in it, and what has gone to the standard streams. -/
structure Directory where
  files : Std.TreeMap String ByteArray
  output : String
  errors : String
  log : Array Event

inductive Device
  /-- Takes everything, and nothing is in it. -/
  | null
  /-- Takes everything, and does not end. -/
  | endless
  /-- Takes nothing, and does not end. -/
  | full
  | output
  | errors
deriving DecidableEq, Repr

/-- Devices by the names on the way to them from the root. Standard input is empty. -/
def Device.at? : List String → Option Device
  | ["dev", "null"] | ["dev", "stdin"] | ["proc", "self", "fd", "0"] => some null
  | ["dev", "zero"] | ["dev", "random"] | ["dev", "urandom"] => some endless
  | ["dev", "full"] => some full
  | ["dev", "stdout"] | ["proc", "self", "fd", "1"] => some output
  | ["dev", "stderr"] | ["proc", "self", "fd", "2"] => some errors
  | _ => none

/-- What a path leads to. -/
inductive Place
  /-- A directory by the names on the way to it from the root. -/
  | directory (names : List String)
  /-- A file of the directory in memory. -/
  | file (name : String)
  | device (device : Device)
  | nowhere
deriving DecidableEq, Repr

/-- The longest name of a file in bytes. -/
def maxNameLength : Nat := 255

/-- The longest path in bytes. -/
def maxPathLength : Nat := 4095

namespace Place

/-- Where the directory in memory is. -/
def home : List String := ["tmp", "work"]

/-- The directories outside. -/
def outside : List (List String) :=
  [["dev"], ["dev", "pts"], ["dev", "shm"], ["etc"], ["proc"], ["proc", "self"], ["proc", "self", "fd"], ["sys"],
    ["tmp"], ["usr"], ["var"]]

/-- What stands at the end of the names from the root. A link is followed, so that a step back from it starts where
it leads to. -/
def ofNames : List String → Place
  | ["dev", "fd"] => directory ["proc", "self", "fd"]
  | ["proc", "self", "cwd"] => directory home
  | ["proc", "self", "root"] => directory []
  | names =>
    match Device.at? names with
    | some found => device found
    | none => if names = home || outside.contains names then directory names else nowhere

/-- One step along a path. Files and devices have no steps from them. -/
def step : Place → String → Place
  | directory names, "" | directory names, "." => directory names
  | directory names, ".." => directory names.dropLast
  | directory names, name =>
    if names = home then
      if name.utf8ByteSize ≤ maxNameLength then file name else nowhere
    else ofNames (names ++ [name])
  | _, _ => nowhere

def ofPath (path : String) : Place :=
  if path = "" || maxPathLength < path.utf8ByteSize || path.toList.contains '\x00' then nowhere
  else (path.splitOn "/").foldl step (directory (if path.startsWith "/" then [] else home))

end Place

namespace Directory

def empty : Directory := ⟨∅, "", "", #[]⟩

def read (d : Directory) (path : String) : Option String :=
  match Place.ofPath path with
  | .file name => d.files[name]? >>= String.fromUTF8?
  | .device .null => some ""
  | _ => none

/-- Puts a text into a file in place of what was there, or hands it to a device. -/
def write (d : Directory) (path text : String) : Option Directory :=
  match Place.ofPath path with
  | .file name => some { d with files := d.files.insert name text.toUTF8 }
  | .device .null | .device .endless => some d
  | .device .full => if text.isEmpty then some d else none
  | .device .output => some { d with output := d.output ++ text }
  | .device .errors => some { d with errors := d.errors ++ text }
  | _ => none

/-- Runs `write` on the directory of a run, which stays as it is on failure. -/
def writing (path text : String) : StateM Directory Bool := fun d =>
  match d.write path text with
  | some d => (true, d)
  | none => (false, d)

def medium : Medium (StateM Directory) where
  read path := do return (← get).read path
  create path := writing path ""
  write path text := writing path text
  print text := modify fun d => { d with output := d.output ++ text }
  log event := modify fun d => { d with log := d.log.push event }

end Directory

end PointsTo
