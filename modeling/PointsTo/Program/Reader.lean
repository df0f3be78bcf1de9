import PointsTo.Program.Description
import PointsTo.Json.Value

namespace PointsTo.Json

/-- No key is there twice. -/
def distinctKeys (members : List (String × Value)) : Bool := decide (members.map (·.1)).Nodup

/-- The values of the named fields of a record, in that order. An object may have no other key, none of them
twice, and may leave fields out; an array may leave out only what follows the first `required` fields. -/
def fields? (names : List String) (required : Nat) : Value → Option (List (Option Value))
  | .object members =>
    if distinctKeys members && members.all fun (key, _) => names.contains key then
      some (names.map fun name => members.lookup name)
    else none
  | .array items =>
    if required ≤ items.length && items.length ≤ names.length then
      some ((List.range names.length).map fun i => items[i]?)
    else none
  | _ => none

def string? : Value → Option String
  | .string s => some s
  | _ => none

def list? (item : Value → Option α) : Value → Option (List α)
  | .array items => items.mapM item
  | _ => none

/-- A field that must be there. -/
def need (read : Value → Option α) : Option Value → Option α
  | some v => read v
  | none => none

/-- A list that is empty unless it is there. -/
def listField (item : Value → Option α) : Option Value → Option (List α)
  | some v => list? item v
  | none => some []

/-- A field that may be left out or be null. -/
def optionField (read : Value → Option α) : Option Value → Option (Option α)
  | some .null | none => some none
  | some v => (read v).map some

/-- A whole number that fits a machine word. -/
def word? : Value → Option Nat
  | .number x => x.toWord?
  | _ => none

/-- A family is named by a string, or by the only key of an object whose value is null. -/
def family? : Value → Option EdgeFamily
  | .string s => EdgeFamily.ofKeyword? s
  | .object [(key, .null)] => EdgeFamily.ofKeyword? key
  | _ => none

/-- The sort of a node, where an object has the mark that its fields are not told apart or has it not. -/
def sort? (keyword : String) (insensitive : Option Value) : Option NodeSort :=
  match keyword, insensitive with
  | "value", _ => some .value
  | "function", _ => some .function
  | "object", none => some .object
  | "object", some (.bool insensitive) => some (if insensitive then .array else .object)
  | _, _ => none

/-- The only value of a key, if the key is there once. -/
def single? (members : List (String × Value)) (key : String) : Option Value :=
  match members.filter (·.1 == key) with
  | [(_, v)] => some v
  | _ => none

/-- How often a key is there. -/
def occurrences (members : List (String × Value)) (key : String) : Nat := members.countP (·.1 == key)

/-- A node as an object may have other keys, which are ignored, and the mark of an object counts as one of
them for the other sorts of nodes. As an array, it is the sort, the name, and for an object the mark. -/
def node? : Value → Option NodeEntry
  | .object members => do
    let keyword ← need string? (single? members "kind")
    let name ← need string? (single? members "name")
    if keyword = "object" && 1 < occurrences members "field_insensitive" then none
    else return ⟨name, ← sort? keyword (single? members "field_insensitive")⟩
  | .array [.string keyword, .string name] => (sort? keyword none).map (⟨name, ·⟩)
  | .array [.string "object", .string name, insensitive] =>
    (sort? "object" (some insensitive)).map (⟨name, ·⟩)
  | _ => none

def edge? (v : Value) : Option EdgeEntry :=
  match fields? ["kind", "src", "dst", "offset"] 3 v with
  | some [kind, source, target, offset] => do
    return ⟨← need family? kind, ← need string? source, ← need string? target, ← optionField word? offset⟩
  | _ => none

def indirectCall? (v : Value) : Option IndirectCallEntry :=
  match fields? ["label", "caller", "fn_ptr"] 3 v with
  | some [label, caller, pointer] => do
    return ⟨← need string? label, ← optionField string? caller, ← need string? pointer⟩
  | _ => none

def directCall? (v : Value) : Option DirectCallEntry :=
  match fields? ["label", "caller", "callee"] 3 v with
  | some [label, caller, callee] => do
    return ⟨← need string? label, ← need string? caller, ← need string? callee⟩
  | _ => none

def description? (v : Value) : Option Description :=
  match fields? ["nodes", "edges", "indirect_calls", "direct_calls"] 0 v with
  | some [nodes, edges, indirectCalls, directCalls] => do
    return {
      nodes := ← listField node? nodes
      edges := ← listField edge? edges
      directCalls := ← listField directCall? directCalls
      indirectCalls := ← listField indirectCall? indirectCalls }
  | _ => none

end PointsTo.Json

namespace PointsTo

/-- The description that a text spells. -/
def Description.ofText? (text : String) : Option Description := Json.parse? text >>= Json.description?

end PointsTo
