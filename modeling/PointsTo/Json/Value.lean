import PointsTo.Json.Token

namespace PointsTo.Json

/-- An object keeps its members in the order of the text, repeated keys included: it is for the reader of a value to say
which repetitions are allowed. -/
inductive Value
  | null
  | bool (b : Bool)
  | number (x : Numeral)
  | string (s : String)
  | array (items : List Value)
  | object (members : List (String × Value))

/-- A parser of something at the front of a list of tokens. -/
abbrev Parser (α : Type) := List Token → Option (α × List Token)

/-- At most `room` items with commas between them, the closing token after the last. -/
def parseItems (item : Parser α) (close : Token) : (room : Nat) → Parser (List α)
  | 0, _ => none
  | room + 1, ts =>
    match item ts with
    | none => none
    | some (a, .comma :: r) => (parseItems item close room r).map fun (as, r) => (a :: as, r)
    | some (a, t :: r) => if t = close then some ([a], r) else none
    | some (_, []) => none

/-- Items in brackets, from behind the opening one; there may be none. -/
def parseList (item : Parser α) (close : Token) (room : Nat) : Parser (List α)
  | t :: r => if t = close then some ([], r) else parseItems item close room (t :: r)
  | [] => none

/-- A key, a colon and a value. -/
def parseMember (value : Parser Value) : Parser (String × Value)
  | .string key :: .colon :: r => (value r).map fun (v, r) => ((key, v), r)
  | _ => none

/-- A value in which arrays and objects are nested at most `depth` deep and have at most `room` items. -/
def parseValue (room : Nat) : (depth : Nat) → Parser Value
  | _, .null :: r => some (.null, r)
  | _, .bool b :: r => some (.bool b, r)
  | _, .number x :: r => some (.number x, r)
  | _, .string s :: r => some (.string s, r)
  | depth + 1, .openBracket :: r =>
    (parseList (parseValue room depth) .closeBracket room r).map fun (items, r) => (.array items, r)
  | depth + 1, .openBrace :: r =>
    (parseList (parseMember (parseValue room depth)) .closeBrace room r).map fun (members, r) =>
      (.object members, r)
  | _, _ => none

/-- Arrays and objects may be nested this deep. -/
def maxDepth : Nat := 127

/-- The value that a text spells. -/
def parse? (text : String) : Option Value := do
  let ts ← tokens? text
  match parseValue ts.length maxDepth ts with
  | some (v, []) => some v
  | _ => none

/-- The texts of an array that holds nothing but strings. -/
def strings? (text : String) : Option (List String) :=
  match parse? text with
  | some (.array items) => items.mapM fun
    | .string s => some s
    | _ => none
  | _ => none

end PointsTo.Json
