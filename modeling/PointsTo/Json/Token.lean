import PointsTo.Json.Numeral
import PointsTo.Json.Text

namespace PointsTo.Json

inductive Token
  | openBrace
  | closeBrace
  | openBracket
  | closeBracket
  | colon
  | comma
  | null
  | bool (b : Bool)
  | number (x : Numeral)
  | string (s : String)
deriving DecidableEq, Repr

def isBlank (c : Char) : Bool := c == ' ' || c == '\t' || c == '\n' || c == '\x0d'

/-- The token at the front of a text that does not begin with a blank, and what follows. -/
def scanToken : List Char → Option (Token × List Char)
  | '{' :: r => some (.openBrace, r)
  | '}' :: r => some (.closeBrace, r)
  | '[' :: r => some (.openBracket, r)
  | ']' :: r => some (.closeBracket, r)
  | ':' :: r => some (.colon, r)
  | ',' :: r => some (.comma, r)
  | '"' :: r => (scanText r).map fun (cs, r) => (.string (String.ofList cs), r)
  | 'n' :: 'u' :: 'l' :: 'l' :: r => some (.null, r)
  | 't' :: 'r' :: 'u' :: 'e' :: r => some (.bool true, r)
  | 'f' :: 'a' :: 'l' :: 's' :: 'e' :: r => some (.bool false, r)
  | cs => (scanNumeral cs).map fun (x, r) => (.number x, r)

/-- All tokens of a text with at most `room` characters. -/
def scanTokens : (room : Nat) → List Char → Option (List Token)
  | _, [] => some []
  | 0, _ :: _ => none
  | room + 1, c :: r =>
    if isBlank c then scanTokens room r
    else
      match scanToken (c :: r) with
      | none => none
      | some (token, r) => (scanTokens room r).map (token :: ·)

def tokens? (text : String) : Option (List Token) := scanTokens text.toList.length text.toList

end PointsTo.Json
