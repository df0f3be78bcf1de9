import PointsTo.Text.ListText
import PointsTo.Text.Unprintable

namespace PointsTo

def quotedChar (c : Char) : List Char :=
  match c with
  | '\x00' => ['\\', '0']
  | '\t' => ['\\', 't']
  | '\n' => ['\\', 'n']
  | '\x0d' => ['\\', 'r']
  | '"' => ['\\', '"']
  | '\\' => ['\\', '\\']
  | _ => if isUnprintable c then ['\\', 'u', '{'] ++ hexText c.toNat ++ ['}'] else [c]

/-- A text in double quotes, where what does not show on its own is written as its code point. -/
def quoted (s : String) : String := "\"" ++ String.ofList (s.toList.flatMap quotedChar) ++ "\""

end PointsTo
