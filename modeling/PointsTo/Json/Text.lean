import PointsTo.Index

namespace PointsTo.Json

def hexValue? (c : Char) : Option Nat :=
  if '0' ≤ c ∧ c ≤ '9' then some (c.toNat - '0'.toNat)
  else if 'a' ≤ c ∧ c ≤ 'f' then some (c.toNat - 'a'.toNat + 10)
  else if 'A' ≤ c ∧ c ≤ 'F' then some (c.toNat - 'A'.toNat + 10)
  else none

/-- The 16-bit unit that four hexadecimal digits spell. -/
def unit? (a b c d : Char) : Option Nat := do
  return 4096 * (← hexValue? a) + 256 * (← hexValue? b) + 16 * (← hexValue? c) + (← hexValue? d)

/-- The first half of a surrogate pair. -/
def isLeading (u : Nat) : Bool := 0xD800 ≤ u && u < 0xDC00

/-- The second half of a surrogate pair. -/
def isTrailing (u : Nat) : Bool := 0xDC00 ≤ u && u < 0xE000

/-- The character of a surrogate pair. -/
def pairChar (u v : Nat) : Char := Char.ofNat (0x10000 + 1024 * (u - 0xD800) + (v - 0xDC00))

/-- The character that a backslash and this letter stand for. -/
def escaped? : Char → Option Char
  | '"' => some '"'
  | '\\' => some '\\'
  | '/' => some '/'
  | 'b' => some '\x08'
  | 'f' => some '\x0c'
  | 'n' => some '\n'
  | 'r' => some '\x0d'
  | 't' => some '\t'
  | _ => none

/-- May the character stand in a string as it is? -/
def isPlain (c : Char) : Bool := 0x20 ≤ c.toNat && c != '"' && c != '\\'

/-- The characters up to the closing quote, and what follows it. Control characters must be escaped, and a
surrogate must come with its other half. -/
def scanText : List Char → Option (List Char × List Char)
  | [] => none
  | '"' :: r => some ([], r)
  | '\\' :: 'u' :: a :: b :: c :: d :: r =>
    match unit? a b c d with
    | none => none
    | some u =>
      if isLeading u then
        match r with
        | '\\' :: 'u' :: a :: b :: c :: d :: r =>
          match unit? a b c d with
          | none => none
          | some v =>
            if isTrailing v then (scanText r).map fun (cs, r) => (pairChar u v :: cs, r) else none
        | _ => none
      else if isTrailing u then none
      else (scanText r).map fun (cs, r) => (Char.ofNat u :: cs, r)
  | '\\' :: e :: r =>
    match escaped? e with
    | none => none
    | some c => (scanText r).map fun (cs, r) => (c :: cs, r)
  | c :: r => if isPlain c then (scanText r).map fun (cs, r) => (c :: cs, r) else none

end PointsTo.Json
