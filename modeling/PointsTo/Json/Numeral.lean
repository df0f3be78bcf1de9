import PointsTo.Rounding
import PointsTo.Text.ListText

namespace PointsTo.Json

structure Exponent where
  negative : Bool
  digits : List Char
deriving DecidableEq, Repr

structure Numeral where
  negative : Bool
  whole : List Char
  /-- The digits after the point; none of them means that there is no point. -/
  fraction : List Char
  exponent : Option Exponent
deriving DecidableEq, Repr

/-- Reads as many digits into a machine word as fit it; the others are left over. -/
def takeDigits (n : Nat) : List Char → Nat × List Char
  | [] => (n, [])
  | c :: ds => if 10 * n + digitValue c < wordLimit then takeDigits (10 * n + digitValue c) ds else (n, c :: ds)

namespace Numeral

/-- The leading digits as a machine word, and the power of ten that belongs to it. Whole digits that do not
fit count as zeros, and decimals that do not fit are dropped. -/
def scientific (x : Numeral) : Nat × Int :=
  let (whole, surplus) := takeDigits 0 x.whole
  let (significand, dropped) := takeDigits whole x.fraction
  let written : Int :=
    match x.exponent with
    | none => 0
    | some e => if e.negative then - (digitsValue e.digits : Int) else digitsValue e.digits
  (significand, surplus.length - (x.fraction.length - dropped.length : Nat) + written)

/-- Products from this one on are rounded to infinity in double precision. -/
def infinityThreshold : Nat := 1 <<< 1024 - 1 <<< 970

/-- Does the number lie within the range of double precision? The significand and the power of ten are
rounded before they are multiplied. A number too small to tell from zero is in range. -/
def inRange (x : Numeral) : Bool :=
  match x.scientific with
  | (0, _) => true
  | (significand, .ofNat e) => e ≤ 308 && roundBits significand * roundBits (Nat.pow 10 e) < infinityThreshold
  | (_, .negSucc _) => true

/-- The value of a number that is written without minus, fraction and exponent and fits a machine word. -/
def toWord? (x : Numeral) : Option Nat :=
  if x.negative || !x.fraction.isEmpty || x.exponent.isSome then none
  else
    let n := digitsValue x.whole
    if n < wordLimit then some n else none

end Numeral

/-- The exponent that stands at the front of a text, if any, and what follows. -/
def scanExponent (cs : List Char) : Option (Option Exponent × List Char) :=
  match cs with
  | c :: r =>
    if c == 'e' || c == 'E' then
      let (negative, r) :=
        match r with
        | '-' :: r => (true, r)
        | '+' :: r => (false, r)
        | _ => (false, r)
      let digits := r.takeWhile Char.isDigit
      if digits.isEmpty then none else some (some ⟨negative, digits⟩, r.dropWhile Char.isDigit)
    else some (none, cs)
  | [] => some (none, [])

/-- The fraction that stands at the front of a text, if any, and what follows. -/
def scanFraction (cs : List Char) : Option (List Char × List Char) :=
  match cs with
  | '.' :: r =>
    let digits := r.takeWhile Char.isDigit
    if digits.isEmpty then none else some (digits, r.dropWhile Char.isDigit)
  | _ => some ([], cs)

/-- Whole digits are there, and a zero stands at their front only alone. -/
def isWhole : List Char → Bool
  | [] => false
  | ['0'] => true
  | c :: _ => c != '0'

/-- The number at the front of a text, and what follows. -/
def scanNumeral (cs : List Char) : Option (Numeral × List Char) := do
  let (negative, cs) :=
    match cs with
    | '-' :: r => (true, r)
    | _ => (false, cs)
  let whole := cs.takeWhile Char.isDigit
  if isWhole whole then
    let (fraction, cs) ← scanFraction (cs.dropWhile Char.isDigit)
    let (exponent, cs) ← scanExponent cs
    let x : Numeral := ⟨negative, whole, fraction, exponent⟩
    if x.inRange then some (x, cs) else none
  else none

end PointsTo.Json
