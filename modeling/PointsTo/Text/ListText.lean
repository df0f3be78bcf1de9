import PointsTo.Index

namespace PointsTo

def digitValue (c : Char) : Nat := c.toNat - '0'.toNat

/-- The number that a list of decimal digits spells. -/
def digitsValue (ds : List Char) : Nat := ds.foldl (fun n c => 10 * n + digitValue c) 0

/-- A code point in lower-case hexadecimal. -/
def hexText (n : Nat) : List Char := Nat.toDigits 16 n

/-- A list of numbers: brackets around it, a comma and a blank between. -/
def listText (xs : List Nat) : String := "[" ++ ", ".intercalate (xs.map toString) ++ "]"

/-- The short name of a function number. -/
def FuncId.text (f : FuncId) : String := "f" ++ toString f

/-- The short name of a call-site number. -/
def CallSiteId.text (c : CallSiteId) : String := "cs" ++ toString c

end PointsTo
