import PointsTo.DenseSet

namespace PointsTo.DenseSet

/-- The position of the lowest bit of a word that is not zero. -/
def lowestBit (w : UInt64) : Nat := w.toBitVec.ctz.toNat

structure Cursor where
  /-- The current word, with the bits that are still to come. -/
  word : UInt64
  /-- The index that the lowest bit of the current word stands for. -/
  base : Nat
  /-- Is there a current word yet? -/
  started : Bool
  /-- The words after the current one. -/
  rest : List UInt64

namespace Cursor

/-- The next element, and the cursor behind it. -/
def next? : Cursor → Option (Nat × Cursor)
  | ⟨word, base, started, rest⟩ =>
    if word != 0 then some (base + lowestBit word, ⟨word &&& (word - 1), base, started, rest⟩)
    else
      match rest with
      | [] => none
      | w :: rest => next? ⟨w, if started then base + 64 else base, true, rest⟩
termination_by c => c.rest.length

end Cursor

/-- A cursor before the first element. -/
def cursor (s : DenseSet) : Cursor := ⟨0, 0, false, s.words.toList⟩

end PointsTo.DenseSet
