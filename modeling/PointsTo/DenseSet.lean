import PointsTo.Index

namespace PointsTo

/-- A set of indices as a vector of words. Index `x` is bit `x % 64` of word `x / 64`, and a word that is not stored
counts as zero. -/
structure DenseSet where
  words : Array UInt64
deriving DecidableEq, Repr

/-- The number of words that hold all indices below `capacity`. -/
def wordsFor (capacity : Nat) : Nat := (capacity + 63) / 64

/-- The word whose only bit is the one of `x`. -/
def bitMask (x : Nat) : UInt64 := 1 <<< (x % 64).toUInt64

/-- The positions of the bits of a word, ascending. -/
def bitsOf (w : UInt64) : List Nat :=
  if w == 0 then [] else (List.range 64).filter fun i => w &&& bitMask i != 0

namespace DenseSet

def empty : DenseSet := ⟨#[]⟩

instance : EmptyCollection DenseSet := ⟨empty⟩

instance : Inhabited DenseSet := ⟨empty⟩

def word (s : DenseSet) (i : Nat) : UInt64 := s.words.getD i 0

def contains (s : DenseSet) (x : Nat) : Bool := s.word (x / 64) &&& bitMask x != 0

instance : Membership Nat DenseSet := ⟨fun s x => s.contains x = true⟩

instance (x : Nat) (s : DenseSet) : Decidable (x ∈ s) := inferInstanceAs (Decidable (s.contains x = true))

/-- Makes room for all indices below `capacity`. -/
def ensure (s : DenseSet) (capacity : Nat) : DenseSet :=
  if wordsFor capacity ≤ s.words.size then s
  else ⟨s.words ++ Array.replicate (wordsFor capacity - s.words.size) 0⟩

/-- Forgets the elements and keeps the storage. -/
def clear (s : DenseSet) : DenseSet := ⟨Array.replicate s.words.size 0⟩

def isEmpty (s : DenseSet) : Bool := s.words.all (· == 0)

/-- The elements in the words below the `n`-th, ascending, before `above`. -/
def elementsBelow (s : DenseSet) : Nat → List Nat → List Nat
  | 0, above => above
  | n + 1, above =>
    if s.word n == 0 then s.elementsBelow n above
    else s.elementsBelow n ((bitsOf (s.word n)).map (64 * n + ·) ++ above)

/-- The elements, ascending. -/
def toList (s : DenseSet) : List Nat := s.elementsBelow s.words.size []

/-- The number of elements in the words below the `n`-th, and `above` more. -/
def countBelow (s : DenseSet) : Nat → Nat → Nat
  | 0, above => above
  | n + 1, above => s.countBelow n ((bitsOf (s.word n)).length + above)

def count (s : DenseSet) : Nat := s.countBelow s.words.size 0

/-- Adds `x`, and says whether the contents changed. -/
def insert (s : DenseSet) (x : Nat) : DenseSet × Bool :=
  let grown := s.ensure (x + 1)
  let old := grown.word (x / 64)
  let new := old ||| bitMask x
  (⟨grown.words.setIfInBounds (x / 64) new⟩, new != old)

/-- Takes `x` out, and says whether the contents changed. -/
def erase (s : DenseSet) (x : Nat) : DenseSet × Bool :=
  let old := s.word (x / 64)
  let new := old &&& ~~~ bitMask x
  (⟨s.words.setIfInBounds (x / 64) new⟩, new != old)

/-- Combines the words below the `n`-th with those of `t`. The answer says whether one of them changed, or `changed`
holds already. -/
def combineBelow (op : UInt64 → UInt64 → UInt64) (t : DenseSet) : Nat → Array UInt64 → Bool → DenseSet × Bool
  | 0, words, changed => (⟨words⟩, changed)
  | n + 1, words, changed =>
    let old := words.getD n 0
    let new := op old (t.word n)
    if new == old then combineBelow op t n words changed
    else combineBelow op t n (words.setIfInBounds n new) true

/-- Combines the words that both `s` and `t` store, and says whether one of them changed. -/
def combine (op : UInt64 → UInt64 → UInt64) (s t : DenseSet) : DenseSet × Bool :=
  combineBelow op t (min s.words.size t.words.size) s.words false

/-- Adds the elements of `t`, and says whether the contents changed. -/
def union (s t : DenseSet) : DenseSet × Bool :=
  combine (· ||| ·) (s.ensure (64 * t.words.size)) t

/-- Takes the elements of `t` out, and says whether the contents changed. -/
def subtract (s t : DenseSet) : DenseSet × Bool :=
  combine (fun a b => a &&& ~~~ b) s t

/-- Does `s` hold every element that `t` has in its words below the `n`-th? -/
def coversBelow (s t : DenseSet) : Nat → Bool
  | 0 => true
  | n + 1 => s.word n &&& t.word n == t.word n && s.coversBelow t n

/-- Does `s` hold every element of `t`? -/
def superset (s t : DenseSet) : Bool := s.coversBelow t t.words.size

def ofList (xs : List Nat) : DenseSet := xs.foldl (fun s x => (s.insert x).1) empty

/-- Can the number of words for `capacity` be computed within a machine word? The sum of the capacity and a
word's 64 bits, of which one is taken off again, is what has to stay below the limit. -/
def hasRoomFor (capacity : Nat) : Bool := capacity + 64 < wordLimit

/-- As `ensure`, for any number. -/
def ensureChecked (s : DenseSet) (capacity : Nat) : Except Fault DenseSet :=
  if hasRoomFor capacity then .ok (s.ensure capacity) else .error (.capacityTooLarge capacity)

/-- As `insert`, for any number. -/
def insertChecked (s : DenseSet) (x : Nat) : Except Fault (DenseSet × Bool) :=
  if hasRoomFor (x + 1) then .ok (s.insert x) else .error (.capacityTooLarge (x + 1))

end DenseSet

end PointsTo
