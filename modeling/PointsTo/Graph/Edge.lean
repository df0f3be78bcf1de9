import PointsTo.Index

namespace PointsTo

/-- The offset of a field access. A `variant` offset is not known before the program runs. -/
inductive Offset
  | constant (k : Nat)
  | variant
deriving DecidableEq, Repr

/-- The five constraints. With `o → p` for the edge: `addr` means `p = &o`, `copy` means `p = o`,
`load` means `p = *o`, `store` means `*p = o`, and `gep` means `p = &o->field`. -/
inductive EdgeKind
  | addr
  | copy
  | load
  | store
  | gep (offset : Offset)
deriving DecidableEq, Repr

/-- The kind of an edge without the offset. -/
inductive EdgeFamily
  | addr
  | copy
  | load
  | store
  | gep
deriving DecidableEq, Repr

structure Edge where
  source : NodeId
  target : NodeId
  kind : EdgeKind
deriving DecidableEq, Repr

def EdgeKind.family : EdgeKind → EdgeFamily
  | addr => .addr
  | copy => .copy
  | load => .load
  | store => .store
  | gep _ => .gep

/-- The kind with this family, where only `gep` takes notice of the offset. -/
def EdgeFamily.withOffset : EdgeFamily → Option Nat → EdgeKind
  | addr, _ => .addr
  | copy, _ => .copy
  | load, _ => .load
  | store, _ => .store
  | gep, some k => .gep (.constant k)
  | gep, none => .gep .variant

/-- The label of an edge in a drawing. -/
def EdgeKind.text : EdgeKind → String
  | addr => "addr"
  | copy => "copy"
  | load => "load"
  | store => "store"
  | gep (.constant k) => "gep[" ++ toString k ++ "]"
  | gep .variant => "gep[*]"

/-- The word for a family in a program description. -/
def EdgeFamily.keyword : EdgeFamily → String
  | addr => "addr"
  | copy => "copy"
  | load => "load"
  | store => "store"
  | gep => "gep"

/-- The word for a family in the log. -/
def EdgeFamily.title : EdgeFamily → String
  | addr => "Addr"
  | copy => "Copy"
  | load => "Load"
  | store => "Store"
  | gep => "Gep"

def EdgeFamily.ofKeyword? : String → Option EdgeFamily
  | "addr" => some .addr
  | "copy" => some .copy
  | "load" => some .load
  | "store" => some .store
  | "gep" => some .gep
  | _ => none

theorem EdgeFamily.ofKeyword?_keyword (family : EdgeFamily) : ofKeyword? family.keyword = some family := by
  cases family <;> rfl

end PointsTo
