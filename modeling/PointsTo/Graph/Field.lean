import PointsTo.Graph.Basic

namespace PointsTo

/-- What an access to a field meets. -/
inductive FieldAccess
  /-- The node has no fields of its own and stands for all of them. -/
  | whole (node : NodeId)
  /-- The offset is at or beyond the limit, so that the base object stands for the field. -/
  | beyondLimit (base : NodeId) (offset : Nat)
  /-- The field exists. -/
  | existing (node : NodeId)
  /-- The field does not exist yet. -/
  | missing (base : NodeId) (offset : Nat)
deriving DecidableEq, Repr

/-- Sums of offsets stop at the largest machine word. -/
def addOffsets (j k : Nat) : Nat := min (j + k) (wordLimit - 1)

namespace Graph

/-- The base object and offset that an access to offset `k` of a node of this kind is about. The base of a
field is never itself a field, so one step leads to the object. -/
def accessPath (n : NodeId) (kind : NodeKind) (k : Nat) : NodeId × Nat :=
  match kind with
  | .field base j => (base, addOffsets j k)
  | _ => (n, k)

/-- What the access to offset `k` of `n` meets. -/
def locate (g : Graph) (n : NodeId) (k : Nat) : Except Fault FieldAccess := do
  let start ← g.node n
  let (base, offset) := accessPath n start.kind k
  match (← g.node base).kind with
  | .object =>
    if g.fieldLimit ≤ offset then return .beyondLimit base offset
    else
      match g.fields[(base, offset)]? with
      | some field => return .existing field
      | none => return .missing base offset
  | _ => return .whole base

/-- Creates the field of `base` at `offset`. -/
def addField (g : Graph) (base : NodeId) (offset : Nat) : Graph × NodeId :=
  let name := ((g.nodes[base]?).map (·.name)).getD ""
  let n := g.nodes.size
  ({ g with
      nodes := g.nodes.push ⟨fieldName name offset, .field base offset⟩
      fields := g.fields.insert (base, offset) n }, n)

/-- Carries an access out: the node that stands for the field, in a graph that has it. -/
def access (g : Graph) : FieldAccess → Graph × NodeId
  | .whole n => (g, n)
  | .beyondLimit base _ => (g, base)
  | .existing field => (g, field)
  | .missing base offset => g.addField base offset

/-- The node that stands for the field of `n` at offset `k`, created if need be. -/
def field (g : Graph) (n : NodeId) (k : Nat) : Except Fault (Graph × NodeId) :=
  (g.locate n k).map g.access

/-- The field of the object `base` at `offset`, if it exists. -/
def fieldAt? (g : Graph) (base : NodeId) (offset : Nat) : Option NodeId := g.fields[(base, offset)]?

end Graph

end PointsTo
