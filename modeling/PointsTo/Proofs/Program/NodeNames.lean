import Mathlib.Data.List.Nodup
import PointsTo.Proofs.Program.Safety
import PointsTo.Proofs.Solver.Effect

namespace PointsTo

theorem Graph.Grown.nodup_names {g h : Graph} (grown : g.Grown h) (named : h.FieldsNamed) (wf : h.WellFormed)
    (distinct : (g.nodes.toList.map (·.name)).Nodup)
    (free : ∀ node ∈ g.nodes, ∀ object ∈ g.nodes, object.kind = .object → ∀ k, node.name ≠ fieldName object.name k) :
    (h.nodes.toList.map (·.name)).Nodup := by
  rw [grown.nodes_append, List.map_append, List.nodup_append]
  refine ⟨distinct, List.Nodup.map_on ?_ (grown.nodup_newNodes wf), ?_⟩
  · intro node new node' new' same
    obtain ⟨base, k, object, atBase, _, rfl⟩ := grown.exists_base named new
    obtain ⟨base', k', object', atBase', _, rfl⟩ := grown.exists_base named new'
    obtain ⟨names, rfl⟩ := fieldName_injective same
    have bases : base = base' := by
      refine (List.getElem?_inj ?_ distinct).mp ?_
      · simpa using (Array.getElem?_eq_some_iff.mp atBase).1
      · simp [atBase, atBase', names]
    rw [bases, names]
  · intro name old name' new same
    obtain ⟨node, member, rfl⟩ := List.mem_map.mp old
    obtain ⟨field, newField, rfl⟩ := List.mem_map.mp new
    obtain ⟨base, k, object, atBase, kind, rfl⟩ := grown.exists_base named newField
    exact free node (Array.mem_toList_iff.mp member) object (Array.mem_of_getElem? atBase) kind k same

theorem exists_append_iff {P : String → Prop} {text start : String} : (∃ rest, P rest ∧ text = start ++ rest) ↔
    P (String.ofList (text.toList.drop start.length)) ∧
      text = start ++ String.ofList (text.toList.drop start.length) := by
  constructor
  · rintro ⟨rest, holds, rfl⟩
    have same : String.ofList ((start ++ rest).toList.drop start.length) = rest := by
      simp [← String.length_toList]
    rw [same]
    exact ⟨holds, rfl⟩
  · exact fun ⟨holds, same⟩ => ⟨_, holds, same⟩

namespace Description

/-- The name reads as that of a field of an object. -/
def ReadsAsField (d : Description) (name : String) : Prop :=
  ∃ object ∈ d.nodes, object.sort = .object ∧ ∃ offset, IsNumeral offset ∧ name = object.name ++ "." ++ offset

instance (d : Description) (name : String) : Decidable (d.ReadsAsField name) :=
  decidable_of_iff (∃ object ∈ d.nodes, object.sort = .object ∧
      IsNumeral (String.ofList (name.toList.drop (object.name ++ ".").length)) ∧
      name = object.name ++ "." ++ String.ofList (name.toList.drop (object.name ++ ".").length)) <| by
    simp only [ReadsAsField, exists_append_iff]

theorem sort_of_kind_nodeFor {d : Description} {entry : NodeEntry} (kind : (d.nodeFor entry).kind = .object) :
    entry.sort = .object := by
  rw [nodeFor, NodeEntry.kind] at kind
  cases sort : entry.sort with
  | object => rfl
  | _ => simp [sort] at kind

end Description

open Solver in
/-- If no name of a program reads as that of a field of one of its objects, then after an analysis no two nodes have the
same name, be they of the program or created for fields. -/
theorem nodeNames_distinct {d : Description} {l : Loader} (loaded : d.load = .ok l)
    (free : ∀ name ∈ d.names, ¬ d.ReadsAsField name) (limit : Nat) :
    ∃ s, (ofGraph l.graph).analyze limit = .ok s ∧ (s.graph.nodes.toList.map (·.name)).Nodup := by
  have rep := Description.load_represents loaded
  have built : l.graph.Built := rep.program.built
  have nodes : l.graph.nodes.toList = d.nodes.map d.nodeFor := rep.program.nodes
  have distinct : (l.graph.nodes.toList.map (·.name)).Nodup := by
    rw [nodes, List.map_map]
    exact rep.named.distinct
  obtain ⟨s, done⟩ := exists_analyzed built limit
  refine ⟨s, done.run, done.grown.nodup_names (done.built_graph built).fieldsNamed done.stable.graph distinct ?_⟩
  intro node member object memberO kind k same
  rw [← Array.mem_toList_iff, nodes] at member memberO
  obtain ⟨entry, listed, rfl⟩ := List.mem_map.mp member
  obtain ⟨owner, listedO, rfl⟩ := List.mem_map.mp memberO
  exact free entry.name (List.mem_map_of_mem listed)
    ⟨owner, listedO, Description.sort_of_kind_nodeFor kind, toString k, isNumeral_toString k, same⟩

/-- Names with points, beside which the names of fields are new: `o` is no object, `01` and `1.1` are no offsets. -/
def pointedNames : Description where
  nodes := [⟨"o", .array⟩, ⟨"o.1", .object⟩, ⟨"o.1.01", .value⟩, ⟨"o.1.", .value⟩, ⟨"o.1.1.1", .object⟩, ⟨"p", .value⟩]
  edges := [⟨.addr, "o.1", "p", none⟩, ⟨.addr, "o.1.1.1", "p", none⟩, ⟨.gep, "p", "o.1.", some 1⟩,
    ⟨.gep, "o.1.", "o.1.01", some 10⟩]
  directCalls := []
  indirectCalls := []

open Solver in
theorem nodeNames_distinct_pointedNames : ∃ l s, pointedNames.load = .ok l ∧
    (∀ name ∈ pointedNames.names, ¬ pointedNames.ReadsAsField name) ∧ (ofGraph l.graph).analyze 16 = .ok s ∧
    s.graph.nodes.toList.map (·.name) = ["o", "o.1", "o.1.01", "o.1.", "o.1.1.1", "p",
      "o.1.1", "o.1.1.1.1", "o.1.11", "o.1.1.1.11"] ∧ (s.graph.nodes.toList.map (·.name)).Nodup := by
  have evaluated : (pointedNames.analyzed 16).any fun r => r.2.graph.nodes.toList.map (·.name) =
      ["o", "o.1", "o.1.01", "o.1.", "o.1.1.1", "p", "o.1.1", "o.1.1.1.1", "o.1.11", "o.1.1.1.11"] := by decide +kernel
  have free : ∀ name ∈ pointedNames.names, ¬ pointedNames.ReadsAsField name := by decide +kernel
  obtain ⟨l, s, loaded, ran, names⟩ := Description.of_analyzed evaluated
  obtain ⟨s', ran', distinct⟩ := nodeNames_distinct loaded free 16
  cases ran.symm.trans ran'
  exact ⟨l, s, loaded, free, ran, of_decide_eq_true names, distinct⟩

end PointsTo
