import Mathlib.Data.List.Basic
import PointsTo.Proofs.Graph.Assembly

namespace PointsTo

/-- The decimal numerals: a zero comes first only where it stands alone. -/
structure IsNumeral (text : String) : Prop where
  nonempty : text ≠ ""
  digits : ∀ c ∈ text.toList, c.isDigit = true
  leading : text.toList.head? = some '0' → text = "0"

instance (text : String) : Decidable (IsNumeral text) :=
  decidable_of_iff (text ≠ "" ∧ text.toList.all Char.isDigit ∧ (text.toList.head? = some '0' → text = "0"))
    ⟨fun ⟨nonempty, digits, leading⟩ => ⟨nonempty, List.all_eq_true.mp digits, leading⟩,
      fun ⟨nonempty, digits, leading⟩ => ⟨nonempty, List.all_eq_true.mpr digits, leading⟩⟩

theorem eq_zero_of_head?_toDigits {n : Nat} (leading : (Nat.toDigits 10 n).head? = some '0') : n = 0 := by
  induction n using Nat.strongRecOn with
  | ind n ih =>
    by_cases small : n < 10
    · rw [Nat.toDigits_of_lt_base small] at leading
      exact Nat.digitChar_eq_zero.mp (Option.some.inj leading)
    · rw [Nat.toDigits_of_base_le (by decide) (Nat.not_lt.mp small), List.head?_append_of_ne_nil _ Nat.toDigits_ne_nil]
        at leading
      have quotient := ih (n / 10) (by omega) leading
      omega

theorem isNumeral_toString (n : Nat) : IsNumeral (toString n) where
  nonempty := Nat.repr_ne_empty
  digits c member := by
    rw [Nat.toString_eq_repr, Nat.toList_repr] at member
    exact Nat.isDigit_of_mem_toDigits (by decide) (by decide) member
  leading leading := by
    rw [Nat.toString_eq_repr, Nat.toList_repr] at leading
    rw [eq_zero_of_head?_toDigits leading]
    rfl

theorem not_mem_toList_toString (n : Nat) : '.' ∉ (toString n).toList :=
  fun member => absurd ((isNumeral_toString n).digits '.' member) (by decide)

theorem toString_injective {j k : Nat} (same : (toString j).toList = (toString k).toList) : j = k := by
  rw [Nat.toString_eq_repr, Nat.toString_eq_repr, Nat.toList_repr, Nat.toList_repr] at same
  rw [← Nat.ofDigitChars_ten_toDigits (n := j), same, Nat.ofDigitChars_ten_toDigits]

theorem eq_nil_of_cons_eq_append {α : Type} {a : α} {xs ys zs : List α} (absent : a ∉ xs)
    (cut : a :: xs = zs ++ a :: ys) : zs = [] := by
  cases zs with
  | nil => rfl
  | cons z zs =>
    obtain ⟨_, rest⟩ := List.cons.inj cut
    exact absurd (rest ▸ List.mem_append_right zs List.mem_cons_self) absent

/-- A list can be cut in one way only at an element that does not come again. -/
theorem append_cons_inj {α : Type} {a : α} {us vs xs ys : List α} (absentX : a ∉ xs) (absentY : a ∉ ys)
    (same : us ++ a :: xs = vs ++ a :: ys) : us = vs ∧ xs = ys := by
  rcases List.append_eq_append_iff.mp same with ⟨zs, rfl, cut⟩ | ⟨zs, rfl, cut⟩
  · cases eq_nil_of_cons_eq_append absentX cut
    exact ⟨(List.append_nil us).symm, (List.cons.inj cut).2⟩
  · cases eq_nil_of_cons_eq_append absentY cut
    exact ⟨List.append_nil vs, (List.cons.inj cut).2.symm⟩

theorem fieldName_injective {a b : String} {j k : Nat} (same : fieldName a j = fieldName b k) : a = b ∧ j = k := by
  have texts (base : String) (offset : Nat) :
      (fieldName base offset).toList = base.toList ++ '.' :: (toString offset).toList := by
    simp [fieldName]
  have lists := congrArg String.toList same
  rw [texts, texts] at lists
  -- The bases may have points of their own, but there is none in an offset.
  obtain ⟨bases, offsets⟩ := append_cons_inj (not_mem_toList_toString j) (not_mem_toList_toString k) lists
  exact ⟨String.toList_inj.mp bases, toString_injective offsets⟩

namespace Graph

/-- Every field has the name that its base object and its offset give it. -/
def FieldsNamed (g : Graph) : Prop :=
  ∀ (n : NodeId) name (base : NodeId) k, g.nodes[n]? = some ⟨name, .field base k⟩ →
    ∃ object, g.nodes[base]? = some object ∧ name = fieldName object.name k

theorem FieldsNamed.of_nodes_eq {g h : Graph} (named : g.FieldsNamed) (nodes : h.nodes = g.nodes) :
    h.FieldsNamed := by
  unfold FieldsNamed
  rw [nodes]
  exact named

theorem FieldsNamed.push {g h : Graph} (named : g.FieldsNamed) {node : Node} (nodes : h.nodes = g.nodes.push node)
    (new : ∀ name base k, node = ⟨name, .field base k⟩ →
      ∃ object, g.nodes[base]? = some object ∧ name = fieldName object.name k) : h.FieldsNamed := by
  intro n name base k atN
  have before : ∃ object, g.nodes[base]? = some object ∧ name = fieldName object.name k := by
    rw [nodes, Array.getElem?_push] at atN
    split at atN
    · exact new name base k (Option.some.inj atN)
    · exact named n name base k atN
  obtain ⟨object, atBase, same⟩ := before
  obtain ⟨bound, _⟩ := Array.getElem?_eq_some_iff.mp atBase
  refine ⟨object, ?_, same⟩
  rw [nodes, Array.getElem?_push, if_neg (Nat.ne_of_lt bound)]
  exact atBase

theorem FieldsNamed.addNode {g : Graph} (named : g.FieldsNamed) (node : Node)
    (other : ∀ base k, node.kind ≠ .field base k) : (g.addNode node).1.FieldsNamed :=
  named.push rfl fun _ base k same => absurd (congrArg Node.kind same) (other base k)

theorem FieldsNamed.addFunction {g : Graph} (named : g.FieldsNamed) (name : String) :
    (g.addFunction name).1.FieldsNamed :=
  named.push rfl fun _ _ _ same => by cases same

theorem FieldsNamed.addField {g : Graph} (named : g.FieldsNamed) {base : NodeId}
    (object : g.kind? base = some .object) (k : Nat) : (g.addField base k).1.FieldsNamed := by
  refine named.push rfl ?_
  intro name base' k' same
  obtain ⟨node, atBase, _⟩ := Option.map_eq_some_iff.mp object
  rw [atBase] at same
  cases same
  exact ⟨node, atBase, rfl⟩

theorem Built.fieldsNamed {g : Graph} (built : g.Built) : g.FieldsNamed := by
  induction built with
  | empty =>
    intro n name base k atN
    simp [Graph.empty] at atN
  | value name _ ih => exact ih.addNode _ (by simp)
  | object name _ ih => exact ih.addNode _ (by simp)
  | array name _ ih => exact ih.addNode _ (by simp)
  | function name _ ih => exact ih.addFunction name
  | @edge g h edge e _ added ih =>
    obtain ⟨_, _, inserted⟩ := addEdge_eq_ok_iff.mp added
    have nodes := nodes_insertEdge g edge
    rw [inserted] at nodes
    exact ih.of_nodes_eq nodes
  | field built found ih =>
    rcases built.wellFormed.field_cases found with rfl | ⟨base, offset, rfl, object, _⟩
    · exact ih
    · exact ih.addField object offset
  | fieldLimit limit _ ih => exact ih.of_nodes_eq rfl
  | callSite label caller _ ih => exact ih.of_nodes_eq rfl
  | indirectCall site pointer _ ih => exact ih.of_nodes_eq rfl

end Graph

end PointsTo
