import PointsTo.Proofs.Graph.Tables

namespace PointsTo

inductive Location
  | node (n : NodeId)
  | field (base : NodeId) (offset : Nat)
deriving DecidableEq, Repr

/-- The base and offset that an access to offset `k` of a location is about. -/
def Location.access : Location → Nat → NodeId × Nat
  | node n, k => (n, k)
  | field base j, k => (base, addOffsets j k)

namespace Graph

/-- The location that a node stands for. -/
def location (g : Graph) (n : NodeId) : Location :=
  match g.kind? n with
  | some (.field base offset) => .field base offset
  | _ => .node n

/-- The part of a location at offset `k`: a field of the base object below the limit, and the base itself at or
beyond the limit or if its fields are not told apart. -/
def part (g : Graph) (p : Location) (k : Nat) : Location :=
  let (base, offset) := p.access k
  if g.kind? base = some .object ∧ offset < g.fieldLimit then .field base offset else .node base

theorem location_of_field {g : Graph} {n base : NodeId} {offset : Nat}
    (known : g.kind? n = some (.field base offset)) : g.location n = .field base offset := by
  rw [location, known]

theorem location_of_not_field {g : Graph} {n : NodeId}
    (other : ∀ base offset, g.kind? n ≠ some (.field base offset)) : g.location n = .node n := by
  unfold location
  split
  · rename_i base offset known
    exact absurd known (other base offset)
  · rfl

theorem location_cases (g : Graph) (n : NodeId) :
    (∃ base offset, g.kind? n = some (.field base offset) ∧ g.location n = .field base offset) ∨
      (∀ base offset, g.kind? n ≠ some (.field base offset)) ∧ g.location n = .node n := by
  by_cases field : ∃ base offset, g.kind? n = some (.field base offset)
  · obtain ⟨base, offset, known⟩ := field
    exact Or.inl ⟨base, offset, known, location_of_field known⟩
  · have other : ∀ base offset, g.kind? n ≠ some (.field base offset) :=
      fun base offset known => field ⟨base, offset, known⟩
    exact Or.inr ⟨other, location_of_not_field other⟩

theorem kind?_of_location {g : Graph} {n base : NodeId} {offset : Nat}
    (here : g.location n = .field base offset) : g.kind? n = some (.field base offset) := by
  rcases g.location_cases n with ⟨base', offset', known, same⟩ | ⟨_, same⟩
  · rw [here] at same
    cases same
    exact known
  · rw [here] at same
    cases same

/-- No two nodes stand for the same location. -/
theorem WellFormed.location_injective {g : Graph} (wf : g.WellFormed) : Function.Injective g.location := by
  intro n m same
  rcases g.location_cases n with ⟨base, offset, known, here⟩ | ⟨_, here⟩
  · have other := kind?_of_location (same.symm.trans here)
    have first := (wf.fields base offset n).mpr known
    have second := (wf.fields base offset m).mpr other
    exact Option.some.inj (first.symm.trans second)
  · rcases g.location_cases m with ⟨base, offset, _, there⟩ | ⟨_, there⟩
    · rw [here, there] at same
      cases same
    · rw [here, there] at same
      exact Location.node.inj same

/-- An access is about a node that is there and is not itself a field. -/
theorem WellFormed.access_base {g : Graph} (wf : g.WellFormed) {n : NodeId} (bound : n < g.nodes.size) (k : Nat) :
    ∃ kind, g.kind? ((g.location n).access k).1 = some kind ∧ ∀ base offset, kind ≠ .field base offset := by
  rcases g.location_cases n with ⟨base, offset, known, here⟩ | ⟨other, here⟩
  · rw [here]
    exact ⟨.object, wf.bases n base offset known, by simp⟩
  · rw [here]
    have known : g.kind? n = some (g.nodes[n]).kind := by simp [kind?, bound]
    exact ⟨_, known, fun base offset same => other base offset (same ▸ known)⟩

theorem accessPath_eq {g : Graph} {n : NodeId} {node : Node} (atNode : g.nodes[n]? = some node) (k : Nat) :
    accessPath n node.kind k = (g.location n).access k := by
  have known : g.kind? n = some node.kind := by rw [kind?, atNode]; rfl
  unfold accessPath
  split
  · rename_i base j field
    rw [location_of_field (known.trans (congrArg some field)), Location.access]
  · rename_i other
    have plain : ∀ base offset, g.kind? n ≠ some (.field base offset) :=
      fun base offset field => other base offset (Option.some.inj (known.symm.trans field))
    rw [location_of_not_field plain, Location.access]

theorem WellFormed.locate_eq {g : Graph} (wf : g.WellFormed) {n : NodeId} (bound : n < g.nodes.size) (k : Nat) :
    g.locate n k = .ok (
      let (base, offset) := (g.location n).access k
      if g.kind? base = some .object then
        if g.fieldLimit ≤ offset then .beyondLimit base offset
        else
          match g.fields[(base, offset)]? with
          | some field => .existing field
          | none => .missing base offset
      else .whole base) := by
  obtain ⟨kind, known, _⟩ := wf.access_base bound k
  have atNode : g.nodes[n]? = some g.nodes[n] := by simp [bound]
  have path := accessPath_eq atNode k
  obtain ⟨target, atTarget, sameKind⟩ := Option.map_eq_some_iff.mp known
  subst sameKind
  simp only [locate, node, atNode, path, bind, Except.bind, atTarget, known, pure, Except.pure]
  split
  · rename_i object
    rw [if_pos (congrArg some object)]
    split
    · rfl
    · cases g.fields[(((g.location n).access k).1, ((g.location n).access k).2)]? <;> rfl
  · rename_i other
    rw [if_neg (fun object => other (Option.some.inj object))]

/-- An access ends at a node that stands for the part, in a graph that has the node already or that gets it as a
new field of an object below the limit. -/
theorem WellFormed.locate_cases {g : Graph} (wf : g.WellFormed) {n : NodeId} (bound : n < g.nodes.size) (k : Nat) :
    ∃ found, g.locate n k = .ok found ∧
      ((∃ m < g.nodes.size, g.access found = (g, m) ∧ g.location m = g.part (g.location n) k) ∨
        ∃ base offset, found = .missing base offset ∧ g.kind? base = some .object ∧
          offset < g.fieldLimit ∧ g.fields[(base, offset)]? = none ∧
          g.part (g.location n) k = .field base offset) := by
  obtain ⟨kind, known, plain⟩ := wf.access_base bound k
  refine ⟨_, wf.locate_eq bound k, ?_⟩
  unfold part
  generalize (g.location n).access k = path at known
  obtain ⟨base, offset⟩ := path
  have inside := lt_of_kind? known
  have here : g.location base = .node base :=
    location_of_not_field fun _ _ field => plain _ _ (Option.some.inj (known.symm.trans field))
  by_cases object : g.kind? base = some .object
  · by_cases beyond : g.fieldLimit ≤ offset
    · exact Or.inl ⟨base, inside, by simp [object, beyond, access],
        by simp [here, Nat.not_lt.mpr beyond]⟩
    · have below := Nat.not_le.mp beyond
      cases entry : g.fields[(base, offset)]? with
      | some field =>
        have fieldKind := (wf.fields base offset field).mp entry
        exact Or.inl ⟨field, lt_of_kind? fieldKind, by simp [object, beyond, entry, access],
          by simp [location_of_field fieldKind, object, below]⟩
      | none =>
        exact Or.inr ⟨base, offset, by simp [object, beyond, entry], object, below, entry, by simp [object, below]⟩
  · exact Or.inl ⟨base, inside, by simp [object, access], by simp [here, object]⟩

end Graph

end PointsTo
