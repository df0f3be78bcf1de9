import Mathlib.Algebra.Ring.Nat
import PointsTo.Proofs.Graph.Growth

namespace PointsTo.Graph

/-- An access finds the node that stands for the part, in a graph that has grown at most by this node. -/
theorem WellFormed.field_total {g : Graph} (wf : g.WellFormed) {n : NodeId} (bound : n < g.nodes.size) (k : Nat) :
    ∃ h m, g.field n k = .ok (h, m) ∧ g.Grown h ∧ m < h.nodes.size ∧ h.location m = g.part (g.location n) k := by
  obtain ⟨found, located, outcome⟩ := wf.locate_cases bound k
  rw [Graph.field, located]
  rcases outcome with ⟨m, inside, unchanged, here⟩ | ⟨base, offset, rfl, object, below, _, part⟩
  · exact ⟨g, m, congrArg Except.ok unchanged, .refl g, inside, here⟩
  · have created : (g.addField base offset).1.kind? g.nodes.size = some (.field base offset) := by
      rw [kind?_push (g := g) (h := (g.addField base offset).1) rfl, if_pos rfl]
    exact ⟨_, _, rfl, .addField object below, lt_of_kind? created, (location_of_field created).trans part.symm⟩

theorem lt_of_field {g h : Graph} {n m : NodeId} {k : Nat} (found : g.field n k = .ok (h, m)) : n < g.nodes.size := by
  obtain ⟨access, located, _⟩ := field_eq_ok found
  exact lt_of_locate located

section kinds
variable {g : Graph} (wf : g.WellFormed) {n : NodeId} (k : Nat)

theorem field_unknown (unknown : g.kind? n = none) : g.field n k = .error (.unknownNode n) := by
  have absent : g.nodes[n]? = none := Option.map_eq_none_iff.mp unknown
  rw [Graph.field, locate, node, absent]
  rfl

include wf

theorem WellFormed.field_object (object : g.kind? n = some .object) :
    g.field n k = .ok (if g.fieldLimit ≤ k then (g, n) else (g.fieldAt? n k).elim (g.addField n k) (g, ·)) := by
  have here : g.location n = .node n := location_of_not_field (by simp [object])
  rw [Graph.field, wf.locate_eq (lt_of_kind? object), here]
  dsimp only [Location.access]
  rw [if_pos object, fieldAt?]
  by_cases beyond : g.fieldLimit ≤ k
  · rw [if_pos beyond, if_pos beyond]
    rfl
  · rw [if_neg beyond, if_neg beyond]
    cases g.fields[(n, k)]? <;> rfl

/-- A field goes on to its base object, with the offsets summed. -/
theorem WellFormed.field_of_field {base : NodeId} {j : Nat} (field : g.kind? n = some (.field base j)) :
    g.field n k = g.field base (addOffsets j k) := by
  have object := wf.bases n base j field
  have atBase : g.location base = .node base := location_of_not_field (by simp [object])
  rw [Graph.field, Graph.field, wf.locate_eq (lt_of_kind? field), wf.locate_eq (lt_of_kind? object),
    location_of_field field, atBase]
  rfl

theorem WellFormed.field_whole {kind : NodeKind} (known : g.kind? n = some kind) (object : kind ≠ .object)
    (field : ∀ base j, kind ≠ .field base j) : g.field n k = .ok (g, n) := by
  have here : g.location n = .node n :=
    location_of_not_field fun base j same => field base j (Option.some.inj (known.symm.trans same))
  rw [Graph.field, wf.locate_eq (lt_of_kind? known), here]
  simp only [Location.access, known, Option.some.injEq, object, if_false]
  rfl

end kinds

/-- The access by recursion, as far as `depth` goes: at a field it goes on at the base, with the offsets summed by
`plus`. -/
def fieldWithin (plus : Nat → Nat → Nat) (g : Graph) (depth : Nat) (n : NodeId) (k : Nat) :
    Option (Except Fault (Graph × NodeId)) :=
  match g.kind? n, depth with
  | none, _ => some (.error (.unknownNode n))
  | some .object, _ =>
    some (.ok (if g.fieldLimit ≤ k then (g, n) else (g.fieldAt? n k).elim (g.addField n k) (g, ·)))
  | some (.field base j), depth + 1 => fieldWithin plus g depth base (plus j k)
  | some (.field _ _), 0 => none
  | some _, _ => some (.ok (g, n))

theorem WellFormed.fieldWithin_object {g : Graph} (wf : g.WellFormed) (plus : Nat → Nat → Nat) (depth : Nat)
    {n : NodeId} (object : g.kind? n = some .object) (k : Nat) : g.fieldWithin plus depth n k = some (g.field n k) := by
  rw [wf.field_object k object, fieldWithin.eq_def, object]

/-- The base of a field is an object, so that one recursion is enough. A sum other than the one that stops at the
largest machine word makes no difference if both are beyond the limit. -/
theorem WellFormed.fieldWithin_eq {g : Graph} (wf : g.WellFormed) {plus : Nat → Nat → Nat}
    (sums : ∀ j k, plus j k = addOffsets j k ∨ g.fieldLimit ≤ plus j k ∧ g.fieldLimit ≤ addOffsets j k)
    (depth : Nat) (n : NodeId) (k : Nat) : g.fieldWithin plus (depth + 1) n k = some (g.field n k) := by
  cases known : g.kind? n with
  | none => rw [field_unknown k known, fieldWithin.eq_def, known]
  | some kind =>
    cases kind with
    | object => exact wf.fieldWithin_object plus _ known k
    | field base j =>
      have object := wf.bases n base j known
      have recursion : g.fieldWithin plus (depth + 1) n k = g.fieldWithin plus depth base (plus j k) := by
        rw [fieldWithin.eq_def, known]
      rw [recursion, wf.fieldWithin_object plus depth object, wf.field_of_field k known]
      rcases sums j k with same | ⟨beyond, beyondWord⟩
      · rw [same]
      · rw [wf.field_object _ object, wf.field_object _ object, if_pos beyond, if_pos beyondWord]
    | value => rw [wf.field_whole k known (by simp) (by simp), fieldWithin.eq_def, known]
    | array => rw [wf.field_whole k known (by simp) (by simp), fieldWithin.eq_def, known]
    | function f => rw [wf.field_whole k known (by simp) (by simp), fieldWithin.eq_def, known]

/-- An access that has been made, and the node that it found. -/
structure Passage where
  source : NodeId
  offset : Nat
  target : NodeId

/-- The passages have been made one after the other, from the first graph to the second. -/
inductive Passages : Graph → List Passage → Graph → Prop
  | none {g} : Passages g [] g
  | next {g h t n k m rest} : g.field n k = .ok (h, m) → Passages h rest t → Passages g (⟨n, k, m⟩ :: rest) t

/-- The passages lead from a node along some offsets to another. It does not matter in which order they were made. -/
def Leads (made : List Passage) : NodeId → List Nat → NodeId → Prop
  | n, [], x => n = x
  | n, k :: ks, x => ∃ m, ⟨n, k, m⟩ ∈ made ∧ Leads made m ks x

theorem Passages.grown {g h : Graph} {made : List Passage} (run : Passages g made h) (wf : g.WellFormed) :
    h.WellFormed ∧ g.Grown h := by
  induction run with
  | none => exact ⟨wf, .refl _⟩
  | next found _ ih =>
    obtain ⟨wfEnd, grown⟩ := ih (wf.field found)
    obtain ⟨_, _, found', first, _⟩ := wf.field_total (lt_of_field found) _
    cases found'.symm.trans found
    exact ⟨wfEnd, first.trans grown⟩

/-- At the end, every passage that was made leads to the part that it was about. -/
theorem Passages.location {g h : Graph} {made : List Passage} (run : Passages g made h) (wf : g.WellFormed)
    {n m : NodeId} {k : Nat} (member : ⟨n, k, m⟩ ∈ made) : h.location m = h.part (h.location n) k := by
  induction run with
  | none => cases member
  | @next g h t n' k' m' rest found later ih =>
    have wfNext := wf.field found
    rcases List.mem_cons.mp member with same | earlier
    · cases same
      obtain ⟨_, grown⟩ := later.grown wfNext
      obtain ⟨_, _, found', first, inside, here⟩ := wf.field_total (lt_of_field found) k
      cases found'.symm.trans found
      rw [grown.location_eq inside, here, (first.trans grown).location_eq (lt_of_field found),
        (first.trans grown).part_eq]
    · exact ih wfNext earlier

theorem Passages.location_of_leads {g h : Graph} {made : List Passage} (run : Passages g made h) (wf : g.WellFormed)
    {ks : List Nat} {n x : NodeId} (leads : Leads made n ks x) : h.location x = ks.foldl h.part (h.location n) := by
  induction ks generalizing n with
  | nil => exact congrArg h.location leads.symm
  | cons k ks ih =>
    obtain ⟨m, member, rest⟩ := leads
    rw [List.foldl_cons, ← run.location wf member]
    exact ih rest

/-- The location is the object `o` itself, with offset 0, or its field at `k`. -/
def Lies (g : Graph) (p : Location) (o : NodeId) (k : Nat) : Prop :=
  g.kind? o = some .object ∧ (p = .node o ∧ k = 0 ∨ p = .field o k)

section parts
variable {g : Graph} {p : Location} {o : NodeId} {k : Nat} (word : g.fieldLimit < wordLimit) (lies : g.Lies p o k)

include word lies

theorem Lies.part (a : Nat) : g.part p a = if k + a < g.fieldLimit then .field o (k + a) else .node o := by
  obtain ⟨object, ⟨rfl, rfl⟩ | rfl⟩ := lies
  · simp [Graph.part, Location.access, object]
  · simp only [Graph.part, Location.access, object, true_and, addOffsets]
    by_cases below : k + a < g.fieldLimit
    · rw [Nat.min_eq_left (by omega), if_pos below]
    · rw [if_neg (by omega), if_neg below]

theorem Lies.part_lies (a : Nat) : g.Lies (g.part p a) o (if k + a < g.fieldLimit then k + a else 0) := by
  refine ⟨lies.1, ?_⟩
  rw [lies.part word]
  split
  · exact Or.inr rfl
  · exact Or.inl ⟨rfl, rfl⟩

theorem Lies.part_part_eq_iff (a b : Nat) :
    g.part (g.part p a) b = g.part p (a + b) ↔ k + a < g.fieldLimit ∨ g.fieldLimit ≤ b := by
  rw [(lies.part_lies word a).part word, lies.part word]
  by_cases below : k + a < g.fieldLimit
  · simp [below, Nat.add_assoc]
  · have beyond : ¬ k + (a + b) < g.fieldLimit := by omega
    rw [if_neg below, if_neg beyond, Nat.zero_add]
    by_cases small : b < g.fieldLimit
    · simp [small, below, Nat.not_le.mpr small]
    · simp [small, Nat.not_lt.mp small]

theorem Lies.foldl_part {ks : List Nat} (some : ks ≠ []) (below : k + ks.sum < g.fieldLimit) :
    ks.foldl g.part p = .field o (k + ks.sum) := by
  induction ks generalizing p k with
  | nil => exact absurd rfl some
  | cons a ks ih =>
    rw [List.sum_cons] at below ⊢
    have first := lies.part word a
    rw [if_pos (by omega)] at first
    rw [List.foldl_cons, first]
    by_cases last : ks = []
    · subst last
      rfl
    · rw [ih ⟨lies.1, Or.inr rfl⟩ last (by omega), Nat.add_assoc]

end parts

/-- The node is the object `o` itself, at offset 0, or its field at `k`. -/
def PlacedAt (g : Graph) (n o : NodeId) (k : Nat) : Prop :=
  g.kind? n = some .object ∧ n = o ∧ k = 0 ∨ g.kind? n = some (.field o k)

theorem PlacedAt.lies {g h : Graph} (grown : g.Grown h) (wf : g.WellFormed) {n o : NodeId} {k : Nat}
    (placed : g.PlacedAt n o k) : h.Lies (h.location n) o k := by
  rcases placed with ⟨object, rfl, rfl⟩ | field
  · have objectH := grown.kind? object
    exact ⟨objectH, Or.inl ⟨location_of_not_field (by simp [objectH]), rfl⟩⟩
  · exact ⟨grown.kind? (wf.bases n o k field), Or.inr (location_of_field (grown.kind? field))⟩

/-- What the passages that were made on the way from `g` to `h` lead to from the node `n`. -/
structure FieldPaths (g h : Graph) (made : List Passage) (n : NodeId) : Prop where
  /-- A node whose fields are not told apart is its own field. -/
  whole : g.kind? n = some .value ∨ g.kind? n = some .array ∨ (∃ f, g.kind? n = some (.function f)) →
    ∀ ks x, Leads made n ks x → x = n
  /-- Two offsets lead where their sum leads, unless the first goes beyond the limit and the second does not. -/
  agree : ∀ o k, g.PlacedAt n o k → ∀ a b x y, Leads made n [a, b] x → Leads made n [a + b] y →
    (x = y ↔ k + a < g.fieldLimit ∨ g.fieldLimit ≤ b)
  /-- Below the limit all offsets with one sum lead to one field. -/
  below : ∀ o k, g.PlacedAt n o k → ∀ ks x, ks ≠ [] → Leads made n ks x → k + ks.sum < g.fieldLimit →
    ∀ z, h.kind? z = some (.field o (k + ks.sum)) ↔ z = x

section paths
variable {g h : Graph} {made : List Passage} (run : Passages g made h) (wf : g.WellFormed)

include run wf

theorem Passages.eq_of_leads {n : NodeId} {kind : NodeKind} (known : g.kind? n = some kind) (object : kind ≠ .object)
    (field : ∀ base j, kind ≠ .field base j) {ks : List Nat} {x : NodeId} (leads : Leads made n ks x) : x = n := by
  obtain ⟨wfEnd, grown⟩ := run.grown wf
  have knownH := grown.kind? known
  have here : h.location n = .node n :=
    location_of_not_field fun base j same => field base j (Option.some.inj (knownH.symm.trans same))
  have stays (k : Nat) : h.part (.node n) k = .node n := by
    simp [part, Location.access, knownH, object]
  have unmoved : ks.foldl h.part (.node n) = .node n := by
    clear leads
    induction ks with
    | nil => rfl
    | cons k ks ih => rw [List.foldl_cons, stays, ih]
  apply wfEnd.location_injective
  rw [run.location_of_leads wf leads, here, unmoved]

theorem Passages.fieldPaths (word : g.fieldLimit < wordLimit) (n : NodeId) : FieldPaths g h made n := by
  obtain ⟨wfEnd, grown⟩ := run.grown wf
  have wordEnd : h.fieldLimit < wordLimit := by rw [grown.fieldLimit]; exact word
  constructor
  · rintro (value | array | ⟨f, function⟩) ks x leads
    · exact run.eq_of_leads wf value (by simp) (by simp) leads
    · exact run.eq_of_leads wf array (by simp) (by simp) leads
    · exact run.eq_of_leads wf function (by simp) (by simp) leads
  · intro o k placed a b x y split joined
    have atX := run.location_of_leads wf split
    have atY := run.location_of_leads wf joined
    rw [← wfEnd.location_injective.eq_iff, atX, atY, ← grown.fieldLimit]
    exact (placed.lies grown wf).part_part_eq_iff wordEnd a b
  · intro o k placed ks x some leads small z
    rw [← grown.fieldLimit] at small
    have atX := run.location_of_leads wf leads
    rw [(placed.lies grown wf).foldl_part wordEnd some small] at atX
    rw [← wfEnd.location_injective.eq_iff, atX]
    exact ⟨location_of_field, kind?_of_location⟩

end paths

/-- Unbounded sums are as good as those that stop at the largest machine word. -/
theorem addOffsets_cases {limit : Nat} (word : limit < wordLimit) (j k : Nat) :
    j + k = addOffsets j k ∨ limit ≤ j + k ∧ limit ≤ addOffsets j k := by
  unfold addOffsets
  omega

/-- Whatever accesses are made one after the other, and in whatever order, the paths among them obey the laws of field
paths, no node is changed, and every further access finds a node. An access recurses at most once, and would find the
same node with unbounded sums. -/
theorem fieldPaths_independent {g h : Graph} (built : g.Built) (word : g.fieldLimit < wordLimit) {made : List Passage}
    (run : Passages g made h) :
    (∀ n, FieldPaths g h made n) ∧ (∀ (i : NodeId) node, g.nodes[i]? = some node → h.nodes[i]? = some node) ∧
      (∀ n < h.nodes.size, ∀ k, ∃ t m, h.field n k = .ok (t, m) ∧ m < t.nodes.size) ∧
      ∀ depth n k, g.fieldWithin addOffsets (depth + 1) n k = some (g.field n k) ∧
        g.fieldWithin (· + ·) (depth + 1) n k = some (g.field n k) := by
  have wf := built.wellFormed
  obtain ⟨wfEnd, grown⟩ := run.grown wf
  refine ⟨run.fieldPaths wf word, grown.nodes, fun n bound k => ?_, fun depth n k => ⟨?_, ?_⟩⟩
  · obtain ⟨t, m, found, _, inside, _⟩ := wfEnd.field_total bound k
    exact ⟨t, m, found, inside⟩
  · exact wf.fieldWithin_eq (fun _ _ => Or.inl rfl) depth n k
  · exact wf.fieldWithin_eq (addOffsets_cases word) depth n k

/-- An object with four fields at most. -/
def fourFields : Graph := { (Graph.empty.addObject "o").1 with fieldLimit := 4 }

theorem built_fourFields : fourFields.Built := .fieldLimit 4 (.object "o" .empty)

/-- Offsets 1 and 2 around their sum, and then offsets 5 and 2 and their sum. -/
def acrossTheLimit : List Passage := [⟨0, 1, 1⟩, ⟨0, 3, 2⟩, ⟨1, 2, 2⟩, ⟨0, 5, 0⟩, ⟨0, 2, 3⟩, ⟨0, 7, 0⟩]

theorem fieldPaths_independent_fourFields : ∃ h, Passages fourFields acrossTheLimit h ∧
    fourFields.fieldLimit < wordLimit ∧ FieldPaths fourFields h acrossTheLimit 0 ∧
    (∀ z, h.kind? z = some (.field 0 3) ↔ z = 2) ∧ (∃ t m, h.field 2 9 = .ok (t, m) ∧ m < t.nodes.size) ∧
    fourFields.fieldWithin (· + ·) 1 0 2 = some (fourFields.field 0 2) ∧
    Leads acrossTheLimit 0 [5, 2] 3 ∧ Leads acrossTheLimit 0 [7] 0 ∧ ¬ (0 + 5 < fourFields.fieldLimit ∨ 4 ≤ 2) := by
  have run : Passages fourFields acrossTheLimit _ :=
    .next rfl (.next rfl (.next rfl (.next rfl (.next rfl (.next rfl .none)))))
  obtain ⟨laws, _, total, shallow⟩ := fieldPaths_independent built_fourFields (by decide) run
  have both : Leads acrossTheLimit 0 [1, 2] 2 := ⟨1, by simp [acrossTheLimit], 2, by simp [acrossTheLimit], rfl⟩
  have below := (laws 0).below 0 0 (Or.inl ⟨rfl, rfl, rfl⟩) [1, 2] 2 (by simp) both (by decide)
  exact ⟨_, run, by decide, laws 0, below, total 2 (by decide) 9, (shallow 0 0 2).2,
    ⟨0, by simp [acrossTheLimit], 3, by simp [acrossTheLimit], rfl⟩, ⟨0, by simp [acrossTheLimit], rfl⟩, by decide⟩

end PointsTo.Graph
