import PointsTo.Proofs.Program.Loading
import PointsTo.Proofs.Solver.Transport

namespace PointsTo

/-- The location with the offsets from a limit on merged into their object. -/
def Location.merged (limit : Nat) : Location → Location
  | node n => .node n
  | field base offset => if offset < limit then .field base offset else .node base

/-- The constraint takes an access with an offset below the limit inside a field at or beyond it. -/
def Location.restarts (limit : Nat) : Location → EdgeKind → Bool
  | field _ offset, .gep (.constant k) => k < limit && limit ≤ offset
  | _, _ => false

theorem le_addOffsets {limit j : Nat} (word : limit < wordLimit) (beyond : limit ≤ j) (k : Nat) :
    limit ≤ addOffsets j k := by
  unfold addOffsets
  omega

namespace Graph

/-- An access to a base and an offset with the higher limit, merged, ends where it does with the lower limit. -/
theorem merged_ite {low high : Nat} (lower : low ≤ high) (object : Prop) [Decidable object] (base : NodeId)
    (offset : Nat) :
    (if object ∧ offset < high then Location.field base offset else .node base).merged low =
      if object ∧ offset < low then .field base offset else .node base := by
  by_cases below : offset < low
  · have belowHigh : offset < high := Nat.lt_of_lt_of_le below lower
    by_cases known : object <;> simp [known, below, belowHigh, Location.merged]
  · split <;> simp [below, Location.merged]

/-- Merging commutes with an access that does not start anew inside a merged field. -/
theorem part_merged (g : Graph) {low high : Nat} (word : low < wordLimit) (lower : low ≤ high) {p : Location} {k : Nat}
    (goesOn : ¬ p.restarts low (.gep (.constant k))) :
    { g with fieldLimit := low }.part (p.merged low) k = ({ g with fieldLimit := high }.part p k).merged low := by
  have same (q : Location) :
      { g with fieldLimit := low }.part q k = ({ g with fieldLimit := high }.part q k).merged low :=
    (merged_ite lower ..).symm
  cases p with
  | node n => exact same (.node n)
  | field base j =>
    by_cases below : j < low
    · rw [Location.merged, if_pos below]
      exact same (.field base j)
    · -- both accesses end at the object, the one because of the sum and the other because of its own offset
      have beyond := Nat.not_lt.mp below
      have beyondSum := le_addOffsets word beyond k
      have beyondK : low ≤ k := by simpa [Location.restarts, beyond] using goesOn
      rw [← same, Location.merged, if_neg below]
      simp [part, Location.access, Nat.not_lt.mpr beyondSum, Nat.not_lt.mpr beyondK]

theorem reached_merged (g : Graph) {low high : Nat} (word : low < wordLimit) (lower : low ≤ high) {p : Location}
    {offset : Offset} (goesOn : ¬ p.restarts low (.gep offset)) :
    { g with fieldLimit := low }.reached offset (p.merged low) =
      ({ g with fieldLimit := high }.reached offset p).merged low := by
  cases offset with
  | constant k => exact g.part_merged word lower goesOn
  | variant => rfl

/-- Merging takes an analysis with the higher limit to one with the lower limit, unless an access starts anew. -/
theorem Plain.transports_merged {g : Graph} (plain : g.Plain) {low high : Nat} (word : low < wordLimit)
    (lower : low ≤ high)
    (goesOn : ∀ edge ∈ g.edges, ∀ o, { g with fieldLimit := high }.Derives (g.location edge.source) o →
      ¬ o.restarts low edge.kind) :
    Transports { g with fieldLimit := high } { g with fieldLimit := low } (.merged low) where
  nodes n := by
    change (g.location n).merged low = g.location n
    rw [plain.location]
    rfl
  edges edge member _ := member
  accesses p x offset o edge fact image := by
    rw [← g.reached_merged word lower (goesOn _ edge o fact)]
    exact .access edge image

end Graph

/-- What is loaded from a description, and what its analysis ends in. -/
def Description.analyzed (d : Description) (limit : Nat) : Option (Loader × Solver) := do
  let l ← d.load.toOption
  let s ← ((Solver.ofGraph l.graph).analyze limit).toOption
  return (l, s)

theorem Description.of_analyzed {d : Description} {limit : Nat} {check : Loader × Solver → Bool}
    (checked : (d.analyzed limit).any check) :
    ∃ l s, d.load = .ok l ∧ (Solver.ofGraph l.graph).analyze limit = .ok s ∧ check (l, s) := by
  cases loaded : d.load with
  | error => simp [analyzed, loaded, Except.toOption] at checked
  | ok l =>
    cases ran : (Solver.ofGraph l.graph).analyze limit with
    | error => simp [analyzed, loaded, ran, Except.toOption] at checked
    | ok s => exact ⟨l, s, rfl, ran, by simpa [analyzed, loaded, ran, Except.toOption] using checked⟩

/-- A pointer into a field of `o` and one further on from there, through which `f` is stored:
`x = &p->first; y = &x->second; *y = q; r = *x; s = *y`. -/
def nestedAccess (first second : Nat) : Description where
  nodes := [⟨"o", .object⟩, ⟨"f", .function⟩, ⟨"p", .value⟩, ⟨"x", .value⟩, ⟨"y", .value⟩, ⟨"q", .value⟩, ⟨"r", .value⟩,
    ⟨"s", .value⟩]
  edges := [⟨.addr, "o", "p", none⟩, ⟨.gep, "p", "x", some first⟩, ⟨.gep, "x", "y", some second⟩,
    ⟨.addr, "f", "q", none⟩, ⟨.store, "q", "y", none⟩, ⟨.load, "x", "r", none⟩, ⟨.load, "y", "s", none⟩]
  directCalls := []
  indirectCalls := [⟨"call", none, "r"⟩]

namespace Solver

/-- No access with an offset below the limit goes on from a field at or beyond it. -/
def NeverRestarts (s : Solver) (limit : Nat) : Prop :=
  ∀ edge ∈ s.graph.edges, ∀ a ∈ s.store.get edge.source, ¬ (s.graph.location a).restarts limit edge.kind

instance (s : Solver) (limit : Nat) : Decidable (s.NeverRestarts limit) :=
  decidable_of_iff (∀ edge ∈ s.graph.edges, ∀ a ∈ (s.store.get edge.source).toList,
    ¬ (s.graph.location a).restarts limit edge.kind) (by simp only [NeverRestarts, PointeeSet.mem_toList])

theorem Analyzed.not_restarts {g : Graph} {low high : Nat} {u : Solver} (done : Analyzed g high u) (built : g.Built)
    (never : u.NeverRestarts low) {edge : Edge} (member : edge ∈ g.edges) {o : Location}
    (derived : { g with fieldLimit := high }.Derives (g.location edge.source) o) : ¬ o.restarts low edge.kind := by
  obtain ⟨a, found, rfl⟩ := done.exists_mem (built.wellFormed.ends edge member).1 derived
  exact never edge (done.mem_edges member) a found

/-- Lowering the field limit of an analysis loses no function that a pointer of the program may call, unless the
analysis with the higher limit takes an access inside a field that the lower limit merges, with an offset that it
does not merge. -/
theorem analyze_lower_limit {d : Description} {l : Loader} (loaded : d.load = .ok l) {low high : Nat}
    (word : low < wordLimit) (lower : low ≤ high) :
    ∃ t u, (ofGraph l.graph).analyze low = .ok t ∧ (ofGraph l.graph).analyze high = .ok u ∧
      (u.NeverRestarts low → ∀ n < l.graph.nodes.size, ∃ ts us, callTargets t.graph t.store n = .ok ts ∧
        callTargets u.graph u.store n = .ok us ∧ us ⊆ ts) := by
  have sound := Description.load_sound loaded
  obtain ⟨t, first⟩ := exists_analyzed sound.built low
  obtain ⟨u, second⟩ := exists_analyzed sound.built high
  refine ⟨t, u, first.run, second.run, ?_⟩
  intro never n bound
  have transports := sound.plain.transports_merged word lower fun edge member o derived =>
    second.not_restarts sound.built never member derived
  obtain ⟨us, ts, foundU, foundT, fewer⟩ := second.targets_subset first transports bound bound fun _ _ => id
  exact ⟨ts, us, foundT, foundU, fewer⟩

theorem analyze_lower_limit_nestedAccess :
    ∃ l t u ts, (nestedAccess 2 2).load = .ok l ∧ (ofGraph l.graph).analyze 1 = .ok t ∧
      (ofGraph l.graph).analyze 8 = .ok u ∧ u.NeverRestarts 1 ∧
      callTargets u.graph u.store 7 = .ok [0] ∧ callTargets t.graph t.store 7 = .ok ts ∧ [0] ⊆ ts := by
  have evaluated : ((nestedAccess 2 2).analyzed 8).any fun r => 7 < r.1.graph.nodes.size ∧ r.2.NeverRestarts 1 ∧
      callTargets r.2.graph r.2.store 7 = .ok [0] := by decide +kernel
  obtain ⟨l, u, loaded, ran, holds⟩ := Description.of_analyzed evaluated
  obtain ⟨bound, never, found⟩ := of_decide_eq_true holds
  obtain ⟨t, u', first, second, targets⟩ :=
    analyze_lower_limit loaded (by decide : 1 < wordLimit) (by decide : 1 ≤ 8)
  cases ran.symm.trans second
  obtain ⟨ts, us, foundT, foundU, fewer⟩ := targets never 7 bound
  cases found.symm.trans foundU
  exact ⟨l, t, u, ts, loaded, first, ran, never, found, foundT, fewer⟩

/-- With a limit of one, `o` stands for its field at offset one, and an access to offset zero of that field is taken
for one to offset zero of `o`. What is stored there is not found in the field. -/
theorem analyze_lower_limit_loses_target :
    ∃ l t u, (nestedAccess 1 0).load = .ok l ∧ (ofGraph l.graph).analyze 1 = .ok t ∧
      (ofGraph l.graph).analyze 2 = .ok u ∧ 6 < l.graph.nodes.size ∧
      callTargets u.graph u.store 6 = .ok [0] ∧ callTargets t.graph t.store 6 = .ok [] := by
  have lower : ((nestedAccess 1 0).analyzed 1).any fun r => 6 < r.1.graph.nodes.size ∧
      callTargets r.2.graph r.2.store 6 = .ok [] := by decide +kernel
  have higher : ((nestedAccess 1 0).analyzed 2).any fun r => callTargets r.2.graph r.2.store 6 = .ok [0] := by
    decide +kernel
  obtain ⟨l, t, loaded, first, holds⟩ := Description.of_analyzed lower
  obtain ⟨bound, foundT⟩ := of_decide_eq_true holds
  obtain ⟨l', u, loaded', second, foundU⟩ := Description.of_analyzed higher
  cases loaded.symm.trans loaded'
  exact ⟨l, t, u, loaded, first, second, bound, of_decide_eq_true foundU, foundT⟩

end Solver

end PointsTo
