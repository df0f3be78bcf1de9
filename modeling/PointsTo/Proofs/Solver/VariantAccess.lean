import PointsTo.Proofs.Graph.Assembly
import PointsTo.Proofs.Solver.Outcome

namespace PointsTo

/-- The offset of the field of an object at which an access ends, and nothing if it ends at the object itself. -/
def Offset.place (limit : Nat) : Offset → Option Nat
  | constant k => if k < limit then some k else none
  | variant => none

theorem Offset.place_constant_eq_none_iff (limit k : Nat) : (constant k).place limit = none ↔ limit ≤ k := by
  simp [place]

def Location.ofPlace (base : NodeId) : Option Nat → Location
  | some offset => .field base offset
  | none => .node base

theorem Location.ofPlace_injective (base : NodeId) : Function.Injective (ofPlace base) := by
  intro first second same
  cases first <;> cases second <;> cases same <;> rfl

namespace Graph

theorem reached_object {g : Graph} {o : NodeId} (object : g.kind? o = some .object) (offset : Offset) :
    g.reached offset (.node o) = .ofPlace o (offset.place g.fieldLimit) := by
  cases offset with
  | constant k =>
    simp only [reached, part, Location.access, object, true_and, Offset.place]
    split <;> rfl
  | variant => rfl

end Graph

namespace Solver

/-- What is stored through an access to an object comes out of a load through another access to it. -/
def Passes (s : Solver) (into out : Offset) : Prop :=
  ∀ p p' x y q r o, ⟨p, x, .gep into⟩ ∈ s.graph.edges → ⟨p', y, .gep out⟩ ∈ s.graph.edges →
    ⟨q, x, .store⟩ ∈ s.graph.edges → ⟨y, r, .load⟩ ∈ s.graph.edges →
    s.graph.kind? o = some .object → o ∈ s.store.get p → o ∈ s.store.get p' →
    ∀ a ∈ s.store.get q, a ∈ s.store.get r

/-- No analysis with the limit finds less in the load than there is in the store. -/
def AlwaysPasses (limit : Nat) (into out : Offset) : Prop :=
  ∀ g : Graph, g.Built → g.Plain → ∃ t, (ofGraph g).analyze limit = .ok t ∧ t.Passes into out

theorem Satisfies.access {s : Solver} {p x : NodeId} {offset : Offset} (satisfied : s.Satisfies ⟨p, x, .gep offset⟩)
    {o : NodeId} (member : o ∈ s.store.get p) :
    ∃ m ∈ s.store.get x, s.graph.location m = s.graph.reached offset (s.graph.location o) := by
  cases offset with
  | constant k =>
    obtain ⟨m, _, place, found⟩ := satisfied o member
    exact ⟨m, found, place⟩
  | variant => exact ⟨o, satisfied o member, rfl⟩

theorem Analyzed.passes {g : Graph} {limit : Nat} {t : Solver} (done : Analyzed g limit t) {into out : Offset}
    (same : into.place limit = out.place limit) : t.Passes into out := by
  intro p p' x y q r o accessX accessY store load object inP inP' a value
  obtain ⟨m, atX, placeX⟩ := (done.satisfied _ accessX).access inP
  obtain ⟨m', atY, placeY⟩ := (done.satisfied _ accessY).access inP'
  have plain : t.graph.location o = .node o := Graph.location_of_not_field (by simp [object])
  rw [plain, Graph.reached_object object, done.grown.fieldLimit] at placeX placeY
  have meet : m = m' := done.stable.graph.location_injective (by rw [placeX, placeY, same])
  subst meet
  exact done.satisfied _ load m atY a (done.satisfied _ store m atX a value)

end Solver

namespace Graph

/-- `x` and `y` are accesses to `o`, and `f` goes in through `x` and out through `y`:
`x = &p->into; y = &p->out; *x = q; r = *y`. -/
def throughFields (into out : Offset) : List Edge :=
  [⟨0, 2, .addr⟩, ⟨2, 3, .gep into⟩, ⟨2, 4, .gep out⟩, ⟨1, 5, .addr⟩, ⟨5, 3, .store⟩, ⟨4, 6, .load⟩]

theorem throughFields_ends (into out : Offset) :
    ∀ edge ∈ throughFields into out, edge.source < 7 ∧ edge.target < 7 := by
  simp [throughFields]

theorem object_callback (edges : List Edge) : (callback edges).kind? 0 = some .object := by
  rw [callback, kind?_of_nodes_eq (nodes_insertEdges ..)]
  rfl

/-- What each location points to if the accesses end at two places of `o`. Nothing comes out through `y`. -/
def apart (into out : Option Nat) : Location → Option Location
  | .node 2 => some (.node 0)
  | .node 3 => some (.ofPlace 0 into)
  | .node 4 => some (.ofPlace 0 out)
  | .node 5 => some (.node 1)
  | n => if n = .ofPlace 0 into then some (.node 1) else none

theorem apart_ofPlace (into out place : Option Nat) :
    apart into out (.ofPlace 0 place) = if place = into then some (.node 1) else none := by
  have same : Location.ofPlace 0 place = .ofPlace 0 into ↔ place = into := (Location.ofPlace_injective 0).eq_iff
  rw [← if_congr same rfl rfl]
  cases place <;> rfl

theorem solves_apart {g : Graph} (plain : g.Plain) (object : g.kind? 0 = some .object) {into out : Offset}
    (edges : ∀ edge ∈ g.edges, edge ∈ throughFields into out)
    (different : into.place g.fieldLimit ≠ out.place g.fieldLimit) :
    g.Solves fun n a => apart (into.place g.fieldLimit) (out.place g.fieldLimit) n = some a := by
  intro edge member
  have listed := edges edge member
  simp only [throughFields, List.mem_cons, List.not_mem_nil, or_false] at listed
  rcases listed with rfl | rfl | rfl | rfl | rfl | rfl
  all_goals simp only [Obeys, plain.location]
  · rfl
  · intro o fact
    cases fact
    rw [reached_object object]
    rfl
  · intro o fact
    cases fact
    rw [reached_object object]
    rfl
  · rfl
  · intro o a first value
    cases first
    cases value
    rw [apart_ofPlace, if_pos rfl]
  · -- the part that is loaded from is not the one that was stored to
    intro o a first value
    cases first
    rw [apart_ofPlace, if_neg different.symm] at value
    cases value

theorem not_derives_throughFields {g : Graph} (plain : g.Plain) (object : g.kind? 0 = some .object) {into out : Offset}
    (edges : ∀ edge ∈ g.edges, edge ∈ throughFields into out)
    (different : into.place g.fieldLimit ≠ out.place g.fieldLimit) (a : Location) : ¬ g.Derives (.node 6) a := by
  intro derived
  have pointee := derived.least (solves_apart plain object edges different)
  have other : Location.node 6 ≠ .ofPlace 0 (into.place g.fieldLimit) := by
    cases into.place g.fieldLimit <;> simp [Location.ofPlace]
  rw [apart, if_neg other] at pointee
  · cases pointee
  all_goals simp

end Graph

namespace Solver

section throughFields
variable {g : Graph} {limit : Nat} {t : Solver} (done : Analyzed g limit t) (built : g.Built) (plain : g.Plain)
  (object : g.kind? 0 = some .object) {into out : Offset}
  (edges : ∀ edge, edge ∈ g.edges ↔ edge ∈ Graph.throughFields into out)
  (different : into.place limit ≠ out.place limit)

include done built plain object edges different

/-- Where the accesses end at two places, `f` goes in through `x` and does not come out through `y`. -/
theorem Analyzed.throughFields : 0 ∈ t.store.get 2 ∧ 1 ∈ t.store.get 5 ∧ 1 ∉ t.store.get 6 := by
  have addressO : ⟨0, 2, .addr⟩ ∈ g.edges := (edges _).mpr (by simp [Graph.throughFields])
  have addressF : ⟨1, 5, .addr⟩ ∈ g.edges := (edges _).mpr (by simp [Graph.throughFields])
  have load : ⟨4, 6, .load⟩ ∈ g.edges := (edges _).mpr (by simp [Graph.throughFields])
  refine ⟨done.satisfied _ (done.mem_edges addressO), done.satisfied _ (done.mem_edges addressF), ?_⟩
  intro found
  have derived := done.mem_get_iff.mp found
  rw [done.location (built.wellFormed.ends _ load).2, plain.location] at derived
  exact Graph.not_derives_throughFields (g := { g with fieldLimit := limit }) plain object
    (fun edge => (edges edge).mp) different _ derived

theorem Analyzed.not_passes : ¬ t.Passes into out := by
  intro passes
  obtain ⟨inP, inQ, notInR⟩ := done.throughFields built plain object edges different
  have given {edge : Edge} (member : edge ∈ Graph.throughFields into out) : edge ∈ t.graph.edges :=
    done.mem_edges ((edges edge).mpr member)
  have accessX : ⟨2, 3, .gep into⟩ ∈ t.graph.edges := given (by simp [Graph.throughFields])
  have accessY : ⟨2, 4, .gep out⟩ ∈ t.graph.edges := given (by simp [Graph.throughFields])
  have store : ⟨5, 3, .store⟩ ∈ t.graph.edges := given (by simp [Graph.throughFields])
  have load : ⟨4, 6, .load⟩ ∈ t.graph.edges := given (by simp [Graph.throughFields])
  have inR := passes 2 2 3 4 5 6 0 accessX accessY store load (done.grown.kind? object) inP inP 1 inQ
  exact notInR inR

end throughFields

theorem alwaysPasses_iff (limit : Nat) (into out : Offset) :
    AlwaysPasses limit into out ↔ into.place limit = out.place limit := by
  constructor
  · intro always
    by_contra different
    have ends := Graph.throughFields_ends into out
    obtain ⟨t, done⟩ := exists_analyzed (Graph.built_callback ends) limit
    obtain ⟨u, run, passes⟩ := always _ (Graph.built_callback ends) (Graph.plain_callback _)
    cases done.run.symm.trans run
    exact done.not_passes (Graph.built_callback ends) (Graph.plain_callback _) (Graph.object_callback _)
      (fun _ => Graph.mem_edges_callback ends) different passes
  · intro same g built _
    obtain ⟨t, done⟩ := exists_analyzed built limit
    exact ⟨t, done.run, done.passes same⟩

/-- An access with a variant offset to an object and one with a constant offset meet at or beyond the field limit. Below
it they do not: what goes in through the one need not come out through the other, in either direction. -/
theorem variant_access_passes_iff (limit k : Nat) :
    (AlwaysPasses limit .variant (.constant k) ↔ limit ≤ k) ∧
      (AlwaysPasses limit (.constant k) .variant ↔ limit ≤ k) := by
  have beyond := Offset.place_constant_eq_none_iff limit k
  rw [alwaysPasses_iff, alwaysPasses_iff]
  exact ⟨eq_comm.trans beyond, beyond⟩

/-- What is stored through the variant access is not in the first field. -/
theorem variant_access_loses_target :
    ∃ t, (ofGraph (.callback (Graph.throughFields .variant (.constant 0)))).analyze defaultFieldLimit = .ok t ∧
      0 ∈ t.store.get 2 ∧ 1 ∈ t.store.get 5 ∧ 1 ∉ t.store.get 6 := by
  have ends := Graph.throughFields_ends .variant (.constant 0)
  obtain ⟨t, done⟩ := exists_analyzed (Graph.built_callback ends) defaultFieldLimit
  exact ⟨t, done.run, done.throughFields (Graph.built_callback ends) (Graph.plain_callback _)
    (Graph.object_callback _) (fun _ => Graph.mem_edges_callback ends) (by decide)⟩

end Solver

end PointsTo
