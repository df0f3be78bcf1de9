import PointsTo.Proofs.Solver.Outcome

namespace PointsTo

namespace Graph

/-- The map takes the constraints of `g` to constraints of `h`. Accesses need not stay what they are: what is asked
of them is that the image of what they yield in `g` is derived in `h`. -/
structure Transports (g h : Graph) (image : Location → Location) : Prop where
  nodes : ∀ n, image (g.location n) = h.location n
  edges : ∀ edge ∈ g.edges, (∀ offset, edge.kind ≠ .gep offset) → edge ∈ h.edges
  accesses : ∀ p x offset o, ⟨p, x, .gep offset⟩ ∈ g.edges → g.Derives (g.location p) o →
    h.Derives (h.location p) (image o) → h.Derives (h.location x) (image (g.reached offset o))

theorem Derives.transport {g h : Graph} {image : Location → Location} (transports : Transports g h image)
    {p a : Location} (derived : g.Derives p a) : h.Derives (image p) (image a) := by
  induction derived with
  | addr edge =>
    rw [transports.nodes, transports.nodes]
    exact .addr (transports.edges _ edge (by simp))
  | copy edge _ ih =>
    rw [transports.nodes] at ih ⊢
    exact .copy (transports.edges _ edge (by simp)) ih
  | load edge _ _ base value =>
    rw [transports.nodes] at base ⊢
    exact .load (transports.edges _ edge (by simp)) base value
  | store edge _ _ base value =>
    rw [transports.nodes] at base value
    exact .store (transports.edges _ edge (by simp)) base value
  | field edge fact ih =>
    rw [transports.nodes] at ih ⊢
    exact transports.accesses _ _ _ _ edge fact ih
  | variant edge fact ih =>
    rw [transports.nodes] at ih ⊢
    exact transports.accesses _ _ _ _ edge fact ih

/-- An access derives what it reaches, whatever its offset. -/
theorem Derives.access {g : Graph} {p x : NodeId} {offset : Offset} {o : Location}
    (edge : ⟨p, x, .gep offset⟩ ∈ g.edges) (fact : g.Derives (g.location p) o) :
    g.Derives (g.location x) (g.reached offset o) := by
  cases offset with
  | constant k => exact .field edge fact
  | variant => exact .variant edge fact

end Graph

namespace Solver.Analyzed
variable {g h : Graph} {limit bound : Nat} {t u : Solver} {image : Location → Location}
  (first : Analyzed g limit t) (second : Analyzed h bound u)
  (transports : Graph.Transports { g with fieldLimit := limit } { h with fieldLimit := bound } image)

include first second transports

theorem solution_transport {p a : Location} (fact : t.solution p a) : u.solution (image p) (image a) :=
  (second.exact.facts _ _).mpr (((first.exact.facts _ _).mp fact).transport transports)

/-- No function that a pointer may call is lost on the way. -/
theorem targets_subset {n : NodeId} (inG : n < g.nodes.size) (inH : n < h.nodes.size)
    (functions : ∀ m f, g.kind? m = some (.function f) → h.kind? m = some (.function f)) :
    ∃ ts us, callTargets t.graph t.store n = .ok ts ∧ callTargets u.graph u.store n = .ok us ∧ ts ⊆ us := by
  obtain ⟨ts, foundT, _, exactT⟩ := first.targets inG
  obtain ⟨us, foundU, _, exactU⟩ := second.targets inH
  refine ⟨ts, us, foundT, foundU, ?_⟩
  intro f member
  obtain ⟨m, inM, derived⟩ := (exactT f).mp member
  have plainG : g.location m = .node m := Graph.location_of_not_field (by simp [inM])
  have plainH : h.location m = .node m := Graph.location_of_not_field (by simp [functions m f inM])
  have carried := derived.transport transports
  have pointer : image (g.location n) = h.location n := transports.nodes n
  have target : image (g.location m) = h.location m := transports.nodes m
  rw [plainG, plainH] at target
  rw [pointer, target] at carried
  exact (exactU f).mpr ⟨m, functions m f inM, carried⟩

end Solver.Analyzed

end PointsTo
