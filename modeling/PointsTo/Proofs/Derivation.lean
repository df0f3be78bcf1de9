import PointsTo.Proofs.Graph.Growth

namespace PointsTo.Graph

/-- What an access at an offset yields. With a variant offset the location stands for all of its parts. -/
def reached (g : Graph) : Offset → Location → Location
  | .constant k, p => g.part p k
  | .variant, p => p

/-- The constraint of an edge, where `pts p a` says that `a` is in the set of `p`. -/
def Obeys (g : Graph) (pts : Location → Location → Prop) : Edge → Prop
  | ⟨o, p, .addr⟩ => pts (g.location p) (g.location o)
  | ⟨p, x, .copy⟩ => ∀ a, pts (g.location p) a → pts (g.location x) a
  | ⟨p, r, .load⟩ => ∀ o a, pts (g.location p) o → pts o a → pts (g.location r) a
  | ⟨q, p, .store⟩ => ∀ o a, pts (g.location p) o → pts (g.location q) a → pts o a
  | ⟨p, x, .gep offset⟩ => ∀ o, pts (g.location p) o → pts (g.location x) (g.reached offset o)

def Solves (g : Graph) (pts : Location → Location → Prop) : Prop := ∀ edge ∈ g.edges, g.Obeys pts edge

/-- `g.Derives p a`: the edges of `g` alone put `a` into the set of `p`. -/
inductive Derives (g : Graph) : Location → Location → Prop
  | addr {o p} : ⟨o, p, .addr⟩ ∈ g.edges → Derives g (g.location p) (g.location o)
  | copy {p x a} : ⟨p, x, .copy⟩ ∈ g.edges → Derives g (g.location p) a → Derives g (g.location x) a
  | load {p r o a} : ⟨p, r, .load⟩ ∈ g.edges → Derives g (g.location p) o → Derives g o a →
      Derives g (g.location r) a
  | store {q p o a} : ⟨q, p, .store⟩ ∈ g.edges → Derives g (g.location p) o → Derives g (g.location q) a →
      Derives g o a
  | field {p x k o} : ⟨p, x, .gep (.constant k)⟩ ∈ g.edges → Derives g (g.location p) o →
      Derives g (g.location x) (g.part o k)
  | variant {p x o} : ⟨p, x, .gep .variant⟩ ∈ g.edges → Derives g (g.location p) o →
      Derives g (g.location x) o

theorem solves_derives (g : Graph) : g.Solves g.Derives := by
  intro edge member
  obtain ⟨source, target, kind⟩ := edge
  cases kind with
  | addr => exact .addr member
  | copy => exact fun a => .copy member
  | load => exact fun o a => .load member
  | store => exact fun o a => .store member
  | gep offset =>
    cases offset with
    | constant k => exact fun o => .field member
    | variant => exact fun o => .variant member

theorem Derives.least {g : Graph} {p a : Location} (derived : g.Derives p a)
    {pts : Location → Location → Prop} (solution : g.Solves pts) : pts p a := by
  induction derived with
  | addr edge => exact solution _ edge
  | copy edge _ ih => exact solution _ edge _ ih
  | load edge _ _ base value => exact solution _ edge _ _ base value
  | store edge _ _ base value => exact solution _ edge _ _ base value
  | field edge _ ih => exact solution _ edge _ ih
  | variant edge _ ih => exact solution _ edge _ ih

theorem derives_iff_forall_solves {g : Graph} {p a : Location} :
    g.Derives p a ↔ ∀ pts, g.Solves pts → pts p a :=
  ⟨fun derived _ solution => derived.least solution, fun all => all _ g.solves_derives⟩

/-- A load or a store through a derived fact makes all that `a` points to flow to `b`. -/
def DerivesCopy (g : Graph) (a b : Location) : Prop :=
  (∃ p r, ⟨p, r, .load⟩ ∈ g.edges ∧ g.Derives (g.location p) a ∧ b = g.location r) ∨
    ∃ q p, ⟨q, p, .store⟩ ∈ g.edges ∧ g.Derives (g.location p) b ∧ a = g.location q

/-- An access through a derived fact yields `f`. -/
def DerivesPart (g : Graph) (f : Location) : Prop :=
  ∃ p x k o, ⟨p, x, .gep (.constant k)⟩ ∈ g.edges ∧ g.Derives (g.location p) o ∧ f = g.part o k

theorem DerivesCopy.flow {g : Graph} {a b c : Location} (copy : g.DerivesCopy a b) (fact : g.Derives a c) :
    g.Derives b c := by
  rcases copy with ⟨p, r, edge, base, rfl⟩ | ⟨q, p, edge, base, rfl⟩
  · exact .load edge base fact
  · exact .store edge base fact

/-- A constraint has the same meaning in two graphs that agree on its ends and on the parts of locations. -/
theorem Obeys.transfer {g h : Graph} {pts : Location → Location → Prop} {edge : Edge} (obeyed : g.Obeys pts edge)
    (source : h.location edge.source = g.location edge.source)
    (target : h.location edge.target = g.location edge.target)
    (parts : ∀ p k, h.part p k = g.part p k) : h.Obeys pts edge := by
  obtain ⟨p, x, kind⟩ := edge
  change h.location p = g.location p at source
  change h.location x = g.location x at target
  cases kind with
  | gep offset =>
    intro o
    rw [source, target]
    cases offset with
    | constant k => rw [reached, parts]; exact obeyed o
    | variant => exact obeyed o
  | _ => simpa only [Obeys, source, target] using obeyed

theorem Grown.reached_eq {g h : Graph} (grown : Grown g h) (offset : Offset) (p : Location) :
    h.reached offset p = g.reached offset p := by
  cases offset with
  | constant k => exact grown.part_eq p k
  | variant => rfl

end PointsTo.Graph
