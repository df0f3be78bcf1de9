import PointsTo.Proofs.Solver.Effect

namespace PointsTo

namespace DiffStore

/-- The keys are below the bound, and so are all sets. -/
structure Below (s : DiffStore) (bound : Nat) : Prop where
  pendingKeys : ∀ k ∈ s.pending, k < bound
  settledKeys : ∀ k ∈ s.settled, k < bound
  pending : ∀ k, (s.pendingOf k).Below bound
  settled : ∀ k, (s.settledOf k).Below bound

section keys
variable {m : Std.TreeMap NodeId PointeeSet} {bound : Nat} (keys : ∀ j ∈ m, j < bound) {k : NodeId} (inside : k < bound)
  (set : PointeeSet)

include keys inside

theorem keys_insert : ∀ j ∈ m.insert k set, j < bound := by
  intro j member
  rcases Std.TreeMap.mem_insert.mp member with same | old
  · exact Nat.compare_eq_eq.mp same ▸ inside
  · exact keys j old

theorem keys_insertIfNew : ∀ j ∈ m.insertIfNew k set, j < bound := by
  intro j member
  rcases Std.TreeMap.mem_insertIfNew.mp member with same | old
  · exact Nat.compare_eq_eq.mp same ▸ inside
  · exact keys j old

end keys

theorem below_empty (bound : Nat) : empty.Below bound where
  pendingKeys k entry := by simp [empty] at entry
  settledKeys k entry := by simp [empty] at entry
  pending k := by
    have none : empty.pendingOf k = .empty := by simp [empty, pendingOf]
    rw [none]
    exact PointeeSet.below_empty bound
  settled k := by
    have none : empty.settledOf k = .empty := by simp [empty, settledOf]
    rw [none]
    exact PointeeSet.below_empty bound

namespace Below
variable {s : DiffStore} {bound : Nat} (below : s.Below bound)

include below

theorem mono {more : Nat} (less : bound ≤ more) : s.Below more where
  pendingKeys k entry := Nat.lt_of_lt_of_le (below.pendingKeys k entry) less
  settledKeys k entry := Nat.lt_of_lt_of_le (below.settledKeys k entry) less
  pending k := (below.pending k).mono less
  settled k := (below.settled k).mono less

theorem get (k : NodeId) : (s.get k).Below bound := (below.settled k).union (below.pending k)

theorem init {k : NodeId} (inside : k < bound) : (s.init k).Below bound where
  pendingKeys := keys_insertIfNew below.pendingKeys inside .empty
  settledKeys := keys_insertIfNew below.settledKeys inside .empty
  pending j := by
    rw [pendingOf_init]
    exact below.pending j
  settled j := by
    rw [settledOf_init]
    exact below.settled j

/-- A set may take the place of the pending set of `k`. -/
theorem insertPending {k : NodeId} (inside : k < bound) {set : PointeeSet} (small : set.Below bound) :
    { s with pending := s.pending.insert k set }.Below bound where
  pendingKeys := keys_insert below.pendingKeys inside set
  settledKeys := below.settledKeys
  pending j := by
    simp only [pendingOf, Std.TreeMap.getD_insert]
    split
    · exact small
    · exact below.pending j
  settled := below.settled

/-- A set may take the place of the settled set of `k`. -/
theorem insertSettled {k : NodeId} (inside : k < bound) {set : PointeeSet} (small : set.Below bound) :
    { s with settled := s.settled.insert k set }.Below bound where
  pendingKeys := below.pendingKeys
  settledKeys := keys_insert below.settledKeys inside set
  pending := below.pending
  settled j := by
    simp only [settledOf, Std.TreeMap.getD_insert]
    split
    · exact small
    · exact below.settled j

theorem add {k : NodeId} {e : Nat} (inside : k < bound) (element : e < bound) : (s.add k e).1.Below bound := by
  unfold DiffStore.add
  split
  · exact below
  · exact below.insertPending inside ((below.pending k).insert element)

theorem unite {k : NodeId} (inside : k < bound) {source : PointeeSet} (small : source.Below bound) :
    (s.unite k source).1.Below bound := by
  have entered : { s with settled := s.settled.insertIfNew k .empty }.Below bound :=
    { below with
      settledKeys := keys_insertIfNew below.settledKeys inside .empty
      settled := (below.init inside).settled }
  unfold DiffStore.unite
  dsimp only
  split
  · exact entered
  · exact entered.insertPending inside ((entered.pending k).union (small.subtract _))

theorem flush (k : NodeId) : (s.flush k).2.Below bound := by
  have facts := below.pending k
  unfold DiffStore.flush
  split
  · exact below
  · rename_i set entry
    have present : k ∈ s.pending := Std.TreeMap.mem_iff_isSome_getElem?.mpr (by rw [entry]; rfl)
    have same : s.pendingOf k = set := by simp [pendingOf, Std.TreeMap.getD_eq_getD_getElem?, entry]
    rw [same] at facts
    have inside := below.pendingKeys k present
    exact (below.insertPending inside (PointeeSet.below_empty bound)).insertSettled inside
      ((below.settled k).union facts)

end Below

theorem below_foldl_init {ks : List NodeId} {s : DiffStore} {bound : Nat} (below : s.Below bound)
    (inside : ∀ k ∈ ks, k < bound) : (ks.foldl init s).Below bound := by
  induction ks generalizing s with
  | nil => exact below
  | cons k ks ih =>
    exact ih (below.init (inside k List.mem_cons_self)) fun j member => inside j (List.mem_cons_of_mem k member)

end DiffStore

namespace Graph

/-- Callers, call sites and function pointers are there. -/
structure CallsFiled (g : Graph) : Prop where
  callers : ∀ site ∈ g.callSites, ∀ f ∈ site.caller, f < g.functions.size
  sites : ∀ call ∈ g.indirectCalls, call.site < g.callSites.size
  pointers : ∀ call ∈ g.indirectCalls, call.pointer < g.nodes.size

theorem CallsFiled.grown {g h : Graph} (filed : g.CallsFiled) (grown : g.Grown h) : h.CallsFiled where
  callers site member f caller := by
    rw [grown.callSites] at member
    rw [grown.functions]
    exact filed.callers site member f caller
  sites call member := by
    rw [grown.indirectCalls] at member
    rw [grown.callSites]
    exact filed.sites call member
  pointers call member := by
    rw [grown.indirectCalls] at member
    exact Nat.lt_of_lt_of_le (filed.pointers call member) grown.size_le

/-- Every number that a table of the graph holds is that of an entry of the table it points into, and an edge is listed
under its own family only. -/
structure InRange (g : Graph) : Prop extends g.CallsFiled where
  ends : ∀ edge ∈ g.edges, edge.source < g.nodes.size ∧ edge.target < g.nodes.size
  outgoing : ∀ family n, ∀ e ∈ g.outgoing family n, ∃ edge, g.edges[e]? = some edge ∧ edge.kind.family = family
  incoming : ∀ family n, ∀ e ∈ g.incoming family n, ∃ edge, g.edges[e]? = some edge ∧ edge.kind.family = family
  addresses : ∀ e ∈ g.addrEdges, e < g.edges.size
  fields : ∀ (base : NodeId) (k : Nat) (n : NodeId), g.fields[(base, k)]? = some n →
    base < g.nodes.size ∧ n < g.nodes.size
  bases : ∀ n base k, g.kind? n = some (.field base k) → base < g.nodes.size
  functionNumbers : ∀ n f, g.kind? n = some (.function f) → f < g.functions.size
  functionNodes : ∀ entry ∈ g.functions, entry.node < g.nodes.size

theorem WellFormed.inRange {g : Graph} (wf : g.WellFormed) (calls : g.CallsFiled) : g.InRange where
  toCallsFiled := calls
  ends := wf.ends
  outgoing family n e member := by
    obtain ⟨edge, found, same, _⟩ := (wf.outgoing family n e).mp member
    exact ⟨edge, found, same⟩
  incoming family n e member := by
    obtain ⟨edge, found, same, _⟩ := (wf.incoming family n e).mp member
    exact ⟨edge, found, same⟩
  addresses e := wf.lt_of_mem_addrEdges
  fields base k n entry := by
    have field := (wf.fields base k n).mp entry
    exact ⟨lt_of_kind? (wf.bases n base k field), lt_of_kind? field⟩
  bases n base k field := lt_of_kind? (wf.bases n base k field)
  functionNumbers n f function := by
    obtain ⟨entry, found, _⟩ := Option.map_eq_some_iff.mp ((wf.functions f n).mpr function)
    obtain ⟨bound, _⟩ := Array.getElem?_eq_some_iff.mp found
    exact bound
  functionNodes entry member := by
    obtain ⟨f, found⟩ := Array.mem_iff_getElem?.mp member
    exact lt_of_kind? ((wf.functions f entry.node).mp (by rw [found]; rfl))

/-- The tables have fewer than `2 ^ 32 - 1` entries. -/
structure Small (g : Graph) : Prop where
  nodes : g.nodes.size < indexLimit - 1
  edges : g.edges.size < indexLimit - 1
  functions : g.functions.size < indexLimit - 1
  callSites : g.callSites.size < indexLimit - 1

end Graph

namespace Solver

/-- Every number in the state is that of an entry of the table it points into. -/
structure InRange (s : Solver) : Prop where
  graph : s.graph.InRange
  store : s.store.Below s.graph.nodes.size
  queue : ∀ n ∈ s.queue.toList, n < s.graph.nodes.size

theorem Step.below {s t : Solver} (valid : s.Valid) (step : s.Step t) (below : s.store.Below s.graph.nodes.size) :
    t.store.Below t.graph.nodes.size := by
  cases step with
  | seed _ found =>
    obtain ⟨source, target⟩ := valid.graph.ends _ (Array.mem_iff_getElem?.mpr ⟨_, found⟩)
    rw [gain_graph, gain, schedule_store]
    exact below.add target source
  | record _ => exact below
  | settle _ => exact below.flush _
  | infer step =>
    cases step with
    | copy edge settled =>
      rw [send_graph, send, schedule_store]
      exact below.unite (valid.graph.ends _ edge).2 ((below.settled _).of_partOf settled)
    | link demand _ =>
      rw [send_graph, linked, Graph.nodes_appendEdge, send, schedule_store]
      exact below.unite (valid.demands_lt demand).2 (below.get _)
    | access edge settled run =>
      have reaches := valid.reaches (valid.settled_lt settled) run
      have target := Nat.lt_of_lt_of_le (valid.graph.ends _ edge).2 reaches.grown.size_le
      rw [gain_graph, gain, schedule_store, reaches.store]
      exact ((below.mono reaches.grown.size_le).init reaches.inside).add target reaches.inside

theorem Step.inRange {s t : Solver} (valid : s.Valid) (step : s.Step t) (inRange : s.InRange) : t.InRange where
  graph := (step.valid valid).graph.inRange (inRange.graph.toCallsFiled.grown (step.grown valid))
  store := step.below valid inRange.store
  queue := (step.valid valid).inside

theorem inRange_prepare {g : Graph} (built : g.Built) (calls : g.CallsFiled) (limit : Nat) :
    ((ofGraph g).prepare limit).InRange where
  graph := (built.fieldLimit limit).wellFormed.inRange ⟨calls.callers, calls.sites, calls.pointers⟩
  store := DiffStore.below_foldl_init (DiffStore.below_empty _) fun _ => List.mem_range.mp
  queue := (stable_prepare built limit).toRested.valid.inside

theorem Steps.inRange {g : Graph} (built : g.Built) (calls : g.CallsFiled) {limit : Nat} {s : Solver}
    (run : ((ofGraph g).prepare limit).Steps s) : s.InRange :=
  run.keeps_prepare built (fun _ _ valid step => step.inRange valid) (inRange_prepare built calls limit)

/-- All numbers in the state fit their types, every node can be put into a dense set and into the queue, and every set
can be united into another one, within the machine word. -/
structure Fits (s : Solver) : Prop where
  nodes : ∀ n < s.graph.nodes.size, truncateIndex n = n ∧ checkIndex n = .ok n
  edges : ∀ e < s.graph.edges.size, truncateIndex e = e
  functions : ∀ f < s.graph.functions.size, checkIndex f = .ok f
  callSites : ∀ c < s.graph.callSites.size, checkIndex c = .ok c
  insert : ∀ n < s.graph.nodes.size, ∀ bits : DenseSet, bits.insertChecked n = .ok (bits.insert n)
  push : ∀ n < s.graph.nodes.size, ∀ queue : Worklist, queue.pushChecked n = .ok (queue.push n)
  unite : ∀ k, ∀ set ∈ [s.store.pendingOf k, s.store.settledOf k, s.store.get k], ∀ bits : DenseSet,
    bits.ensureChecked (64 * set.span) = .ok (bits.ensure (64 * set.span))

theorem hasRoomFor_of_lt {capacity : Nat} (small : capacity < 2 * indexLimit) :
    DenseSet.hasRoomFor capacity = true := by
  have limits : 2 * indexLimit + 64 < wordLimit := by decide
  rw [DenseSet.hasRoomFor, decide_eq_true_eq]
  omega

theorem InRange.fits {s : Solver} (inRange : s.InRange) (small : s.graph.Small) : s.Fits := by
  have nodes := small.nodes
  have edges := small.edges
  have functions := small.functions
  have callSites := small.callSites
  have limit : 64 < indexLimit := by decide
  refine ⟨?_, ?_, ?_, ?_, ?_, ?_, ?_⟩
  · intro n bound
    have fits : n < indexLimit := by omega
    exact ⟨truncateIndex_of_lt fits, checkIndex_eq_ok_iff.mpr ⟨fits, rfl⟩⟩
  · intro e bound
    exact truncateIndex_of_lt (by omega)
  · intro f bound
    exact checkIndex_eq_ok_iff.mpr ⟨by omega, rfl⟩
  · intro c bound
    exact checkIndex_eq_ok_iff.mpr ⟨by omega, rfl⟩
  · intro n bound bits
    rw [DenseSet.insertChecked, if_pos (hasRoomFor_of_lt (by omega))]
  · intro n bound queue
    rw [Worklist.pushChecked, if_pos (hasRoomFor_of_lt (by omega))]
  · intro k set member bits
    have below : set.Below s.graph.nodes.size := by
      simp only [List.mem_cons, List.not_mem_nil, or_false] at member
      rcases member with rfl | rfl | rfl
      · exact inRange.store.pending k
      · exact inRange.store.settled k
      · exact inRange.store.get k
    have span : set.span ≤ (s.graph.nodes.size + 63) / 64 := below.span
    rw [DenseSet.ensureChecked, if_pos (hasRoomFor_of_lt (by omega))]

end Solver

end PointsTo
