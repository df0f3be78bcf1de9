import PointsTo.DiffStore.Lemmas
import PointsTo.PointeeSet.Span
import PointsTo.Worklist.Lemmas
import PointsTo.Solver.Run
import PointsTo.Proofs.Derivation
import PointsTo.Proofs.Results
import Mathlib.Logic.Relation

namespace PointsTo

/-- The set of `k` gains `facts`, and `k` waits if its set grew. -/
structure Gains (store store' : DiffStore) (queue queue' : Worklist) (k : NodeId) (facts : Nat → Prop) : Prop where
  settled : ∀ j, store'.settledOf j = store.settledOf j
  pending : ∀ j x, x ∈ store'.pendingOf j ↔ x ∈ store.pendingOf j ∨ j = k ∧ facts x ∧ x ∉ store.settledOf j
  wellFormed : queue.WellFormed → queue'.WellFormed
  waiting : queue.WellFormed → ∀ j, j ∈ queue'.toList ↔
    j ∈ queue.toList ∨ j = k ∧ ∃ x, facts x ∧ x ∉ store.get k

namespace Gains
variable {store store' : DiffStore} {queue queue' : Worklist} {k : NodeId} {facts : Nat → Prop}

theorem mem_get (gains : Gains store store' queue queue' k facts) {j : NodeId} {x : Nat} :
    x ∈ store'.get j ↔ x ∈ store.get j ∨ j = k ∧ facts x := by
  rw [DiffStore.mem_get, DiffStore.mem_get, gains.settled, gains.pending]
  by_cases settled : x ∈ store.settledOf j
  · simp [settled]
  · simp [settled]

theorem disjoint (gains : Gains store store' queue queue' k facts) (apart : store.Disjoint) :
    store'.Disjoint :=
  apart.receive gains.settled fun j x pending => ((gains.pending j x).mp pending).imp_right fun new => new.2.2

/-- If the keys that wait are those with pending facts, this stays so. -/
theorem waiting_iff (gains : Gains store store' queue queue' k facts) (wf : queue.WellFormed)
    (before : ∀ j, j ∈ queue.toList ↔ ∃ x, x ∈ store.pendingOf j) (j : NodeId) :
    j ∈ queue'.toList ↔ ∃ x, x ∈ store'.pendingOf j := by
  rw [gains.waiting wf j, before j]
  constructor
  · rintro (⟨x, old⟩ | ⟨rfl, x, new, absent⟩)
    · exact ⟨x, (gains.pending j x).mpr (Or.inl old)⟩
    · have unsettled : x ∉ store.settledOf j := fun settled => absent (DiffStore.mem_get.mpr (Or.inl settled))
      exact ⟨x, (gains.pending j x).mpr (Or.inr ⟨rfl, new, unsettled⟩)⟩
  · rintro ⟨x, pending⟩
    rcases (gains.pending j x).mp pending with old | ⟨rfl, new, unsettled⟩
    · exact Or.inl ⟨x, old⟩
    · by_cases old : x ∈ store.pendingOf j
      · exact Or.inl ⟨x, old⟩
      · exact Or.inr ⟨rfl, x, new, fun member => (DiffStore.mem_get.mp member).elim unsettled old⟩

end Gains

/-- So it does where a key is taken from the queue and its facts are settled. -/
theorem waiting_iff_flush {store : DiffStore} {queue rest : Worklist} {n : NodeId} (wf : queue.WellFormed)
    (next : queue.pop? = some (n, rest)) (before : ∀ j, j ∈ queue.toList ↔ ∃ x, x ∈ store.pendingOf j) (j : NodeId) :
    j ∈ rest.toList ↔ ∃ x, x ∈ (store.flush n).2.pendingOf j := by
  have order := Worklist.toList_pop? next
  have distinct := wf.nodup
  rw [order, List.nodup_cons] at distinct
  have old := before j
  rw [order, List.mem_cons] at old
  simp only [DiffStore.mem_pendingOf_flush, exists_and_left]
  constructor
  · intro later
    exact ⟨fun same => distinct.1 (same ▸ later), old.mp (Or.inr later)⟩
  · rintro ⟨other, pending⟩
    exact (old.mpr pending).resolve_left other

theorem Worklist.mem_push {q : Worklist} (wf : q.WellFormed) {x y : Nat} :
    y ∈ (q.push x).1.toList ↔ y ∈ q.toList ∨ y = x := by
  rw [toList_push wf]
  split
  · rename_i present
    exact ⟨Or.inl, fun h => h.elim id fun same => same ▸ present⟩
  · simp

namespace Solver

theorem schedule_store (s : Solver) (n : NodeId) (grew : Bool) : (s.schedule n grew).store = s.store := by
  unfold schedule
  split <;> rfl

theorem schedule_graph (s : Solver) (n : NodeId) (grew : Bool) : (s.schedule n grew).graph = s.graph := by
  unfold schedule
  split <;> rfl

theorem schedule_cursor (s : Solver) (n : NodeId) (grew : Bool) : (s.schedule n grew).cursor = s.cursor := by
  unfold schedule
  split <;> rfl

theorem schedule_processed (s : Solver) (n : NodeId) (grew : Bool) : (s.schedule n grew).processed = s.processed := by
  unfold schedule
  split <;> rfl

theorem wellFormed_schedule {s : Solver} (wf : s.queue.WellFormed) (n : NodeId) (grew : Bool) :
    (s.schedule n grew).queue.WellFormed := by
  unfold schedule
  split
  · exact Worklist.wellFormed_push wf n
  · exact wf

theorem mem_queue_schedule {s : Solver} (wf : s.queue.WellFormed) {n j : NodeId} {grew : Bool} :
    j ∈ (s.schedule n grew).queue.toList ↔ j ∈ s.queue.toList ∨ j = n ∧ grew = true := by
  unfold schedule
  split
  · rename_i new
    simp only [Worklist.mem_push wf, new, and_true]
  · rename_i old
    simp [old]

/-- Adds one fact to the set of `k`. -/
def gain (s : Solver) (k x : NodeId) : Solver :=
  { s with store := (s.store.add k x).1 }.schedule k (s.store.add k x).2

theorem gains_gain (s : Solver) (k x : NodeId) :
    Gains s.store (s.gain k x).store s.queue (s.gain k x).queue k (· = x) where
  settled j := by
    rw [gain, schedule_store]
    exact DiffStore.settledOf_add s.store k x j
  pending j y := by
    rw [gain, schedule_store, DiffStore.mem_pendingOf_add]
    constructor
    · rintro (old | ⟨key, value, unsettled⟩)
      · exact Or.inl old
      · exact Or.inr ⟨key, value, key ▸ value ▸ unsettled⟩
    · rintro (old | ⟨key, value, unsettled⟩)
      · exact Or.inl old
      · exact Or.inr ⟨key, value, key ▸ value ▸ unsettled⟩
  wellFormed wf := wellFormed_schedule (s := { s with store := (s.store.add k x).1 }) wf k _
  waiting wf j := by
    rw [gain, mem_queue_schedule (s := { s with store := (s.store.add k x).1 }) wf, DiffStore.add_new]
    simp

theorem gains_send (s : Solver) (k : NodeId) (facts : PointeeSet) :
    Gains s.store (s.send k facts).store s.queue (s.send k facts).queue k (· ∈ facts) where
  settled j := by
    rw [send, schedule_store]
    exact DiffStore.settledOf_unite s.store k facts j
  pending j y := by
    rw [send, schedule_store, DiffStore.mem_pendingOf_unite]
    constructor
    · rintro (old | ⟨key, value, unsettled⟩)
      · exact Or.inl old
      · exact Or.inr ⟨key, value, key ▸ unsettled⟩
    · rintro (old | ⟨key, value, unsettled⟩)
      · exact Or.inl old
      · exact Or.inr ⟨key, value, key ▸ unsettled⟩
  wellFormed wf := wellFormed_schedule (s := { s with store := (s.store.unite k facts).1 }) wf k _
  waiting wf j := by
    rw [send, mem_queue_schedule (s := { s with store := (s.store.unite k facts).1 }) wf, DiffStore.unite_new]

/-- The sets hold nodes, and the nodes that wait are those with pending facts. -/
structure Valid (s : Solver) : Prop where
  graph : s.graph.WellFormed
  facts : ∀ k x, x ∈ s.store.get k → x < s.graph.nodes.size
  apart : s.store.Disjoint
  queue : s.queue.WellFormed
  waiting : ∀ k, k ∈ s.queue.toList ↔ ∃ x, x ∈ s.store.pendingOf k
  inside : ∀ k ∈ s.queue.toList, k < s.graph.nodes.size

theorem Valid.settled_lt {s : Solver} (valid : s.Valid) {k : NodeId} {x : Nat} (settled : x ∈ s.store.settledOf k) :
    x < s.graph.nodes.size :=
  valid.facts k x (DiffStore.mem_get.mpr (Or.inl settled))

theorem Valid.gains {s t : Solver} (valid : s.Valid) {k : NodeId} {facts : Nat → Prop}
    (gains : Gains s.store t.store s.queue t.queue k facts) (graph : t.graph.WellFormed)
    (size : s.graph.nodes.size ≤ t.graph.nodes.size) (key : k < t.graph.nodes.size)
    (values : ∀ x, facts x → x < t.graph.nodes.size) : t.Valid where
  graph := graph
  facts j x member := by
    rcases gains.mem_get.mp member with old | ⟨_, new⟩
    · exact Nat.lt_of_lt_of_le (valid.facts j x old) size
    · exact values x new
  apart := gains.disjoint valid.apart
  queue := gains.wellFormed valid.queue
  waiting := gains.waiting_iff valid.queue valid.waiting
  inside j member := by
    rcases (gains.waiting valid.queue j).mp member with old | ⟨rfl, _⟩
    · exact Nat.lt_of_lt_of_le (valid.inside j old) size
    · exact key

/-- Takes `n` from the queue and settles its pending facts. -/
def settle (s : Solver) (n : NodeId) (queue : Worklist) : Solver :=
  { s with queue, store := (s.store.flush n).2, processed := s.processed + 1 }

theorem Valid.settle {s : Solver} (valid : s.Valid) {n : NodeId} {queue : Worklist}
    (next : s.queue.pop? = some (n, queue)) : (s.settle n queue).Valid where
  graph := valid.graph
  facts k x member := valid.facts k x (DiffStore.mem_get_flush.mp member)
  apart := valid.apart.flush n
  queue := Worklist.wellFormed_pop? valid.queue next
  waiting := waiting_iff_flush valid.queue next valid.waiting
  inside k member := by
    have order := Worklist.toList_pop? next
    exact valid.inside k (by rw [order]; exact List.mem_cons_of_mem n member)

/-- What it means that the access at `offset` to `o` reaches the node `m`, and leads to the state `r`. -/
structure Reaches (s : Solver) (offset : Offset) (o : NodeId) (r : Solver) (m : NodeId) : Prop where
  store : r.store = s.store
  queue : r.queue = s.queue
  cursor : r.cursor = s.cursor
  wellFormed : r.graph.WellFormed
  grown : s.graph.Grown r.graph
  edges : r.graph.edges = s.graph.edges
  inside : m < r.graph.nodes.size
  location : r.graph.location m = s.graph.reached offset (s.graph.location o)
  fresh : ∀ n, s.graph.nodes.size ≤ n → n < r.graph.nodes.size → n = m

theorem reach_constant (s : Solver) (k : Nat) (o : NodeId) :
    s.reach (.constant k) o = (s.graph.locate o k).map fun found =>
      ({ s with graph := (s.graph.access found).1, log := s.log ++ found.events s.graph.nodes.size },
        (s.graph.access found).2) := by
  simp only [reach]
  cases s.graph.locate o k <;> rfl

/-- An access changes the graph and the log, and nothing else. -/
theorem reach_frame {s r : Solver} {offset : Offset} {o m : NodeId} (run : s.reach offset o = .ok (r, m)) :
    ∃ graph log, r = { s with graph, log } := by
  cases offset with
  | variant =>
    cases run
    exact ⟨s.graph, s.log, rfl⟩
  | constant k =>
    rw [reach_constant] at run
    obtain ⟨found, _, same⟩ := map_eq_ok_iff.mp run
    cases same
    exact ⟨_, _, rfl⟩

theorem Valid.reach_total {s : Solver} (valid : s.Valid) {o : NodeId} (bound : o < s.graph.nodes.size)
    (offset : Offset) : ∃ r m, s.reach offset o = .ok (r, m) ∧ Reaches s offset o r m := by
  cases offset with
  | variant =>
    exact ⟨s, o, rfl, rfl, rfl, rfl, valid.graph, .refl _, rfl, bound, rfl,
      fun n lower upper => absurd upper (Nat.not_lt.mpr lower)⟩
  | constant k =>
    obtain ⟨found, located, outcome⟩ := valid.graph.locate_cases bound k
    have run := reach_constant s k o
    rw [located, Except.map] at run
    rcases outcome with ⟨m, inside, unchanged, here⟩ | ⟨base, offset, rfl, object, below, missing, here⟩
    · rw [unchanged] at run
      exact ⟨_, m, run, rfl, rfl, rfl, valid.graph, .refl _, rfl, inside, here,
        fun n lower upper => absurd upper (Nat.not_lt.mpr lower)⟩
    · have grown := Graph.Grown.addField object below
      have last : (s.graph.addField base offset).1.kind? s.graph.nodes.size = some (.field base offset) := by
        rw [Graph.kind?_push (g := s.graph) (h := (s.graph.addField base offset).1) rfl, if_pos rfl]
      refine ⟨_, s.graph.nodes.size, run, rfl, rfl, rfl, valid.graph.addField object missing, grown, rfl,
        Graph.lt_of_kind? last, ?_, ?_⟩
      · exact (Graph.location_of_field last).trans here.symm
      · intro n lower upper
        simp only [Graph.access, Graph.addField, Array.size_push] at upper
        exact Nat.le_antisymm (Nat.le_of_lt_succ upper) lower

theorem Valid.reaches {s r : Solver} (valid : s.Valid) {o m : NodeId} (bound : o < s.graph.nodes.size)
    {offset : Offset} (run : s.reach offset o = .ok (r, m)) : Reaches s offset o r m := by
  obtain ⟨r', m', run', reaches⟩ := valid.reach_total bound offset
  rw [run'] at run
  cases run
  exact reaches

/-- A load or a store through settled facts asks for a copy edge from `a` to `b`. -/
def Demands (s : Solver) (a b : NodeId) : Prop :=
  (∃ p, ⟨p, b, .load⟩ ∈ s.graph.edges ∧ a ∈ s.store.settledOf p) ∨
    ∃ p, ⟨a, p, .store⟩ ∈ s.graph.edges ∧ b ∈ s.store.settledOf p

/-- The state with a new copy edge, before anything is sent along it. -/
def linked (s : Solver) (a b : NodeId) : Solver :=
  { s with graph := s.graph.appendEdge ⟨a, b, .copy⟩, copyEdges := s.copyEdges + 1 }

/-- One application of a constraint to settled facts. -/
inductive Infers (s : Solver) : Solver → Prop
  | copy {p x facts} : ⟨p, x, .copy⟩ ∈ s.graph.edges → facts.PartOf (s.store.settledOf p) →
      Infers s (s.send x facts)
  | link {a b} : s.Demands a b → ⟨a, b, .copy⟩ ∉ s.graph.edges →
      Infers s ((s.linked a b).send b (s.store.get a))
  | access {p x offset o r m} : ⟨p, x, .gep offset⟩ ∈ s.graph.edges → o ∈ s.store.settledOf p →
      s.reach offset o = .ok (r, m) → Infers s ({ r with store := r.store.init m }.gain x m)

theorem send_graph (s : Solver) (k : NodeId) (facts : PointeeSet) : (s.send k facts).graph = s.graph :=
  schedule_graph ..

theorem gain_graph (s : Solver) (k x : NodeId) : (s.gain k x).graph = s.graph :=
  schedule_graph ..

theorem gain_cursor (s : Solver) (k x : NodeId) : (s.gain k x).cursor = s.cursor :=
  schedule_cursor ..

theorem Valid.demands_lt {s : Solver} (valid : s.Valid) {a b : NodeId} (demand : s.Demands a b) :
    a < s.graph.nodes.size ∧ b < s.graph.nodes.size := by
  rcases demand with ⟨p, edge, settled⟩ | ⟨p, edge, settled⟩
  · exact ⟨valid.settled_lt settled, (valid.graph.ends _ edge).2⟩
  · exact ⟨(valid.graph.ends _ edge).1, valid.settled_lt settled⟩

/-- The fact that an access leads to, in a store that gives the reached node an entry first. -/
theorem Reaches.gains {s r : Solver} {offset : Offset} {o m : NodeId} (reaches : Reaches s offset o r m)
    (x : NodeId) : Gains s.store ({ r with store := r.store.init m }.gain x m).store s.queue
      ({ r with store := r.store.init m }.gain x m).queue x (· = m) := by
  have gains := gains_gain { r with store := r.store.init m } x m
  have store := reaches.store
  have queue := reaches.queue
  constructor
  · intro j
    rw [gains.settled, DiffStore.settledOf_init, store]
  · intro j y
    rw [gains.pending, DiffStore.pendingOf_init, DiffStore.settledOf_init, store]
  · intro wf
    exact gains.wellFormed (by rw [queue]; exact wf)
  · intro wf j
    rw [gains.waiting (by rw [queue]; exact wf), DiffStore.get_init, store, queue]

/-- The shape of every inference: the graph grows, one set gains facts, and nothing else is touched. -/
theorem Infers.outcome {s t : Solver} (step : s.Infers t) (valid : s.Valid) :
    s.graph.Grown t.graph ∧ t.graph.WellFormed ∧ t.cursor = s.cursor ∧
      ∃ k facts, Gains s.store t.store s.queue t.queue k facts ∧ k < s.graph.nodes.size ∧
        ∀ x, facts x → x < t.graph.nodes.size := by
  cases step with
  | @copy p x facts edge settled =>
    rw [send_graph]
    refine ⟨.refl _, valid.graph, schedule_cursor .., x, _, gains_send s x facts, (valid.graph.ends _ edge).2, ?_⟩
    exact fun a member => valid.settled_lt (settled.elements a member)
  | @link a b demand new =>
    obtain ⟨source, target⟩ := valid.demands_lt demand
    rw [send_graph]
    refine ⟨.appendCopy .., valid.graph.appendEdge new source target, schedule_cursor .., b, _,
      gains_send (s.linked a b) b (s.store.get a), target, ?_⟩
    intro x member
    exact Nat.lt_of_lt_of_le (valid.facts a x member) (Graph.Grown.appendCopy s.graph a b).size_le
  | @access p x offset o r m edge settled run =>
    have reaches := valid.reaches (valid.settled_lt settled) run
    rw [gain_graph]
    refine ⟨reaches.grown, reaches.wellFormed, (schedule_cursor ..).trans reaches.cursor, x, _,
      reaches.gains x, (valid.graph.ends _ edge).2, ?_⟩
    intro y same
    exact same ▸ reaches.inside

theorem Infers.valid {s t : Solver} (step : s.Infers t) (valid : s.Valid) : t.Valid := by
  obtain ⟨grown, wf, _, k, facts, gains, key, values⟩ := step.outcome valid
  exact valid.gains gains wf grown.size_le (Nat.lt_of_lt_of_le key grown.size_le) values

/-- Any number of inferences, one after the other. -/
def Inferences : Solver → Solver → Prop := Relation.ReflTransGen Infers

namespace Inferences
variable {s t u : Solver}

theorem trans (first : s.Inferences t) (second : t.Inferences u) : s.Inferences u :=
  Relation.ReflTransGen.trans first second

theorem valid (run : s.Inferences t) (valid : s.Valid) : t.Valid := by
  induction run with
  | refl => exact valid
  | tail _ step ih => exact step.valid ih

theorem grown (run : s.Inferences t) (valid : s.Valid) : s.graph.Grown t.graph := by
  induction run with
  | refl => exact .refl _
  | tail before step ih => exact ih.trans (step.outcome (Inferences.valid before valid)).1

theorem settledOf (run : s.Inferences t) (valid : s.Valid) (k : NodeId) :
    t.store.settledOf k = s.store.settledOf k := by
  induction run with
  | refl => rfl
  | tail before step ih =>
    obtain ⟨_, _, _, _, _, gains, _⟩ := step.outcome (Inferences.valid before valid)
    rw [gains.settled, ih]

theorem mem_get (run : s.Inferences t) (valid : s.Valid) {k : NodeId} {x : Nat} (member : x ∈ s.store.get k) :
    x ∈ t.store.get k := by
  induction run with
  | refl => exact member
  | tail before step ih =>
    obtain ⟨_, _, _, _, _, gains, _⟩ := step.outcome (Inferences.valid before valid)
    exact gains.mem_get.mpr (Or.inl ih)

theorem demands (run : s.Inferences t) (valid : s.Valid) {a b : NodeId} (demand : s.Demands a b) :
    t.Demands a b := by
  have grown := run.grown valid
  rcases demand with ⟨p, edge, settled⟩ | ⟨p, edge, settled⟩
  · exact Or.inl ⟨p, grown.mem_edges edge, by rw [run.settledOf valid]; exact settled⟩
  · exact Or.inr ⟨p, grown.mem_edges edge, by rw [run.settledOf valid]; exact settled⟩

end Inferences

end Solver

end PointsTo
