import PointsTo.Proofs.Solver.Inference

namespace PointsTo

/-- The node whose facts set the constraint of an edge to work. -/
def Edge.pointer (edge : Edge) : NodeId :=
  match edge.kind with
  | .store => edge.target
  | _ => edge.source

theorem DiffStore.pendingOf_partOf_flush (s : DiffStore) (k : NodeId) :
    (s.pendingOf k).PartOf ((s.flush k).2.settledOf k) := by
  rw [← flush_facts]
  unfold flush
  split
  · exact ⟨fun x member => absurd member (PointeeSet.not_mem_empty x), Nat.zero_le _⟩
  · rename_i facts _
    have settled : (s.settled.insert k ((s.settledOf k).union facts).1).getD k .empty =
        ((s.settledOf k).union facts).1 := Std.TreeMap.getD_insert_self
    change facts.PartOf ((s.settled.insert k _).getD k .empty)
    rw [settled]
    exact PointeeSet.partOf_union ..

theorem DenseSet.insert_insert (s : DenseSet) (x : Nat) : ((s.insert x).1.insert x).1 = (s.insert x).1 := by
  refine eq_of_mem ?_ ?_
  · have room : wordsFor (x + 1) ≤ (s.insert x).1.words.size := by
      rw [size_insert]
      exact le_size_ensure s (x + 1)
    rw [size_insert, ensure, if_pos room]
  · intro y
    simp [mem_insert]

theorem Worklist.push_of_waiting {q : Worklist} {x : Nat} (waits : x ∈ q.waiting)
    (stable : (q.waiting.insert x).1 = q.waiting) : (q.push x).1 = q := by
  have flag := DenseSet.insert_new q.waiting x
  rw [show q.waiting.contains x = true from waits] at flag
  unfold push
  split
  · rename_i inserted
    rw [inserted] at flag
    cases flag
  · rename_i waiting inserted
    rw [inserted] at stable
    change waiting = q.waiting at stable
    rw [stable]

theorem Worklist.push_push (q : Worklist) (x : Nat) : ((q.push x).1.push x).1 = (q.push x).1 := by
  apply push_of_waiting
  · rw [waiting_push]
    exact DenseSet.mem_insert.mpr (Or.inl rfl)
  · rw [waiting_push]
    exact DenseSet.insert_insert q.waiting x

namespace Solver

theorem schedule_schedule (s : Solver) (n : NodeId) (first second : Bool) :
    (s.schedule n first).schedule n second = s.schedule n (first || second) := by
  cases first <;> cases second <;> simp [schedule, Worklist.push_push]

/-- Adds to `target` what an access to a field of `o` reaches, and lets `target` wait at once. -/
def gainField (target : NodeId) (offset : Offset) (s : Solver) (o : NodeId) : Except Fault Solver := do
  let (r, m) ← s.reach offset o
  return { r with store := r.store.init m }.gain target m

theorem reach_schedule (s : Solver) (n : NodeId) (grew : Bool) (offset : Offset) (o : NodeId) :
    (s.schedule n grew).reach offset o = (s.reach offset o).map fun (r, m) => (r.schedule n grew, m) := by
  cases offset with
  | variant => rfl
  | constant k =>
    rw [reach_constant, reach_constant, schedule_graph]
    cases s.graph.locate o k with
    | error fault => rfl
    | ok found => cases grew <;> rfl

/-- Letting the target wait after every fact comes to the same as doing so once at the end. -/
theorem foldlM_sendField (target : NodeId) (offset : Offset) (facts : List NodeId) (s : Solver) (grew : Bool) :
    (do
      let (s, grew) ← facts.foldlM (fun (s, grew) o => do
        let (s, new) ← sendField target offset s o
        return (s, grew || new)) (s, grew)
      return s.schedule target grew) =
    facts.foldlM (gainField target offset) (s.schedule target grew) := by
  induction facts generalizing s grew with
  | nil => rfl
  | cons o facts ih =>
    rw [List.foldlM_cons, List.foldlM_cons, gainField, reach_schedule]
    cases run : s.reach offset o with
    | error fault =>
      have failed : sendField target offset s o = .error fault := by
        unfold sendField
        rw [run]
        rfl
      simp only [failed]
      rfl
    | ok reached =>
      obtain ⟨r, m⟩ := reached
      have sent : sendField target offset s o =
          .ok ({ r with store := ((r.store.init m).add target m).1 }, ((r.store.init m).add target m).2) := by
        unfold sendField
        rw [run]
        rfl
      have next := ih { r with store := ((r.store.init m).add target m).1 } (grew || ((r.store.init m).add target m).2)
      rw [← schedule_schedule] at next
      have later : ({ r with store := ((r.store.init m).add target m).1 }.schedule target grew).schedule target
          ((r.store.init m).add target m).2 =
          { (r.schedule target grew) with store := (r.schedule target grew).store.init m }.gain target m := by
        cases grew <;> rfl
      rw [later] at next
      simp only [sent]
      exact next

/-- The constraint of an edge has been applied to the fact `o` of its pointer. -/
def Met (s : Solver) (o : NodeId) : Edge → Prop
  | ⟨_, _, .addr⟩ => True
  | ⟨_, x, .copy⟩ => o ∈ s.store.get x
  | ⟨_, r, .load⟩ => ⟨o, r, .copy⟩ ∈ s.graph.edges
  | ⟨q, _, .store⟩ => ⟨q, o, .copy⟩ ∈ s.graph.edges
  | ⟨_, x, .gep offset⟩ => ∃ m < s.graph.nodes.size,
      s.graph.location m = s.graph.reached offset (s.graph.location o) ∧ m ∈ s.store.get x

/-- What has been applied stays applied in a state that keeps the edges, the locations and the facts. -/
theorem Met.transfer {s t : Solver} {o : NodeId} {edge : Edge} (met : s.Met o edge)
    (edges : ∀ edge ∈ s.graph.edges, edge ∈ t.graph.edges) (size : s.graph.nodes.size ≤ t.graph.nodes.size)
    (location : ∀ n < s.graph.nodes.size, t.graph.location n = s.graph.location n)
    (reached : ∀ offset p, t.graph.reached offset p = s.graph.reached offset p)
    (facts : ∀ k x, x ∈ s.store.get k → x ∈ t.store.get k) (bound : o < s.graph.nodes.size) : t.Met o edge := by
  obtain ⟨source, target, kind⟩ := edge
  cases kind with
  | addr => trivial
  | copy => exact facts target o met
  | load => exact edges _ met
  | store => exact edges _ met
  | gep offset =>
    obtain ⟨m, inside, here, member⟩ := met
    refine ⟨m, Nat.lt_of_lt_of_le inside size, ?_, facts target m member⟩
    rw [location m inside, location o bound, reached, here]

theorem Met.grow {s t : Solver} {o : NodeId} {edge : Edge} (met : s.Met o edge) (bound : o < s.graph.nodes.size)
    (grown : s.graph.Grown t.graph) (facts : ∀ k x, x ∈ s.store.get k → x ∈ t.store.get k) : t.Met o edge :=
  met.transfer (fun _ => grown.mem_edges) grown.size_le (fun _ => grown.location_eq) grown.reached_eq facts bound

theorem Inferences.met {s t : Solver} (run : s.Inferences t) (valid : s.Valid) {o : NodeId}
    (bound : o < s.graph.nodes.size) {edge : Edge} (met : s.Met o edge) : t.Met o edge :=
  met.grow bound (run.grown valid) fun _ _ => run.mem_get valid

/-- A loop whose every step is made of inferences is made of inferences, and what each step has brought about still
holds at its end. -/
theorem foldlM_inferences {α : Type} (f : Solver → α → Except Fault Solver) (done : α → Solver → Prop)
    (xs : List α) {s : Solver} (valid : s.Valid)
    (step : ∀ x ∈ xs, ∀ t, t.Valid → s.Inferences t → ∃ u, f t x = .ok u ∧ t.Inferences u ∧ done x u)
    (keep : ∀ x ∈ xs, ∀ t u, t.Valid → s.Inferences t → t.Inferences u → done x t → done x u) :
    ∃ t, xs.foldlM f s = .ok t ∧ s.Inferences t ∧ ∀ x ∈ xs, done x t := by
  induction xs generalizing s with
  | nil => exact ⟨s, rfl, .refl, by simp⟩
  | cons x xs ih =>
    obtain ⟨t, first, toT, doneX⟩ := step x List.mem_cons_self s valid .refl
    have validT := toT.valid valid
    obtain ⟨u, rest, toU, doneRest⟩ := ih validT
      (fun y member v validV toV => step y (List.mem_cons_of_mem x member) v validV (toT.trans toV))
      (fun y member v w validV toV => keep y (List.mem_cons_of_mem x member) v w validV (toT.trans toV))
    refine ⟨u, ?_, toT.trans toU, ?_⟩
    · rw [List.foldlM_cons, first]
      exact rest
    · intro y member
      rcases List.mem_cons.mp member with same | later
      · exact same ▸ keep x List.mem_cons_self t u validT toT toU doneX
      · exact doneRest y later

theorem link_run {s : Solver} (valid : s.Valid) {a b : NodeId} (demand : s.Demands a b) :
    ∃ t, s.link a b = .ok t ∧ s.Inferences t ∧ ⟨a, b, .copy⟩ ∈ t.graph.edges := by
  obtain ⟨source, target⟩ := valid.demands_lt demand
  by_cases old : ⟨a, b, .copy⟩ ∈ s.graph.edges
  · have added : s.graph.addEdge ⟨a, b, .copy⟩ = .ok (s.graph, none) :=
      Graph.addEdge_eq_ok_iff.mpr ⟨source, target, valid.graph.insertEdge_of_mem old⟩
    refine ⟨s, ?_, .refl, old⟩
    rw [link, added]
    rfl
  · have added : s.graph.addEdge ⟨a, b, .copy⟩ = .ok (s.graph.appendEdge ⟨a, b, .copy⟩, some s.graph.edges.size) :=
      Graph.addEdge_eq_ok_iff.mpr ⟨source, target, valid.graph.insertEdge_of_not_mem old⟩
    refine ⟨(s.linked a b).send b (s.store.get a), ?_, .single (.link demand old), ?_⟩
    · rw [link, added]
      rfl
    · rw [send_graph]
      exact Graph.mem_edges_appendEdge.mpr (Or.inr rfl)

section handlers
variable {s : Solver} {facts : PointeeSet} {e : EdgeId}

theorem edge_eq_ok {g : Graph} {edge : Edge} (found : g.edges[e]? = some edge) : g.edge e = .ok edge := by
  rw [Graph.edge, found]

theorem processCopy_run {p x : NodeId} (found : s.graph.edges[e]? = some ⟨p, x, .copy⟩)
    (settled : facts.PartOf (s.store.settledOf p)) :
    ∃ t, processCopy facts s e = .ok t ∧ s.Inferences t ∧ ∀ o ∈ facts, t.Met o ⟨p, x, .copy⟩ := by
  refine ⟨s.send x facts, ?_, .single (.copy (Array.mem_iff_getElem?.mpr ⟨e, found⟩) settled), ?_⟩
  · rw [processCopy, edge_eq_ok found]
    rfl
  · exact fun o member => (gains_send s x facts).mem_get.mpr (Or.inr ⟨rfl, member⟩)

/-- Adding a copy edge for each fact, where `a` and `b` give its ends. -/
theorem links_run (valid : s.Valid) (a b : NodeId → NodeId) (demand : ∀ o ∈ facts, s.Demands (a o) (b o)) :
    ∃ t, facts.toList.foldlM (fun s o => s.link (a o) (b o)) s = .ok t ∧ s.Inferences t ∧
      ∀ o ∈ facts, ⟨a o, b o, .copy⟩ ∈ t.graph.edges := by
  obtain ⟨t, run, toT, added⟩ := foldlM_inferences (fun s o => s.link (a o) (b o))
    (fun o t => ⟨a o, b o, .copy⟩ ∈ t.graph.edges) facts.toList valid
    (fun o member t validT toT => link_run validT (toT.demands valid (demand o (PointeeSet.mem_toList.mp member))))
    (fun o _ t u validT _ toU => (toU.grown validT).mem_edges)
  exact ⟨t, run, toT, fun o member => added o (PointeeSet.mem_toList.mpr member)⟩

theorem processLoad_run (valid : s.Valid) {p r : NodeId} (found : s.graph.edges[e]? = some ⟨p, r, .load⟩)
    (settled : ∀ a ∈ facts, a ∈ s.store.settledOf p) :
    ∃ t, processLoad facts s e = .ok t ∧ s.Inferences t ∧ ∀ o ∈ facts, t.Met o ⟨p, r, .load⟩ := by
  have edge := Array.mem_iff_getElem?.mpr ⟨e, found⟩
  obtain ⟨t, run, toT, met⟩ := links_run valid (fun o => o) (fun _ => r)
    (fun o member => Or.inl ⟨p, edge, settled o member⟩)
  refine ⟨t, ?_, toT, met⟩
  rw [processLoad, edge_eq_ok found]
  exact run

theorem processStore_run (valid : s.Valid) {q p : NodeId} (found : s.graph.edges[e]? = some ⟨q, p, .store⟩)
    (settled : ∀ a ∈ facts, a ∈ s.store.settledOf p) :
    ∃ t, processStore facts s e = .ok t ∧ s.Inferences t ∧ ∀ o ∈ facts, t.Met o ⟨q, p, .store⟩ := by
  have edge := Array.mem_iff_getElem?.mpr ⟨e, found⟩
  obtain ⟨t, run, toT, met⟩ := links_run valid (fun _ => q) (fun o => o)
    (fun o member => Or.inr ⟨p, edge, settled o member⟩)
  refine ⟨t, ?_, toT, met⟩
  rw [processStore, edge_eq_ok found]
  exact run

theorem gainField_run (valid : s.Valid) {p x o : NodeId} {offset : Offset}
    (edge : ⟨p, x, .gep offset⟩ ∈ s.graph.edges) (settled : o ∈ s.store.settledOf p) :
    ∃ t, gainField x offset s o = .ok t ∧ s.Inferences t ∧ t.Met o ⟨p, x, .gep offset⟩ := by
  have bound := valid.settled_lt settled
  obtain ⟨r, m, run, reaches⟩ := valid.reach_total bound offset
  refine ⟨_, ?_, .single (.access edge settled run), m, ?_, ?_, ?_⟩
  · rw [gainField, run]
    rfl
  · rw [gain_graph]
    exact reaches.inside
  · rw [gain_graph, reaches.location, reaches.grown.reached_eq, reaches.grown.location_eq bound]
  · exact (reaches.gains x).mem_get.mpr (Or.inr ⟨rfl, rfl⟩)

theorem processGep_run (valid : s.Valid) {p x : NodeId} {offset : Offset}
    (found : s.graph.edges[e]? = some ⟨p, x, .gep offset⟩) (settled : ∀ a ∈ facts, a ∈ s.store.settledOf p) :
    ∃ t, processGep facts s e = .ok t ∧ s.Inferences t ∧ ∀ o ∈ facts, t.Met o ⟨p, x, .gep offset⟩ := by
  have edge := Array.mem_iff_getElem?.mpr ⟨e, found⟩
  have settledO : ∀ o ∈ facts.toList, o ∈ s.store.settledOf p :=
    fun o member => settled o (PointeeSet.mem_toList.mp member)
  obtain ⟨t, run, toT, met⟩ := foldlM_inferences (gainField x offset)
    (fun o t => t.Met o ⟨p, x, .gep offset⟩) facts.toList valid
    (fun o member t validT toT => gainField_run validT ((toT.grown valid).mem_edges edge)
      (by rw [toT.settledOf valid]; exact settledO o member))
    (fun o member t u validT toT toU => toU.met validT
      (Nat.lt_of_lt_of_le (valid.settled_lt (settledO o member)) (toT.grown valid).size_le))
  refine ⟨t, ?_, toT, fun o member => met o (PointeeSet.mem_toList.mpr member)⟩
  rw [processGep, edge_eq_ok found]
  exact (foldlM_sendField x offset facts.toList s false).trans run

end handlers

/-- Handling all edges of one family that `n` sets to work, in a turn that began at `s` and has come to `t`. -/
theorem handle_run {s t : Solver} (valid : s.Valid) (toT : s.Inferences t) {n : NodeId} {facts : PointeeSet}
    (settled : facts.PartOf (s.store.settledOf n)) {f : Solver → EdgeId → Except Fault Solver}
    {edges : List EdgeId} {family : EdgeFamily}
    (listed : ∀ e, e ∈ edges ↔ ∃ edge, t.graph.edges[e]? = some edge ∧ edge.kind.family = family ∧ edge.pointer = n)
    (handler : ∀ (t : Solver) e edge, t.Valid → t.graph.edges[e]? = some edge → edge.kind.family = family →
      facts.PartOf (t.store.settledOf edge.pointer) →
      ∃ u, f t e = .ok u ∧ t.Inferences u ∧ ∀ o ∈ facts, u.Met o edge) :
    ∃ u, edges.foldlM f t = .ok u ∧ s.Inferences u ∧
      (∀ o ∈ facts, ∀ edge, t.Met o edge → u.Met o edge) ∧
      ∀ edge ∈ s.graph.edges, edge.kind.family = family → edge.pointer = n → ∀ o ∈ facts, u.Met o edge := by
  have validT := toT.valid valid
  have settledT : facts.PartOf (t.store.settledOf n) := by
    rw [toT.settledOf valid]
    exact settled
  have inside : ∀ o ∈ facts, o < t.graph.nodes.size :=
    fun o inFacts => validT.settled_lt (settledT.elements o inFacts)
  obtain ⟨u, run, toU, met⟩ := foldlM_inferences f
    (fun e u => ∀ edge, t.graph.edges[e]? = some edge → ∀ o ∈ facts, u.Met o edge) edges validT
    (fun e member u validU toU => by
      obtain ⟨edge, found, sameFamily, pointer⟩ := (listed e).mp member
      obtain ⟨v, run, toV, met⟩ := handler u e edge validU ((toU.grown validT).edges e edge found) sameFamily
        (by rw [pointer, toU.settledOf validT]; exact settledT)
      refine ⟨v, run, toV, fun edge' found' => ?_⟩
      rw [found] at found'
      cases found'
      exact met)
    (fun e _ u v validU toU toV met edge found o inFacts =>
      toV.met validU (Nat.lt_of_lt_of_le (inside o inFacts) (toU.grown validT).size_le) (met edge found o inFacts))
  refine ⟨u, run, toT.trans toU, fun o inFacts edge => toU.met validT (inside o inFacts), ?_⟩
  intro edge member sameFamily pointer
  obtain ⟨e, found⟩ := Array.mem_iff_getElem?.mp ((toT.grown valid).mem_edges member)
  exact met e ((listed e).mpr ⟨edge, found, sameFamily, pointer⟩) edge found

theorem pointer_of_family {edge : Edge} {family : EdgeFamily} (same : edge.kind.family = family)
    (other : family ≠ .store) : edge.pointer = edge.source := by
  obtain ⟨source, target, kind⟩ := edge
  cases kind with
  | store => exact absurd same.symm other
  | _ => rfl

theorem outgoing_listed {g : Graph} (wf : g.WellFormed) (n : NodeId) (family : EdgeFamily) (other : family ≠ .store)
    (e : EdgeId) : e ∈ g.outgoing family n ↔
      ∃ edge, g.edges[e]? = some edge ∧ edge.kind.family = family ∧ edge.pointer = n := by
  rw [wf.outgoing]
  constructor
  · rintro ⟨edge, found, same, source⟩
    exact ⟨edge, found, same, (pointer_of_family same other).trans source⟩
  · rintro ⟨edge, found, same, pointer⟩
    exact ⟨edge, found, same, (pointer_of_family same other).symm.trans pointer⟩

theorem incoming_listed {g : Graph} (wf : g.WellFormed) (n : NodeId) (e : EdgeId) : e ∈ g.incoming .store n ↔
      ∃ edge, g.edges[e]? = some edge ∧ edge.kind.family = .store ∧ edge.pointer = n := by
  have pointer : ∀ edge : Edge, edge.kind.family = .store → edge.pointer = edge.target := by
    intro ⟨source, target, kind⟩ same
    cases kind with
    | store => rfl
    | _ => cases same
  rw [wf.incoming]
  constructor
  · rintro ⟨edge, found, same, target⟩
    exact ⟨edge, found, same, (pointer edge same).trans target⟩
  · rintro ⟨edge, found, same, atN⟩
    exact ⟨edge, found, same, (pointer edge same).symm.trans atN⟩

theorem process_eq {s : Solver} {n : NodeId} {x : Nat} (pending : x ∈ s.store.pendingOf n) (queue : Worklist) :
    { s with queue }.process n = (do
      let s' ← ((s.settle n queue).graph.outgoing .copy n).foldlM (processCopy (s.store.pendingOf n)) (s.settle n queue)
      let s' ← (s'.graph.outgoing .load n).foldlM (processLoad (s.store.pendingOf n)) s'
      let s' ← (s'.graph.incoming .store n).foldlM (processStore (s.store.pendingOf n)) s'
      (s'.graph.outgoing .gep n).foldlM (processGep (s.store.pendingOf n)) s') := by
  have some : (s.store.pendingOf n).isEmpty = false := by
    rw [Bool.eq_false_iff]
    exact fun empty => PointeeSet.isEmpty_iff.mp empty x pending
  rw [← DiffStore.flush_facts] at some ⊢
  unfold process
  simp only [some]
  rfl

/-- The turn of `n` settles its pending facts, makes inferences, and leaves no constraint of `n` unapplied to
them. -/
theorem process_run {s : Solver} (valid : s.Valid) {n : NodeId} {queue : Worklist}
    (next : s.queue.pop? = some (n, queue)) :
    ∃ t, { s with queue }.process n = .ok t ∧ (s.settle n queue).Inferences t ∧
      ∀ edge ∈ s.graph.edges, edge.pointer = n → ∀ o ∈ s.store.pendingOf n, t.Met o edge := by
  have waits : n ∈ s.queue.toList := by
    rw [Worklist.toList_pop? next]
    exact List.mem_cons_self
  obtain ⟨x, pending⟩ := (valid.waiting n).mp waits
  have validN := valid.settle next
  have settled : (s.store.pendingOf n).PartOf ((s.settle n queue).store.settledOf n) :=
    DiffStore.pendingOf_partOf_flush s.store n
  -- copy edges
  obtain ⟨t1, run1, to1, _, met1⟩ := handle_run validN .refl settled
    (outgoing_listed validN.graph n .copy (by decide))
    (fun t e edge _ found same settled => by
      obtain ⟨p, x, kind⟩ := edge
      cases kind with
      | copy => exact processCopy_run found settled
      | _ => cases same)
  -- load edges
  obtain ⟨t2, run2, to2, keep2, met2⟩ := handle_run validN to1 settled
    (outgoing_listed (to1.valid validN).graph n .load (by decide))
    (fun t e edge validT found same settled => by
      obtain ⟨p, x, kind⟩ := edge
      cases kind with
      | load => exact processLoad_run validT found settled.elements
      | _ => cases same)
  -- store edges
  obtain ⟨t3, run3, to3, keep3, met3⟩ := handle_run validN to2 settled
    (incoming_listed (to2.valid validN).graph n)
    (fun t e edge validT found same settled => by
      obtain ⟨p, x, kind⟩ := edge
      cases kind with
      | store => exact processStore_run validT found settled.elements
      | _ => cases same)
  -- field accesses
  obtain ⟨t4, run4, to4, keep4, met4⟩ := handle_run validN to3 settled
    (outgoing_listed (to3.valid validN).graph n .gep (by decide))
    (fun t e edge validT found same settled => by
      obtain ⟨p, x, kind⟩ := edge
      cases kind with
      | gep offset => exact processGep_run validT found settled.elements
      | _ => cases same)
  refine ⟨t4, ?_, to4, ?_⟩
  · rw [process_eq pending, run1]
    change ((t1.graph.outgoing .load n).foldlM (processLoad (s.store.pendingOf n)) t1 >>= _) = _
    rw [run2]
    change ((t2.graph.incoming .store n).foldlM (processStore (s.store.pendingOf n)) t2 >>= _) = _
    rw [run3]
    exact run4
  · intro edge member pointer o inFacts
    cases family : edge.kind.family with
    | addr =>
      obtain ⟨source, target, kind⟩ := edge
      cases kind with
      | addr => trivial
      | _ => cases family
    | copy =>
      have after1 := met1 edge member family pointer o inFacts
      exact keep4 o inFacts edge (keep3 o inFacts edge (keep2 o inFacts edge after1))
    | load =>
      have after2 := met2 edge member family pointer o inFacts
      exact keep4 o inFacts edge (keep3 o inFacts edge after2)
    | store => exact keep4 o inFacts edge (met3 edge member family pointer o inFacts)
    | gep => exact met4 edge member family pointer o inFacts

/-- One turn of the loop. -/
def Turn (s t : Solver) : Prop :=
  ∃ n queue, s.queue.pop? = some (n, queue) ∧ { s with queue }.process n = .ok t

/-- `s.Turns k t`: after `k` turns from `s` the state is `t`. -/
inductive Turns (s : Solver) : Nat → Solver → Prop
  | start : Turns s 0 s
  | next {k t u} : Turns s k t → t.Turn u → Turns s (k + 1) u

theorem Turns.cons {s t u : Solver} {k : Nat} (turn : s.Turn t) (turns : t.Turns k u) : s.Turns (k + 1) u := by
  induction turns with
  | start => exact .next .start turn
  | next _ last ih => exact .next ih last

theorem Turn.spec {s t : Solver} (turn : s.Turn t) (valid : s.Valid) :
    ∃ n queue, s.queue.pop? = some (n, queue) ∧ (s.settle n queue).Inferences t ∧
      ∀ edge ∈ s.graph.edges, edge.pointer = n → ∀ o ∈ s.store.pendingOf n, t.Met o edge := by
  obtain ⟨n, queue, next, run⟩ := turn
  obtain ⟨t', run', toT, met⟩ := process_run valid next
  rw [run] at run'
  cases run'
  exact ⟨n, queue, next, toT, met⟩

theorem Turn.valid {s t : Solver} (turn : s.Turn t) (valid : s.Valid) : t.Valid := by
  obtain ⟨n, queue, next, toT, _⟩ := turn.spec valid
  exact toT.valid (valid.settle next)

theorem Turns.valid {s t : Solver} {k : Nat} (turns : s.Turns k t) (valid : s.Valid) : t.Valid := by
  induction turns with
  | start => exact valid
  | next _ turn ih => exact turn.valid ih

end Solver

end PointsTo
