import PointsTo.Proofs.Solver.Effect

namespace PointsTo

namespace DiffStore

/-- The key has an entry on both sides. -/
def HasEntry (s : DiffStore) (k : NodeId) : Prop := k ∈ s.pending ∧ k ∈ s.settled

theorem init_of_hasEntry {s : DiffStore} {k : NodeId} (entry : s.HasEntry k) : s.init k = s := by
  rw [init, insertIfNew_of_mem entry.1, insertIfNew_of_mem entry.2]

theorem hasEntry_init {s : DiffStore} {k j : NodeId} : (s.init k).HasEntry j ↔ j = k ∨ s.HasEntry j := by
  simp only [HasEntry, init, Std.TreeMap.mem_insertIfNew, Nat.compare_eq_eq, eq_comm (a := k), ← or_and_left]

namespace HasEntry
variable {s : DiffStore} {j : NodeId} (entry : s.HasEntry j)

include entry

theorem add (k : NodeId) (e : Nat) : (s.add k e).1.HasEntry j := by
  unfold DiffStore.add
  split
  · exact entry
  · exact ⟨Std.TreeMap.mem_insert.mpr (Or.inr entry.1), entry.2⟩

theorem unite (k : NodeId) (source : PointeeSet) : (s.unite k source).1.HasEntry j := by
  have settled : j ∈ s.settled.insertIfNew k .empty := Std.TreeMap.mem_insertIfNew.mpr (Or.inr entry.2)
  simp only [DiffStore.unite]
  split
  · exact ⟨entry.1, settled⟩
  · exact ⟨Std.TreeMap.mem_insert.mpr (Or.inr entry.1), settled⟩

theorem flush (k : NodeId) : (s.flush k).2.HasEntry j := by
  unfold DiffStore.flush
  split
  · exact entry
  · exact ⟨Std.TreeMap.mem_insert.mpr (Or.inr entry.1), Std.TreeMap.mem_insert.mpr (Or.inr entry.2)⟩

end HasEntry

theorem hasEntry_foldl_init {ks : List NodeId} {s : DiffStore} {k : NodeId} :
    (ks.foldl init s).HasEntry k ↔ k ∈ ks ∨ s.HasEntry k := by
  induction ks generalizing s with
  | nil => simp
  | cons j ks ih => rw [List.foldl_cons, ih, hasEntry_init, List.mem_cons, or_left_comm, or_assoc]

theorem foldl_init_of_hasEntry {ks : List NodeId} {s : DiffStore} (entries : ∀ k ∈ ks, s.HasEntry k) :
    ks.foldl init s = s := by
  induction ks with
  | nil => rfl
  | cons k ks ih =>
    rw [List.foldl_cons, init_of_hasEntry (entries k List.mem_cons_self)]
    exact ih fun j member => entries j (List.mem_cons_of_mem k member)

end DiffStore

namespace Solver

/-- Every node has an entry in the store. -/
def Entered (s : Solver) : Prop := ∀ n < s.graph.nodes.size, s.store.HasEntry n

theorem Step.entered {s t : Solver} (valid : s.Valid) (step : s.Step t) (entered : s.Entered) : t.Entered := by
  intro n bound
  cases step with
  | seed _ _ =>
    rw [gain_graph] at bound
    rw [gain, schedule_store]
    exact (entered n bound).add ..
  | record _ => exact entered n bound
  | settle _ => exact (entered n bound).flush _
  | infer step =>
    cases step with
    | copy _ _ =>
      rw [send_graph] at bound
      rw [send, schedule_store]
      exact (entered n bound).unite ..
    | link _ _ =>
      rw [send_graph, linked, Graph.nodes_appendEdge] at bound
      rw [send, schedule_store]
      exact (entered n bound).unite ..
    | @access p x offset o r m _ settled run =>
      -- the only node that may be new is the one that is entered here
      have reaches := valid.reaches (valid.settled_lt settled) run
      rw [gain_graph] at bound
      rw [gain, schedule_store]
      apply DiffStore.HasEntry.add
      rw [DiffStore.hasEntry_init, reaches.store]
      by_cases old : n < s.graph.nodes.size
      · exact Or.inr (entered n old)
      · exact Or.inl (reaches.fresh n (Nat.not_lt.mp old) bound)

theorem entered_prepare (s : Solver) (limit : Nat) : (s.prepare limit).Entered := by
  intro n bound
  exact DiffStore.hasEntry_foldl_init.mpr (Or.inl (List.mem_range.mpr bound))

/-- Where every node has an entry and the limit is the one that is set, there is nothing to prepare. -/
theorem Entered.prepare {s : Solver} (entered : s.Entered) :
    s.prepare s.graph.fieldLimit =
      s.record (.initialized s.graph.nodes.size s.graph.edges.size s.graph.indirectCalls.size) := by
  have store : (List.range s.graph.nodes.size).foldl .init s.store = s.store :=
    DiffStore.foldl_init_of_hasEntry fun n member => entered n (List.mem_range.mp member)
  simp only [Solver.prepare, store]

/-- Where all address edges have had their turn, no node waits, and there is nothing to solve. -/
theorem solve_of_finished {s : Solver} (finished : s.graph.addrEdges.size ≤ s.cursor) :
    s.solve = .ok ({ s with queue := .empty }.record (.activated 0)) := by
  have none : s.graph.addrEdges.toList.drop s.cursor = [] := List.drop_eq_nil_iff.mpr (by simpa using finished)
  have active : { s with queue := .empty }.activate = .ok ({ s with queue := .empty }.record (.activated 0)) := by
    simp only [activate, none]
    rfl
  rw [solve, active]
  change drain _ _ = _
  generalize Solver.stepBound _ = steps
  cases steps <;> rfl

/-- What a state keeps that a run has nothing to add to: the graph, both sides of the store, the cursor and the
counters. -/
structure Same (s t : Solver) : Prop where
  graph : t.graph = s.graph
  store : t.store = s.store
  cursor : t.cursor = s.cursor
  processed : t.processed = s.processed
  copyEdges : t.copyEdges = s.copyEdges

theorem Entered.analyze {s : Solver} (entered : s.Entered) (finished : s.graph.addrEdges.size ≤ s.cursor) :
    ∃ t, s.analyze s.graph.fieldLimit = .ok t ∧ s.Same t := by
  have prepared := entered.prepare
  generalize Event.initialized .. = event at prepared
  refine ⟨(({ s.record event with queue := .empty }.record (.activated 0)).record
    (.propagated s.processed s.copyEdges)).record .solved, ?_, rfl, rfl, rfl, rfl, rfl⟩
  rw [Solver.analyze, propagate, prepared, solve_of_finished (s := s.record event) finished]
  rfl

theorem Step.graph_eq_or_larger {s t : Solver} (step : s.Step t) (valid : s.Valid) :
    t.graph = s.graph ∨ s.graph.nodes.size < t.graph.nodes.size ∨ s.graph.edges.size < t.graph.edges.size := by
  cases step with
  | seed _ _ => exact Or.inl (gain_graph ..)
  | record _ => exact Or.inl rfl
  | settle _ => exact Or.inl rfl
  | infer step =>
    cases step with
    | copy _ _ => exact Or.inl (send_graph ..)
    | link _ _ =>
      rw [send_graph, linked, Graph.edges_appendEdge, Array.size_push]
      exact Or.inr (Or.inr (Nat.lt_succ_self _))
    | access _ _ run =>
      rw [gain_graph]
      rcases (reach_outcome run).2 with same | ⟨k, found⟩
      · exact Or.inl same
      · rcases valid.graph.field_cases found with same | ⟨base, offset, same, _⟩
        · exact Or.inl same
        · rw [same, Graph.addField, Array.size_push]
          exact Or.inr (Or.inl (Nat.lt_succ_self _))

/-- A run that adds neither nodes nor edges leaves the graph alone. -/
theorem Steps.graph_eq {s t : Solver} (run : s.Steps t) (valid : s.Valid)
    (nodes : t.graph.nodes.size ≤ s.graph.nodes.size) (edges : t.graph.edges.size ≤ s.graph.edges.size) :
    t.graph = s.graph := by
  have outcome := (run.keeps (P := fun t => t.graph = s.graph ∨ s.graph.nodes.size < t.graph.nodes.size ∨
    s.graph.edges.size < t.graph.edges.size) (fun u v validU step before => by
      rcases before with same | larger
      · rw [← same]
        exact step.graph_eq_or_larger validU
      · have grown := step.grown validU
        have moreNodes := grown.size_le
        have moreEdges := grown.edges_size_le
        omega) valid (Or.inl rfl)).2
  rcases outcome with same | larger
  · exact same
  · omega

namespace Analyzed
variable {g : Graph} {limit : Nat} {t : Solver} (done : Analyzed g limit t) (built : g.Built)

include done

theorem fieldLimit : t.graph.fieldLimit = limit := done.grown.fieldLimit

theorem limited : { t.graph with fieldLimit := limit } = t.graph := by
  rw [← done.fieldLimit]

theorem grown_again {u : Solver} (again : Analyzed t.graph limit u) : t.graph.Grown u.graph :=
  done.limited ▸ again.grown

include built

theorem finished : t.graph.addrEdges.size ≤ t.cursor := by
  obtain ⟨t', run, _, _, finished⟩ := analyze_run built limit
  cases run.symm.trans done.run
  exact finished

theorem key_lt {n x : NodeId} (fact : x ∈ t.store.get n) : n < t.graph.nodes.size :=
  ((done.steps built).follows (stable_prepare built limit).toRested.valid (built.fieldLimit limit).wellFormed
    (follows_of_no_facts (not_mem_get_prepare g limit))).keys n x fact

theorem entered : t.Entered :=
  (done.steps built).keeps_prepare built (fun _ _ valid step => step.entered valid) (entered_prepare _ limit)

/-- An analysis of the graph that an analysis ended with comes to the same sets. -/
theorem mem_get_again {u : Solver} (again : Analyzed t.graph limit u) {n x : NodeId} :
    x ∈ u.store.get n ↔ x ∈ t.store.get n := by
  have grown := done.grown_again again
  constructor
  · intro fact
    have derived := again.mem_get_iff.mp fact
    rw [done.limited] at derived
    obtain ⟨n', x', atN, atX, known⟩ := derived.least (solves_solution done.stable.graph done.satisfied)
    have boundN := done.key_lt built known
    have boundX := done.stable.facts n' x' known
    rw [← grown.location_eq boundN] at atN
    rw [← grown.location_eq boundX] at atX
    rw [← again.stable.graph.location_injective atN, ← again.stable.graph.location_injective atX]
    exact known
  · intro fact
    have boundN := done.key_lt built fact
    have boundX := done.stable.facts n x fact
    have whole := done.grown.trans grown
    have solves : { g with fieldLimit := limit }.Solves u.solution := by
      intro edge member
      obtain ⟨source, target⟩ := built.wellFormed.ends edge member
      have obeyed := solves_solution again.stable.graph again.satisfied edge (whole.mem_edges member)
      exact obeyed.transfer (whole.location_eq source).symm (whole.location_eq target).symm
        fun p k => (whole.part_eq p k).symm
    have known := (done.mem_get_iff.mp fact).least solves
    rw [← grown.location_eq boundN, ← grown.location_eq boundX] at known
    exact (solution_location again.stable.graph).mp known

theorem newEdges_again {u : Solver} (again : Analyzed t.graph limit u) : t.graph.newEdges u.graph = [] := by
  rw [List.eq_nil_iff_forall_not_mem]
  intro edge new
  obtain ⟨copy, asks, absent⟩ := (again.mem_newEdges (done.built_graph built)).mp new
  have asked : t.AsksCopy t.graph edge.source edge.target := by
    simpa only [AsksCopy, done.mem_get_again built again] using asks
  have member := done.stable.mem_edges_of_asks (fun _ => id) asked
  rw [← copy] at member
  exact absent member

theorem newNodes_again {u : Solver} (again : Analyzed t.graph limit u) : t.graph.newNodes u.graph = [] := by
  have grown := done.grown_again again
  rw [List.eq_nil_iff_forall_not_mem]
  intro node new
  obtain ⟨base, k, object, _, rfl, ⟨p, x, j, o, edge, fact, part⟩, absent⟩ :=
    (again.mem_newNodes (done.built_graph built)).mp new
  have known := (done.mem_get_again built again).mp fact
  obtain ⟨m, _, here, _⟩ := done.satisfied _ edge o known
  rw [grown.location_eq (done.stable.facts p o known), grown.part_eq] at part
  exact absent m (Graph.kind?_of_location (here.trans part))

theorem graph_again {u : Solver} (again : Analyzed t.graph limit u) : u.graph = t.graph := by
  have builtT := done.built_graph built
  have nodes : u.graph.nodes.toList = t.graph.nodes.toList ++ t.graph.newNodes u.graph := again.grown.nodes_append
  have edges : u.graph.edges.toList = t.graph.edges.toList ++ t.graph.newEdges u.graph := again.grown.edges_append
  rw [done.newNodes_again built again, List.append_nil] at nodes
  rw [done.newEdges_again built again, List.append_nil] at edges
  have unchanged := (again.steps builtT).graph_eq (stable_prepare builtT limit).toRested.valid
    (Nat.le_of_eq (congrArg List.length nodes)) (Nat.le_of_eq (congrArg List.length edges))
  exact unchanged.trans done.limited

end Analyzed

/-- Once an analysis is over, analyzing again from its state changes nothing, and analyzing its graph anew adds no node
and no edge and gives every node the same set. -/
theorem analyze_fixpoint {g : Graph} (built : g.Built) (limit : Nat) :
    ∃ t, (ofGraph g).analyze limit = .ok t ∧ (∃ u, t.analyze limit = .ok u ∧ t.Same u) ∧
      ∃ v, (ofGraph t.graph).analyze limit = .ok v ∧ v.graph = t.graph ∧ v.copyEdges = 0 ∧
        ∀ n x, x ∈ v.store.get n ↔ x ∈ t.store.get n := by
  obtain ⟨t, done⟩ := exists_analyzed built limit
  have builtT := done.built_graph built
  obtain ⟨v, again⟩ := exists_analyzed builtT limit
  have graph := done.graph_again built again
  refine ⟨t, done.run, ?_, v, again.run, graph, ?_, fun n x => done.mem_get_again built again⟩
  · have rerun := (done.entered built).analyze (done.finished built)
    rw [done.fieldLimit] at rerun
    exact rerun
  · have count := again.edges_size builtT
    rw [graph] at count
    omega

/-- The first analysis creates two fields and adds two copy edges. The new one has as many nodes to process but the two
edges are there, so that it adds none. -/
theorem analyze_fixpoint_twoFields :
    ∃ t, (ofGraph (Graph.callback Graph.twoFields)).analyze 8 = .ok t ∧ t.graph.nodes.size = 9 ∧ t.copyEdges = 2 ∧
      t.processed = 6 ∧ (t.store.get 6).toList = [1] ∧ (∃ u, t.analyze 8 = .ok u ∧ t.Same u) ∧
      ∃ v, (ofGraph t.graph).analyze 8 = .ok v ∧ v.graph = t.graph ∧ v.copyEdges = 0 ∧ v.processed = 6 ∧
        ∀ n x, x ∈ v.store.get n ↔ x ∈ t.store.get n := by
  have first : ((ofGraph (Graph.callback Graph.twoFields)).analyze 8).toOption.any fun t =>
      t.graph.nodes.size = 9 ∧ t.copyEdges = 2 ∧ t.processed = 6 ∧ (t.store.get 6).toList = [1] := by decide +kernel
  have second : ((ofGraph (Graph.callback Graph.twoFields)).analyze 8 >>= fun t =>
      (ofGraph t.graph).analyze 8).toOption.any fun v => v.processed = 6 := by decide +kernel
  obtain ⟨t, run, same, v, again, graph, none, sets⟩ := analyze_fixpoint (Graph.built_callback Graph.twoFields_ends) 8
  rw [run] at first
  rw [bind_eq_ok_iff.mpr ⟨t, run, again⟩] at second
  obtain ⟨nodes, copies, processed, facts⟩ := of_decide_eq_true first
  exact ⟨t, run, nodes, copies, processed, facts, same, v, again, graph, none, of_decide_eq_true second, sets⟩

end Solver

end PointsTo
