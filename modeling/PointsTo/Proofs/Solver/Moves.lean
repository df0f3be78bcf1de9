import PointsTo.Proofs.Solver.Turn

namespace PointsTo.Solver

/-- What handling constraints does to the state, piece by piece, whatever the state: its sets may hold numbers of no
node, so that a run comes to a fault, and until then there is nothing else that happens. -/
inductive Move (s : Solver) : Solver → Prop
  | copy {a b graph e} (copyEdges : Nat) : s.graph.addEdge ⟨a, b, .copy⟩ = .ok (graph, e) →
      Move s { s with graph, copyEdges }
  | access {offset o r m} : s.reach offset o = .ok (r, m) → Move s { r with store := r.store.init m }
  | send (n : NodeId) (facts : PointeeSet) : Move s (s.send n facts)
  | gain (n x : NodeId) : Move s (s.gain n x)
  | note (cursor : Nat) (log : Array Event) : Move s { s with cursor, log }

def Moves : Solver → Solver → Prop := Relation.ReflTransGen Move

variable {s t : Solver}

theorem Move.processed (move : s.Move t) : t.processed = s.processed := by
  cases move with
  | copy _ _ => rfl
  | access run =>
    obtain ⟨graph, log, rfl⟩ := reach_frame run
    rfl
  | send n facts => exact schedule_processed ..
  | gain n x => exact schedule_processed ..
  | note _ _ => rfl

theorem Moves.processed (moves : s.Moves t) : t.processed = s.processed := by
  induction moves with
  | refl => rfl
  | tail _ move ih => exact move.processed.trans ih

/-- If each item is worked off by moves, the whole list is. -/
theorem foldlM_moves {α : Type} {f : Solver → α → Except Fault Solver} (step : ∀ b a c, f b a = .ok c → b.Moves c)
    {xs : List α} (run : xs.foldlM f s = .ok t) : s.Moves t :=
  foldlM_keeps (P := fun u => s.Moves u) (fun x _ b c before first => before.trans (step b x c first)) .refl run

section handlers
variable {facts : PointeeSet} {e : EdgeId}

theorem link_moves {a b : NodeId} (run : s.link a b = .ok t) : s.Moves t := by
  obtain ⟨⟨graph, added⟩, edge, rest⟩ := bind_eq_ok_iff.mp run
  cases added with
  | none =>
    cases rest
    exact .single (.copy s.copyEdges edge)
  | some e =>
    cases rest
    exact .tail (.single (.copy (s.copyEdges + 1) edge)) (.send b (s.store.get a))

theorem processCopy_moves (run : processCopy facts s e = .ok t) : s.Moves t := by
  obtain ⟨edge, _, rest⟩ := bind_eq_ok_iff.mp run
  cases rest
  exact .single (.send edge.target facts)

theorem processLoad_moves (run : processLoad facts s e = .ok t) : s.Moves t := by
  obtain ⟨edge, _, rest⟩ := bind_eq_ok_iff.mp run
  exact foldlM_moves (fun _ _ _ => link_moves) rest

theorem processStore_moves (run : processStore facts s e = .ok t) : s.Moves t := by
  obtain ⟨edge, _, rest⟩ := bind_eq_ok_iff.mp run
  exact foldlM_moves (fun _ _ _ => link_moves) rest

theorem gainField_moves {target o : NodeId} {offset : Offset} (run : gainField target offset s o = .ok t) :
    s.Moves t := by
  obtain ⟨⟨r, m⟩, reached, rest⟩ := bind_eq_ok_iff.mp run
  cases rest
  exact .tail (.single (.access reached)) (.gain target m)

theorem processGep_moves (run : processGep facts s e = .ok t) : s.Moves t := by
  obtain ⟨edge, _, rest⟩ := bind_eq_ok_iff.mp run
  split at rest
  · rename_i offset _
    have each := (foldlM_sendField edge.target offset facts.toList s false).symm.trans rest
    exact foldlM_moves (fun _ _ _ => gainField_moves) each
  · cases rest

end handlers

/-- Processing a node settles its pending facts. If there are none, that is all; otherwise the node counts as processed, and
moves follow. -/
theorem process_moves {n : NodeId} (run : s.process n = .ok t) :
    (s.store.pendingOf n).isEmpty = true ∧ t = { s with store := (s.store.flush n).2 } ∨
      (s.store.pendingOf n).isEmpty = false ∧
        { s with store := (s.store.flush n).2, processed := s.processed + 1 }.Moves t := by
  rw [← DiffStore.flush_facts]
  unfold process at run
  dsimp only at run
  split at run
  · rename_i nothing
    cases run
    exact Or.inl ⟨nothing, rfl⟩
  · rename_i pending
    obtain ⟨afterCopy, copied, run⟩ := bind_eq_ok_iff.mp run
    obtain ⟨afterLoad, loaded, run⟩ := bind_eq_ok_iff.mp run
    obtain ⟨afterStore, stored, accessed⟩ := bind_eq_ok_iff.mp run
    have first := foldlM_moves (fun _ _ _ => processCopy_moves) copied
    have second := foldlM_moves (fun _ _ _ => processLoad_moves) loaded
    have third := foldlM_moves (fun _ _ _ => processStore_moves) stored
    have fourth := foldlM_moves (fun _ _ _ => processGep_moves) accessed
    exact Or.inr ⟨Bool.eq_false_iff.mpr pending, ((first.trans second).trans third).trans fourth⟩

theorem seed_moves {e : EdgeId} (run : s.seed e = .ok t) : s.Moves t := by
  obtain ⟨edge, _, rest⟩ := bind_eq_ok_iff.mp run
  cases rest
  exact .tail (.single (.note (s.cursor + 1) s.log)) (.gain edge.target edge.source)

theorem activate_moves (run : s.activate = .ok t) : s.Moves t := by
  obtain ⟨seeded, seeds, rest⟩ := bind_eq_ok_iff.mp run
  cases rest
  exact .tail (foldlM_moves (fun _ _ _ => seed_moves) seeds) (.note seeded.cursor _)

/-- Draining the queue is taking turns. -/
theorem drain_turns {steps : Nat} (run : s.drain steps = .ok t) : ∃ k, s.Turns k t := by
  induction steps generalizing s with
  | zero =>
    cases run
    exact ⟨0, .start⟩
  | succ steps ih =>
    unfold drain at run
    split at run
    · cases run
      exact ⟨0, .start⟩
    · rename_i n queue next
      obtain ⟨u, processed, rest⟩ := bind_eq_ok_iff.mp run
      obtain ⟨k, turns⟩ := ih rest
      exact ⟨k + 1, .cons ⟨n, queue, next, processed⟩ turns⟩

theorem solve_turns (run : s.solve = .ok t) : ∃ u k, { s with queue := .empty }.activate = .ok u ∧ u.Turns k t := by
  obtain ⟨u, active, drained⟩ := bind_eq_ok_iff.mp run
  obtain ⟨k, turns⟩ := drain_turns drained
  exact ⟨u, k, active, turns⟩

end PointsTo.Solver
