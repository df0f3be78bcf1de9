import PointsTo.DiffStore
import PointsTo.PointeeSet.Lemmas

namespace PointsTo.DiffStore

/-- The two parts of a key never overlap. -/
def Disjoint (s : DiffStore) : Prop := ∀ k x, x ∈ s.settledOf k → x ∉ s.pendingOf k

theorem mem_get {s : DiffStore} {k : NodeId} {x : Nat} :
    x ∈ s.get k ↔ x ∈ s.settledOf k ∨ x ∈ s.pendingOf k :=
  PointeeSet.mem_union

theorem contains_iff {s : DiffStore} {k : NodeId} {x : Nat} : s.contains k x = true ↔ x ∈ s.get k := by
  rw [mem_get, contains, Bool.or_eq_true]
  exact Iff.rfl

theorem not_mem_get_empty (k : NodeId) (x : Nat) : x ∉ empty.get k := by
  rw [mem_get]
  simp [empty, settledOf, pendingOf, PointeeSet.not_mem_empty]

theorem disjoint_empty : empty.Disjoint := fun k x settled => by
  simp [empty, settledOf, PointeeSet.not_mem_empty] at settled

/-- The parts stay apart where only what is not settled arrives. -/
theorem Disjoint.receive {s t : DiffStore} (apart : s.Disjoint) (settled : ∀ j, t.settledOf j = s.settledOf j)
    (pending : ∀ j x, x ∈ t.pendingOf j → x ∈ s.pendingOf j ∨ x ∉ s.settledOf j) : t.Disjoint := by
  intro j x old new
  rw [settled] at old
  rcases pending j x new with waiting | unsettled
  · exact apart j x old waiting
  · exact unsettled old

private theorem getD_insertIfNew (m : Std.TreeMap NodeId PointeeSet) (k j : NodeId) :
    (m.insertIfNew k .empty).getD j .empty = m.getD j .empty := by
  rw [Std.TreeMap.getD_insertIfNew]
  split
  · rename_i absent
    have same : k = j := Nat.compare_eq_eq.mp absent.1
    subst same
    exact (Std.TreeMap.getD_eq_fallback absent.2).symm
  · rfl

private theorem getD_insert (m : Std.TreeMap NodeId PointeeSet) (k j : NodeId) (set : PointeeSet) :
    (m.insert k set).getD j .empty = if j = k then set else m.getD j .empty := by
  rw [Std.TreeMap.getD_insert]
  by_cases same : j = k
  · rw [if_pos (Nat.compare_eq_eq.mpr same.symm), if_pos same]
  · rw [if_neg (fun equal => same (Nat.compare_eq_eq.mp equal).symm), if_neg same]

theorem settledOf_init (s : DiffStore) (k j : NodeId) : (s.init k).settledOf j = s.settledOf j :=
  getD_insertIfNew ..

theorem pendingOf_init (s : DiffStore) (k j : NodeId) : (s.init k).pendingOf j = s.pendingOf j :=
  getD_insertIfNew ..

theorem get_init (s : DiffStore) (k j : NodeId) : (s.init k).get j = s.get j := by
  rw [get, get, settledOf_init, pendingOf_init]

/-- Entries without facts change no set, however many there are. -/
theorem parts_foldl_init (ks : List NodeId) (s : DiffStore) (j : NodeId) :
    (ks.foldl init s).pendingOf j = s.pendingOf j ∧ (ks.foldl init s).settledOf j = s.settledOf j := by
  induction ks generalizing s with
  | nil => exact ⟨rfl, rfl⟩
  | cons k ks ih =>
    obtain ⟨pending, settled⟩ := ih (s.init k)
    exact ⟨pending.trans (pendingOf_init ..), settled.trans (settledOf_init ..)⟩

theorem get_foldl_init (ks : List NodeId) (s : DiffStore) (j : NodeId) : (ks.foldl init s).get j = s.get j := by
  rw [get, get, (parts_foldl_init ks s j).1, (parts_foldl_init ks s j).2]

theorem mem_keys {s : DiffStore} {k : NodeId} : k ∈ s.keys ↔ k ∈ s.settled := Std.TreeMap.mem_keys

theorem settledOf_add (s : DiffStore) (k : NodeId) (e : Nat) (j : NodeId) :
    (s.add k e).1.settledOf j = s.settledOf j := by
  unfold add
  split <;> rfl

theorem pendingOf_add (s : DiffStore) (k : NodeId) (e : Nat) (j : NodeId) :
    (s.add k e).1.pendingOf j =
      if j = k ∧ e ∉ s.settledOf k then ((s.pendingOf k).insert e).1 else s.pendingOf j := by
  unfold add
  split
  · rename_i settled
    rw [if_neg fun new => new.2 settled]
  · rename_i unsettled
    have unsettled : e ∉ s.settledOf k := unsettled
    simp only [unsettled, not_false_eq_true, and_true]
    exact getD_insert ..

theorem mem_pendingOf_add {s : DiffStore} {k : NodeId} {e : Nat} {j : NodeId} {x : Nat} :
    x ∈ (s.add k e).1.pendingOf j ↔
      x ∈ s.pendingOf j ∨ j = k ∧ x = e ∧ e ∉ s.settledOf k := by
  rw [pendingOf_add]
  split
  · rename_i new
    obtain ⟨rfl, unsettled⟩ := new
    rw [PointeeSet.mem_insert]
    simp only [unsettled, not_false_eq_true, and_true, true_and]
    exact or_comm
  · rename_i old
    exact ⟨Or.inl, fun h => h.elim id fun ⟨key, _, unsettled⟩ => absurd ⟨key, unsettled⟩ old⟩

theorem mem_get_add {s : DiffStore} {k : NodeId} {e : Nat} {j : NodeId} {x : Nat} :
    x ∈ (s.add k e).1.get j ↔ x ∈ s.get j ∨ j = k ∧ x = e := by
  rw [mem_get, mem_get, settledOf_add, mem_pendingOf_add]
  constructor
  · rintro (settled | pending | ⟨key, value, _⟩)
    · exact Or.inl (Or.inl settled)
    · exact Or.inl (Or.inr pending)
    · exact Or.inr ⟨key, value⟩
  · rintro ((settled | pending) | ⟨key, value⟩)
    · exact Or.inl settled
    · exact Or.inr (Or.inl pending)
    · by_cases settled : e ∈ s.settledOf k
      · exact Or.inl (key ▸ value ▸ settled)
      · exact Or.inr (Or.inr ⟨key, value, settled⟩)

theorem add_new {s : DiffStore} {k : NodeId} {e : Nat} : (s.add k e).2 = true ↔ e ∉ s.get k := by
  rw [mem_get, not_or]
  unfold add
  split
  · rename_i settled
    have settled : e ∈ s.settledOf k := settled
    simp [settled]
  · rename_i unsettled
    have unsettled : e ∉ s.settledOf k := unsettled
    rw [PointeeSet.insert_new_iff]
    exact ⟨fun absent => ⟨unsettled, absent⟩, And.right⟩

theorem settledOf_unite (s : DiffStore) (k : NodeId) (source : PointeeSet) (j : NodeId) :
    (s.unite k source).1.settledOf j = s.settledOf j := by
  unfold unite
  dsimp only
  split <;> exact getD_insertIfNew ..

/-- What is new of `source` for `k`, unless it waits already. -/
private theorem fresh_eq (s : DiffStore) (k : NodeId) (source : PointeeSet) :
    source.subtract (settledOf { s with settled := s.settled.insertIfNew k .empty } k) =
      source.subtract (s.settledOf k) :=
  congrArg source.subtract (getD_insertIfNew ..)

theorem pendingOf_unite (s : DiffStore) (k : NodeId) (source : PointeeSet) (j : NodeId) :
    (s.unite k source).1.pendingOf j =
      if j = k ∧ (source.subtract (s.settledOf k)).1.isEmpty = false then
        ((s.pendingOf k).union (source.subtract (s.settledOf k)).1).1
      else s.pendingOf j := by
  unfold unite
  simp only [fresh_eq]
  split
  · rename_i nothing
    simp [nothing, pendingOf]
  · rename_i something
    simp only [something, and_true]
    exact getD_insert ..

theorem mem_pendingOf_unite {s : DiffStore} {k : NodeId} {source : PointeeSet} {j : NodeId} {x : Nat} :
    x ∈ (s.unite k source).1.pendingOf j ↔
      x ∈ s.pendingOf j ∨ j = k ∧ x ∈ source ∧ x ∉ s.settledOf k := by
  rw [pendingOf_unite, ← PointeeSet.mem_subtract]
  split
  · rename_i something
    rw [PointeeSet.mem_union, something.1]
    simp only [true_and]
  · rename_i nothing
    refine ⟨Or.inl, fun h => h.elim id fun ⟨key, fresh⟩ => absurd ⟨key, ?_⟩ nothing⟩
    rw [← Bool.not_eq_true, PointeeSet.isEmpty_iff]
    exact fun none => none x fresh

theorem unite_new {s : DiffStore} {k : NodeId} {source : PointeeSet} :
    (s.unite k source).2 = true ↔ ∃ x ∈ source, x ∉ s.get k := by
  unfold unite
  simp only [fresh_eq]
  split
  · rename_i nothing
    have nothing := PointeeSet.isEmpty_iff.mp nothing
    simp only [Bool.false_eq_true, false_iff]
    rintro ⟨x, member, absent⟩
    rw [mem_get, not_or] at absent
    exact nothing x (PointeeSet.mem_subtract.mpr ⟨member, absent.1⟩)
  · change ((s.pendingOf k).union (source.subtract (s.settledOf k)).1).2 = true ↔ _
    rw [PointeeSet.union_changed]
    constructor
    · rintro ⟨x, fresh, absent⟩
      obtain ⟨member, unsettled⟩ := PointeeSet.mem_subtract.mp fresh
      exact ⟨x, member, by rw [mem_get, not_or]; exact ⟨unsettled, absent⟩⟩
    · rintro ⟨x, member, absent⟩
      rw [mem_get, not_or] at absent
      exact ⟨x, PointeeSet.mem_subtract.mpr ⟨member, absent.1⟩, absent.2⟩

theorem flush_facts (s : DiffStore) (k : NodeId) : (s.flush k).1 = s.pendingOf k := by
  unfold flush pendingOf
  rw [Std.TreeMap.getD_eq_getD_getElem?]
  split <;> rename_i entry <;> rw [entry] <;> rfl

theorem pendingOf_flush (s : DiffStore) (k j : NodeId) :
    (s.flush k).2.pendingOf j = if j = k then .empty else s.pendingOf j := by
  unfold flush
  split
  · rename_i entry
    split
    · rename_i same
      rw [same, pendingOf, Std.TreeMap.getD_eq_getD_getElem?, entry]
      rfl
    · rfl
  · exact getD_insert ..

theorem settledOf_flush (s : DiffStore) (k j : NodeId) :
    (s.flush k).2.settledOf j = if j = k then ((s.settledOf k).union (s.pendingOf k)).1 else s.settledOf j := by
  have waiting : s.pendingOf k = s.pending[k]?.getD .empty := Std.TreeMap.getD_eq_getD_getElem?
  unfold flush
  split
  · rename_i entry
    rw [waiting, entry]
    split
    · rename_i same
      rw [same]
      rfl
    · rfl
  · rename_i facts entry
    rw [waiting, entry]
    exact getD_insert ..

theorem mem_pendingOf_flush {s : DiffStore} {k j : NodeId} {x : Nat} :
    x ∈ (s.flush k).2.pendingOf j ↔ j ≠ k ∧ x ∈ s.pendingOf j := by
  rw [pendingOf_flush]
  split
  · rename_i same
    simp [same, PointeeSet.not_mem_empty]
  · rename_i other
    simp [other]

theorem mem_settledOf_flush {s : DiffStore} {k j : NodeId} {x : Nat} :
    x ∈ (s.flush k).2.settledOf j ↔ x ∈ s.settledOf j ∨ j = k ∧ x ∈ s.pendingOf k := by
  rw [settledOf_flush]
  split
  · rename_i same
    rw [same, PointeeSet.mem_union]
    simp only [true_and]
  · rename_i other
    simp [other]

theorem wellFormed_settledOf_flush {s : DiffStore} (sets : ∀ j, (s.settledOf j).WellFormed) (k j : NodeId) :
    ((s.flush k).2.settledOf j).WellFormed := by
  rw [settledOf_flush]
  split
  · exact PointeeSet.wellFormed_union (sets k) _
  · exact sets j

theorem mem_get_flush {s : DiffStore} {k j : NodeId} {x : Nat} : x ∈ (s.flush k).2.get j ↔ x ∈ s.get j := by
  rw [mem_get, mem_get, mem_settledOf_flush, mem_pendingOf_flush]
  constructor
  · rintro ((settled | ⟨key, pending⟩) | ⟨_, pending⟩)
    · exact Or.inl settled
    · exact Or.inr (key ▸ pending)
    · exact Or.inr pending
  · rintro (settled | pending)
    · exact Or.inl (Or.inl settled)
    · by_cases key : j = k
      · exact Or.inl (Or.inr ⟨key, key ▸ pending⟩)
      · exact Or.inr ⟨key, pending⟩

theorem Disjoint.flush {s : DiffStore} (apart : s.Disjoint) (k : NodeId) : (s.flush k).2.Disjoint := by
  intro j x settled
  rw [mem_settledOf_flush] at settled
  rw [mem_pendingOf_flush]
  rintro ⟨other, pending⟩
  rcases settled with settled | ⟨key, _⟩
  · exact apart j x settled pending
  · exact other key

end PointsTo.DiffStore
