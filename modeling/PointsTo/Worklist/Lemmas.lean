import PointsTo.Worklist
import PointsTo.DenseSet.Lemmas

namespace PointsTo.Worklist

/-- Nothing waits twice, and the set of what waits has exactly the elements of the queue. -/
structure WellFormed (q : Worklist) : Prop where
  nodup : q.toList.Nodup
  mem_waiting : ∀ x, x ∈ q.waiting ↔ x ∈ q.toList

theorem wellFormed_empty : empty.WellFormed where
  nodup := by simp [empty, toList]
  mem_waiting x := by simp [empty, toList, DenseSet.not_mem_empty]

theorem contains_iff {q : Worklist} (wf : q.WellFormed) {x : Nat} : q.contains x = true ↔ x ∈ q.toList :=
  wf.mem_waiting x

theorem toList_push {q : Worklist} (wf : q.WellFormed) (x : Nat) :
    (q.push x).1.toList = if x ∈ q.toList then q.toList else q.toList ++ [x] := by
  have flag := DenseSet.insert_new q.waiting x
  have waits : q.waiting.contains x = true ↔ x ∈ q.toList := wf.mem_waiting x
  unfold push
  split
  · rename_i waiting inserted
    rw [inserted] at flag
    rw [if_neg (by simpa [← waits] using flag)]
    simp [toList]
  · rename_i waiting inserted
    rw [inserted] at flag
    rw [if_pos (by simpa [← waits] using flag)]
    rfl

theorem push_new {q : Worklist} (wf : q.WellFormed) {x : Nat} : (q.push x).2 = true ↔ x ∉ q.toList := by
  have flag := DenseSet.insert_new q.waiting x
  have waits : q.waiting.contains x = true ↔ x ∈ q.toList := wf.mem_waiting x
  unfold push
  split
  · rename_i waiting inserted
    rw [inserted] at flag
    simpa [← waits] using flag
  · rename_i waiting inserted
    rw [inserted] at flag
    simpa [← waits] using flag

theorem waiting_push (q : Worklist) (x : Nat) : (q.push x).1.waiting = (q.waiting.insert x).1 := by
  unfold push
  split <;> rename_i waiting inserted <;> rw [inserted]

theorem wellFormed_push {q : Worklist} (wf : q.WellFormed) (x : Nat) : (q.push x).1.WellFormed where
  nodup := by
    rw [toList_push wf]
    split
    · exact wf.nodup
    · rename_i absent
      refine List.nodup_append.mpr ⟨wf.nodup, by simp, ?_⟩
      intro a old b new
      rw [List.mem_singleton.mp new]
      exact fun same => absent (same ▸ old)
  mem_waiting y := by
    rw [waiting_push, DenseSet.mem_insert, wf.mem_waiting, toList_push wf]
    split
    · rename_i present
      exact ⟨fun h => h.elim (fun same => same ▸ present) id, Or.inr⟩
    · rw [List.mem_append, List.mem_singleton]
      exact or_comm

theorem pop?_eq_none_iff {q : Worklist} : q.pop? = none ↔ q.toList = [] := by
  unfold pop? toList
  split
  · rename_i front
    simp [front]
  · rename_i front
    split <;> rename_i back <;> simp [front, back]

theorem toList_pop? {q rest : Worklist} {x : Nat} (next : q.pop? = some (x, rest)) :
    q.toList = x :: rest.toList := by
  unfold pop? at next
  unfold toList
  split at next
  · rename_i front
    cases next
    simp [front]
  · rename_i front
    split at next
    · cases next
    · rename_i back
      cases next
      simp [front, back]

theorem waiting_pop? {q rest : Worklist} {x : Nat} (next : q.pop? = some (x, rest)) :
    rest.waiting = (q.waiting.erase x).1 := by
  unfold pop? at next
  split at next
  · cases next
    rfl
  · split at next <;> cases next
    rfl

theorem wellFormed_pop? {q rest : Worklist} {x : Nat} (wf : q.WellFormed) (next : q.pop? = some (x, rest)) :
    rest.WellFormed := by
  have order := toList_pop? next
  have distinct := wf.nodup
  rw [order, List.nodup_cons] at distinct
  refine ⟨distinct.2, fun y => ?_⟩
  rw [waiting_pop? next, DenseSet.mem_erase, wf.mem_waiting, order, List.mem_cons]
  constructor
  · rintro ⟨other, same | later⟩
    · exact absurd same other
    · exact later
  · exact fun later => ⟨fun same => distinct.1 (same ▸ later), Or.inr later⟩

end PointsTo.Worklist
