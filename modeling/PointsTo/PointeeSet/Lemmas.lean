import PointsTo.PointeeSet
import PointsTo.DenseSet.Lemmas

namespace PointsTo.PointeeSet

/-- A short list has no repetitions and stays short. -/
def WellFormed : PointeeSet → Prop
  | small elems => elems.Nodup ∧ elems.length ≤ smallCapacity
  | large _ => True

theorem mem_def {s : PointeeSet} {x : Nat} : x ∈ s ↔ s.contains x = true := Iff.rfl

theorem mem_small {elems : List Nat} {x : Nat} : x ∈ small elems ↔ x ∈ elems := by
  simp [mem_def, contains]

theorem mem_large {bits : DenseSet} {x : Nat} : x ∈ large bits ↔ x ∈ bits := Iff.rfl

theorem not_mem_empty (x : Nat) : x ∉ empty := by
  simp [empty, mem_small]

theorem wellFormed_empty : empty.WellFormed := by
  simp [empty, WellFormed]

theorem mem_toList {s : PointeeSet} {x : Nat} : x ∈ s.toList ↔ x ∈ s := by
  cases s with
  | small elems => exact mem_small.symm
  | large bits => exact DenseSet.mem_toList

theorem nodup_toList {s : PointeeSet} (wf : s.WellFormed) : s.toList.Nodup := by
  cases s with
  | small elems => exact wf.1
  | large bits => exact (DenseSet.toList_sorted bits).imp fun less => Nat.ne_of_lt less

theorem count_eq_length (s : PointeeSet) : s.count = s.toList.length := by
  cases s with
  | small elems => rfl
  | large bits => exact DenseSet.count_eq_length bits

theorem isEmpty_iff {s : PointeeSet} : s.isEmpty = true ↔ ∀ x, x ∉ s := by
  cases s with
  | small elems =>
    simp only [isEmpty, List.isEmpty_iff, mem_small]
    exact List.eq_nil_iff_forall_not_mem
  | large bits => exact DenseSet.isEmpty_iff

theorem mem_insert {s : PointeeSet} {x y : Nat} : y ∈ (s.insert x).1 ↔ y = x ∨ y ∈ s := by
  cases s with
  | small elems =>
    simp only [insert]
    split
    · rename_i present
      have present : x ∈ elems := by simpa using present
      simp only [mem_small]
      exact ⟨Or.inr, fun h => h.elim (fun same => same ▸ present) id⟩
    · split
      · simp only [mem_small, List.mem_append, List.mem_singleton]
        exact or_comm
      · simp only [mem_large, mem_small, DenseSet.mem_insert, DenseSet.mem_ofList]
  | large bits => exact DenseSet.mem_insert

theorem insert_new (s : PointeeSet) (x : Nat) : (s.insert x).2 = !s.contains x := by
  cases s with
  | small elems =>
    simp only [insert, contains]
    split
    · rename_i present
      simpa using present
    · rename_i absent
      split <;> simpa using absent
  | large bits => exact DenseSet.insert_new bits x

theorem insert_new_iff {s : PointeeSet} {x : Nat} : (s.insert x).2 = true ↔ x ∉ s := by
  rw [insert_new, mem_def, Bool.not_eq_true', Bool.not_eq_true]

theorem wellFormed_insert {s : PointeeSet} (wf : s.WellFormed) (x : Nat) : (s.insert x).1.WellFormed := by
  cases s with
  | small elems =>
    simp only [insert]
    split
    · exact wf
    · rename_i absent
      split
      · rename_i room
        have absent : x ∉ elems := by simpa using absent
        refine ⟨List.nodup_append.mpr ⟨wf.1, by simp, ?_⟩, by simp only [List.length_append, List.length_singleton]; omega⟩
        intro a old b new
        rw [List.mem_singleton.mp new]
        exact fun same => absent (same ▸ old)
      · trivial
  | large bits => trivial

theorem insertAll_nil (s : PointeeSet) : s.insertAll [] = (s, false) := rfl

theorem insertAll_cons (s : PointeeSet) (x : Nat) (xs : List Nat) :
    s.insertAll (x :: xs) =
      (((s.insert x).1.insertAll xs).1, (s.insert x).2 || ((s.insert x).1.insertAll xs).2) := by
  have general (changed : Bool) (t : PointeeSet) :
      xs.foldl (fun (p : PointeeSet × Bool) y => ((p.1.insert y).1, p.2 || (p.1.insert y).2)) (t, changed) =
        ((t.insertAll xs).1, changed || (t.insertAll xs).2) := by
    induction xs generalizing changed t with
    | nil => simp [insertAll]
    | cons y ys ih =>
      have first := ih (changed || (t.insert y).2) (t.insert y).1
      have second := ih (false || (t.insert y).2) (t.insert y).1
      simp only [insertAll, List.foldl_cons] at first second ⊢
      rw [first, second]
      simp [Bool.or_assoc]
  have step := general (false || (s.insert x).2) (s.insert x).1
  simp only [insertAll, List.foldl_cons] at step ⊢
  rw [step]
  simp

theorem mem_insertAll {s : PointeeSet} {xs : List Nat} {y : Nat} : y ∈ (s.insertAll xs).1 ↔ y ∈ s ∨ y ∈ xs := by
  induction xs generalizing s with
  | nil => simp [insertAll_nil]
  | cons x xs ih =>
    rw [insertAll_cons, ih, mem_insert, List.mem_cons]
    constructor
    · rintro ((new | old) | later)
      · exact Or.inr (Or.inl new)
      · exact Or.inl old
      · exact Or.inr (Or.inr later)
    · rintro (old | new | later)
      · exact Or.inl (Or.inr old)
      · exact Or.inl (Or.inl new)
      · exact Or.inr later

theorem insertAll_changed {s : PointeeSet} {xs : List Nat} : (s.insertAll xs).2 = true ↔ ∃ x ∈ xs, x ∉ s := by
  induction xs generalizing s with
  | nil => simp [insertAll_nil]
  | cons x xs ih =>
    rw [insertAll_cons, Bool.or_eq_true, ih, insert_new_iff]
    simp only [mem_insert, not_or, List.mem_cons, exists_eq_or_imp]
    constructor
    · rintro (new | ⟨y, later, _, absent⟩)
      · exact Or.inl new
      · exact Or.inr ⟨y, later, absent⟩
    · rintro (new | ⟨y, later, absent⟩)
      · exact Or.inl new
      · by_cases same : y = x
        · exact Or.inl (same ▸ absent)
        · exact Or.inr ⟨y, later, same, absent⟩

theorem wellFormed_insertAll {s : PointeeSet} (wf : s.WellFormed) (xs : List Nat) :
    (s.insertAll xs).1.WellFormed := by
  induction xs generalizing s with
  | nil => exact wf
  | cons x xs ih =>
    rw [insertAll_cons]
    exact ih (wellFormed_insert wf x)

theorem mem_ofList {xs : List Nat} {x : Nat} : x ∈ ofList xs ↔ x ∈ xs := by
  simp [ofList, mem_insertAll, not_mem_empty]

theorem mem_union {s t : PointeeSet} {x : Nat} : x ∈ (s.union t).1 ↔ x ∈ s ∨ x ∈ t := by
  cases t with
  | small elems => simp only [union, mem_insertAll, mem_small]
  | large other =>
    cases s with
    | small elems => simp only [union, mem_large, mem_small, DenseSet.mem_union, DenseSet.mem_ofList]
    | large bits => exact DenseSet.mem_union

theorem union_changed {s t : PointeeSet} : (s.union t).2 = true ↔ ∃ x ∈ t, x ∉ s := by
  cases t with
  | small elems => simp only [union, insertAll_changed, mem_small]
  | large other =>
    cases s with
    | small elems => simp only [union, DenseSet.union_changed, mem_large, mem_small, DenseSet.mem_ofList]
    | large bits => exact DenseSet.union_changed

theorem wellFormed_union {s : PointeeSet} (wf : s.WellFormed) (t : PointeeSet) : (s.union t).1.WellFormed := by
  cases t with
  | small elems => exact wellFormed_insertAll wf elems
  | large other => cases s <;> trivial

private theorem eraseAll_spec (elems : List Nat) (bits : DenseSet) (changed : Bool) :
    (∀ x, x ∈ (elems.foldl (fun (p : DenseSet × Bool) y => ((p.1.erase y).1, p.2 || (p.1.erase y).2))
        (bits, changed)).1 ↔ x ∈ bits ∧ x ∉ elems) ∧
      ((elems.foldl (fun (p : DenseSet × Bool) y => ((p.1.erase y).1, p.2 || (p.1.erase y).2))
        (bits, changed)).2 = true ↔ changed = true ∨ ∃ x ∈ bits, x ∈ elems) := by
  induction elems generalizing bits changed with
  | nil => simp
  | cons y ys ih =>
    obtain ⟨members, flag⟩ := ih (bits.erase y).1 (changed || (bits.erase y).2)
    rw [List.foldl_cons]
    refine ⟨fun x => ?_, ?_⟩
    · rw [members, DenseSet.mem_erase, List.mem_cons, not_or]
      exact ⟨fun ⟨⟨other, member⟩, later⟩ => ⟨member, other, later⟩,
        fun ⟨member, other, later⟩ => ⟨⟨other, member⟩, later⟩⟩
    · rw [flag, Bool.or_eq_true, DenseSet.erase_changed]
      constructor
      · rintro ((already | present) | ⟨x, member, later⟩)
        · exact Or.inl already
        · exact Or.inr ⟨y, present, List.mem_cons_self⟩
        · exact Or.inr ⟨x, (DenseSet.mem_erase.mp member).2, List.mem_cons_of_mem _ later⟩
      · rintro (already | ⟨x, member, listed⟩)
        · exact Or.inl (Or.inl already)
        · by_cases same : x = y
          · exact Or.inl (Or.inr (same ▸ member))
          · exact Or.inr ⟨x, DenseSet.mem_erase.mpr ⟨same, member⟩, (List.mem_cons.mp listed).resolve_left same⟩

theorem mem_subtract {s t : PointeeSet} {x : Nat} : x ∈ (s.subtract t).1 ↔ x ∈ s ∧ x ∉ t := by
  cases s with
  | small elems =>
    simp only [subtract, mem_small, List.mem_filter, mem_def (s := t), Bool.not_eq_true', Bool.not_eq_true]
  | large bits =>
    cases t with
    | small elems =>
      simp only [subtract, mem_large, mem_small]
      exact (eraseAll_spec elems bits false).1 x
    | large other => exact DenseSet.mem_subtract

theorem subtract_changed {s t : PointeeSet} : (s.subtract t).2 = true ↔ ∃ x ∈ s, x ∈ t := by
  cases s with
  | small elems =>
    simp only [subtract, bne_iff_ne, ne_eq, mem_small]
    rw [List.length_filter_eq_length_iff]
    simp only [Bool.not_eq_true', Classical.not_forall, Bool.not_eq_false]
    exact ⟨fun ⟨x, member, inOther⟩ => ⟨x, member, inOther⟩, fun ⟨x, member, inOther⟩ => ⟨x, member, inOther⟩⟩
  | large bits =>
    cases t with
    | small elems =>
      simp only [subtract, mem_large, mem_small]
      have flag := (eraseAll_spec elems bits false).2
      simpa using flag
    | large other => exact DenseSet.subtract_changed

theorem superset_iff {s t : PointeeSet} : s.superset t = true ↔ ∀ x ∈ t, x ∈ s := by
  cases s with
  | small elems => simp only [superset, List.all_eq_true, mem_toList, mem_def]
  | large bits =>
    cases t with
    | small elems => simp only [superset, List.all_eq_true, mem_toList, mem_def]
    | large other => exact DenseSet.superset_iff

end PointsTo.PointeeSet
