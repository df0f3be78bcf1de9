import PointsTo.PointeeSet.Lemmas

namespace PointsTo

theorem wordsFor_mono {m n : Nat} (less : m ≤ n) : wordsFor m ≤ wordsFor n := by
  unfold wordsFor
  omega

theorem wordsFor_mul (n : Nat) : wordsFor (64 * n) = n := by
  unfold wordsFor
  omega

namespace DenseSet

theorem size_ensure (s : DenseSet) (capacity : Nat) :
    (s.ensure capacity).words.size = max s.words.size (wordsFor capacity) := by
  unfold ensure
  split
  · omega
  · simp only [Array.size_append, Array.size_replicate]
    omega

theorem size_insert (s : DenseSet) (x : Nat) :
    (s.insert x).1.words.size = (s.ensure (x + 1)).words.size := by
  simp [insert]

theorem size_erase (s : DenseSet) (x : Nat) : (s.erase x).1.words.size = s.words.size := by
  simp [erase]

theorem size_union (s t : DenseSet) : (s.union t).1.words.size = max s.words.size t.words.size := by
  rw [union, size_combine, size_ensure, wordsFor_mul]

theorem size_subtract (s t : DenseSet) : (s.subtract t).1.words.size = s.words.size :=
  size_combine s t

theorem size_insert_le {s : DenseSet} {x bound : Nat} (small : s.words.size ≤ wordsFor bound) (below : x < bound) :
    (s.insert x).1.words.size ≤ wordsFor bound := by
  rw [size_insert, size_ensure]
  have room : wordsFor (x + 1) ≤ wordsFor bound := wordsFor_mono below
  omega

theorem size_ofList_le {xs : List Nat} {bound : Nat} (below : ∀ x ∈ xs, x < bound) :
    (ofList xs).words.size ≤ wordsFor bound := by
  have general (s : DenseSet) (small : s.words.size ≤ wordsFor bound) :
      (xs.foldl (fun s x => (s.insert x).1) s).words.size ≤ wordsFor bound := by
    induction xs generalizing s with
    | nil => exact small
    | cons x xs ih =>
      exact ih (fun y member => below y (List.mem_cons_of_mem x member)) _
        (size_insert_le small (below x List.mem_cons_self))
  exact general empty (Nat.zero_le _)

end DenseSet

namespace PointeeSet

/-- The number of words of a set; a short list has none. -/
def span : PointeeSet → Nat
  | small _ => 0
  | large bits => bits.words.size

/-- The elements are below the bound, and so is what the words can hold. -/
structure Below (s : PointeeSet) (bound : Nat) : Prop where
  elements : ∀ x ∈ s, x < bound
  span : s.span ≤ wordsFor bound

theorem below_empty (bound : Nat) : empty.Below bound :=
  ⟨fun x member => absurd member (not_mem_empty x), Nat.zero_le _⟩

theorem Below.mono {s : PointeeSet} {m n : Nat} (below : s.Below m) (less : m ≤ n) : s.Below n :=
  ⟨fun x member => Nat.lt_of_lt_of_le (below.elements x member) less, Nat.le_trans below.span (wordsFor_mono less)⟩

theorem Below.insert {s : PointeeSet} {bound x : Nat} (below : s.Below bound) (less : x < bound) :
    (s.insert x).1.Below bound where
  elements y member := by
    rcases mem_insert.mp member with rfl | old
    · exact less
    · exact below.elements y old
  span := by
    unfold PointeeSet.insert
    split
    · rename_i elems
      split
      · exact Nat.zero_le _
      · split
        · exact Nat.zero_le _
        · exact DenseSet.size_insert_le
            (DenseSet.size_ofList_le fun y member => below.elements y (mem_small.mpr member)) less
    · exact DenseSet.size_insert_le below.span less

theorem Below.insertAll {s : PointeeSet} {bound : Nat} {xs : List Nat} (below : s.Below bound)
    (less : ∀ x ∈ xs, x < bound) : (s.insertAll xs).1.Below bound := by
  induction xs generalizing s with
  | nil => exact below
  | cons x xs ih =>
    rw [insertAll_cons]
    exact ih (below.insert (less x List.mem_cons_self)) fun y member => less y (List.mem_cons_of_mem x member)

theorem Below.union {s t : PointeeSet} {bound : Nat} (below : s.Below bound) (other : t.Below bound) :
    (s.union t).1.Below bound := by
  cases t with
  | small elems => exact below.insertAll fun x member => other.elements x (mem_small.mpr member)
  | large bits =>
    refine ⟨fun x member => (mem_union.mp member).elim (below.elements x) (other.elements x), ?_⟩
    cases s with
    | small elems =>
      have list := DenseSet.size_ofList_le fun x member => below.elements x (mem_small.mpr member)
      change (DenseSet.union _ bits).1.words.size ≤ _
      rw [DenseSet.size_union]
      exact Nat.max_le.mpr ⟨list, other.span⟩
    | large mine =>
      change (mine.union bits).1.words.size ≤ _
      rw [DenseSet.size_union]
      exact Nat.max_le.mpr ⟨below.span, other.span⟩

theorem size_eraseAll (elems : List Nat) (bits : DenseSet) (changed : Bool) :
    (elems.foldl (fun (p : DenseSet × Bool) y => ((p.1.erase y).1, p.2 || (p.1.erase y).2))
      (bits, changed)).1.words.size = bits.words.size := by
  induction elems generalizing bits changed with
  | nil => rfl
  | cons y ys ih => rw [List.foldl_cons, ih, DenseSet.size_erase]

theorem span_subtract (s t : PointeeSet) : (s.subtract t).1.span = s.span := by
  cases s with
  | small elems => rfl
  | large bits =>
    cases t with
    | small elems => exact size_eraseAll elems bits false
    | large other => exact DenseSet.size_subtract bits other

theorem Below.subtract {s : PointeeSet} {bound : Nat} (below : s.Below bound) (t : PointeeSet) :
    (s.subtract t).1.Below bound :=
  ⟨fun x member => below.elements x (mem_subtract.mp member).1, by rw [span_subtract]; exact below.span⟩

/-- The set has all elements of the part, and at least as many words. -/
structure PartOf (part s : PointeeSet) : Prop where
  elements : ∀ x ∈ part, x ∈ s
  span : part.span ≤ s.span

theorem Below.of_partOf {part s : PointeeSet} {bound : Nat} (below : s.Below bound) (partOf : part.PartOf s) :
    part.Below bound :=
  ⟨fun x member => below.elements x (partOf.elements x member), Nat.le_trans partOf.span below.span⟩

theorem le_span_union (s t : PointeeSet) : t.span ≤ (s.union t).1.span := by
  cases t with
  | small elems => exact Nat.zero_le _
  | large bits =>
    cases s with
    | small elems =>
      change bits.words.size ≤ (DenseSet.union _ bits).1.words.size
      rw [DenseSet.size_union]
      exact Nat.le_max_right ..
    | large mine =>
      change bits.words.size ≤ (mine.union bits).1.words.size
      rw [DenseSet.size_union]
      exact Nat.le_max_right ..

theorem partOf_union (s t : PointeeSet) : t.PartOf (s.union t).1 :=
  ⟨fun _ member => mem_union.mpr (Or.inr member), le_span_union s t⟩

end PointeeSet

end PointsTo
