import Mathlib.Data.List.Sort
import PointsTo.DenseSet.Cursor
import PointsTo.DenseSet.Lemmas

namespace PointsTo

/-- Below its lowest bit a number has no bit, and taking one off turns all of them on and the lowest bit off. -/
theorem testBit_and_pred {n low : Nat} (bit : n.testBit low = true) (none : ∀ i < low, n.testBit i = false) (i : Nat) :
    (n &&& (n - 1)).testBit i = (n.testBit i && decide (i ≠ low)) := by
  have multiple : n % 2 ^ low = 0 := by
    refine Nat.eq_of_testBit_eq fun j => ?_
    rw [Nat.testBit_mod_two_pow, Nat.zero_testBit, Bool.and_eq_false_imp]
    exact fun below => none j (of_decide_eq_true below)
  obtain ⟨quotient, whole⟩ : ∃ q, n = 2 ^ low * q := ⟨n / 2 ^ low, by
    have := Nat.div_add_mod n (2 ^ low)
    omega⟩
  have odd : quotient.testBit 0 = true := by
    rw [whole, Nat.testBit_two_pow_mul, Nat.sub_self] at bit
    simpa using bit
  have positive : 0 < 2 ^ low := Nat.two_pow_pos low
  have half : (quotient - 1) / 2 = quotient / 2 := by
    rw [Nat.testBit_zero, decide_eq_true_eq] at odd
    omega
  have pred : n - 1 = 2 ^ low * (quotient - 1) + (2 ^ low - 1) := by
    have : 0 < quotient := by
      rw [Nat.testBit_zero, decide_eq_true_eq] at odd
      omega
    have step : 2 ^ low * quotient = 2 ^ low * (quotient - 1) + 2 ^ low := by
      rw [← Nat.mul_succ]
      congr 1
      omega
    omega
  rw [Nat.testBit_and]
  rcases Nat.lt_trichotomy i low with below | rfl | above
  · rw [none i below, Bool.false_and, Bool.false_and]
  · have off : (n - 1).testBit i = false := by
      rw [pred, Nat.testBit_two_pow_mul_add _ (by omega), if_neg (Nat.lt_irrefl i), Nat.sub_self]
      rw [Nat.testBit_zero, decide_eq_true_eq] at odd
      rw [Nat.testBit_zero, decide_eq_false_iff_not]
      omega
    rw [off]
    simp
  · obtain ⟨j, rfl⟩ : ∃ j, i = low + (j + 1) := ⟨i - low - 1, by omega⟩
    have same : (n - 1).testBit (low + (j + 1)) = n.testBit (low + (j + 1)) := by
      rw [pred, Nat.testBit_two_pow_mul_add _ (by omega), if_neg (by omega), whole, Nat.testBit_two_pow_mul,
        Nat.add_sub_cancel_left, Nat.testBit_succ, Nat.testBit_succ, half]
      simp
    rw [same]
    simp

namespace DenseSet

theorem testBit_lowestBit {w : UInt64} (nonzero : w ≠ 0) : w.toNat.testBit (lowestBit w) = true :=
  BitVec.getLsbD_true_ctz_of_ne_zero fun zero => nonzero (UInt64.toBitVec_inj.mp zero)

theorem testBit_of_lt_lowestBit {w : UInt64} {i : Nat} (below : i < lowestBit w) : w.toNat.testBit i = false :=
  BitVec.getLsbD_false_of_lt_ctz below

theorem testBit_and_sub_one {w : UInt64} (nonzero : w ≠ 0) (i : Nat) :
    (w &&& (w - 1)).toNat.testBit i = (w.toNat.testBit i && decide (i ≠ lowestBit w)) := by
  have positive : 1 ≤ w := by
    rw [UInt64.le_iff_toNat_le, UInt64.toNat_one]
    exact Nat.one_le_iff_ne_zero.mpr fun zero => nonzero (UInt64.toNat_inj.mp zero)
  rw [UInt64.toNat_and, UInt64.toNat_sub_of_le _ _ positive, UInt64.toNat_one]
  exact testBit_and_pred (testBit_lowestBit nonzero) (fun _ => testBit_of_lt_lowestBit) i

/-- The bits of a word are its lowest bit and the bits that are left without it. -/
theorem bitsOf_eq_cons {w : UInt64} (nonzero : w ≠ 0) : bitsOf w = lowestBit w :: bitsOf (w &&& (w - 1)) := by
  have lowest : lowestBit w ∈ bitsOf w := by
    refine mem_bitsOf.mpr ⟨?_, testBit_lowestBit nonzero⟩
    refine Classical.byContradiction fun high => ?_
    have beyond : w.toNat < 2 ^ lowestBit w :=
      Nat.lt_of_lt_of_le w.toNat_lt (Nat.pow_le_pow_right (by decide) (Nat.le_of_not_lt high))
    have off := Nat.testBit_lt_two_pow beyond
    rw [testBit_lowestBit nonzero] at off
    cases off
  have sorted : (lowestBit w :: bitsOf (w &&& (w - 1))).Pairwise (· < ·) := by
    refine List.pairwise_cons.mpr ⟨fun i member => ?_, bitsOf_sorted _⟩
    have left := (mem_bitsOf.mp member).2
    rw [testBit_and_sub_one nonzero, Bool.and_eq_true, decide_eq_true_eq] at left
    refine Nat.lt_of_le_of_ne (Nat.le_of_not_lt fun below => ?_) (Ne.symm left.2)
    rw [testBit_of_lt_lowestBit below] at left
    cases left.1
  refine (bitsOf_sorted w).eq_of_mem_iff sorted fun i => ?_
  rw [List.mem_cons, mem_bitsOf, mem_bitsOf, testBit_and_sub_one nonzero, Bool.and_eq_true, decide_eq_true_eq]
  by_cases first : i = lowestBit w
  · subst first
    simp only [true_or, iff_true]
    exact mem_bitsOf.mp lowest
  · simp only [first, false_or, ne_eq, not_false_eq_true, and_true]

namespace Cursor

/-- The elements in words that follow each other, of which the first starts at `base`. -/
def elementsFrom : (base : Nat) → List UInt64 → List Nat
  | _, [] => []
  | base, w :: rest => (bitsOf w).map (base + ·) ++ elementsFrom (base + 64) rest

/-- What is still to come. -/
def elements (c : Cursor) : List Nat :=
  (bitsOf c.word).map (c.base + ·) ++ elementsFrom (if c.started then c.base + 64 else c.base) c.rest

/-- Asking the cursor again and again gives the elements of the list, and then nothing more. -/
inductive Yields : Cursor → List Nat → Prop
  | finished {c} : c.next? = none → Yields c []
  | element {c x next xs} : c.next? = some (x, next) → Yields next xs → Yields c (x :: xs)

/-- One step gives the first of the elements that are still to come, and leaves the others. -/
theorem next?_elements (c : Cursor) : (c.next? = none ∧ c.elements = []) ∨
    ∃ x next, c.next? = some (x, next) ∧ c.elements = x :: next.elements := by
  induction c using next?.induct with
  | case1 word base started rest nonzero =>
    have nonzero' : word ≠ 0 := by simpa using nonzero
    refine Or.inr ⟨_, _, (next?.eq_def _).trans (if_pos nonzero), ?_⟩
    rw [elements, bitsOf_eq_cons nonzero']
    rfl
  | case2 word base started zero =>
    have zero' : word = 0 := by simpa using zero
    refine Or.inl ⟨by rw [next?, if_neg zero], ?_⟩
    rw [elements, zero']
    rfl
  | case3 word base started zero w rest ih =>
    have zero' : word = 0 := by simpa using zero
    have same : Cursor.elements ⟨word, base, started, w :: rest⟩ =
        Cursor.elements ⟨w, if started then base + 64 else base, true, rest⟩ := by
      rw [elements, zero']
      rfl
    rw [next?, if_neg zero, same]
    exact ih

theorem yields_elements (c : Cursor) : c.Yields c.elements := by
  generalize toCome : c.elements = xs
  induction xs generalizing c with
  | nil =>
    rcases c.next?_elements with ⟨stop, _⟩ | ⟨x, next, _, more⟩
    · exact .finished stop
    · rw [toCome] at more
      cases more
  | cons x xs ih =>
    rcases c.next?_elements with ⟨_, nothing⟩ | ⟨x', next, step, more⟩
    · rw [toCome] at nothing
      cases nothing
    · rw [toCome] at more
      cases more
      exact .element step (ih next rfl)

theorem elementsFrom_eq (base : Nat) (words : List UInt64) : elementsFrom base words =
    (List.range words.length).flatMap fun i => (bitsOf (words.getD i 0)).map (base + 64 * i + ·) := by
  induction words generalizing base with
  | nil => rfl
  | cons w rest ih =>
    rw [elementsFrom, ih, List.length_cons, List.range_succ_eq_map, List.flatMap_cons, List.flatMap_map]
    simp only [List.getD_cons_zero, List.getD_cons_succ, Nat.mul_zero, Nat.add_zero, Nat.mul_succ]
    congr 2
    funext i
    rw [Nat.add_assoc, Nat.add_comm 64]

end Cursor

theorem elements_cursor (s : DenseSet) : s.cursor.elements = s.toList := by
  rw [toList_eq]
  refine (Cursor.elementsFrom_eq 0 s.words.toList).trans ?_
  simp [word]

/-- Walking through a set meets the elements in the order of the list. -/
theorem cursor_yields (s : DenseSet) : s.cursor.Yields s.toList := by
  rw [← elements_cursor]
  exact s.cursor.yields_elements

end DenseSet

end PointsTo
