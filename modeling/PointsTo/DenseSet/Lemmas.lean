import PointsTo.DenseSet

namespace PointsTo

theorem toNat_bitMask (x : Nat) : (bitMask x).toNat = 1 <<< (x % 64) := by
  have small : x % 64 < 64 := Nat.mod_lt x (by decide)
  have shift : ((x % 64).toUInt64).toNat = x % 64 := by
    simp only [Nat.toUInt64, UInt64.toNat_ofNat']
    omega
  have power : 2 ^ (x % 64) < 2 ^ 64 := Nat.pow_lt_pow_right (by decide) small
  rw [bitMask, UInt64.toNat_shiftLeft, shift, Nat.mod_eq_of_lt small]
  simp only [UInt64.toNat_one, Nat.one_shiftLeft]
  exact Nat.mod_eq_of_lt power

theorem testBit_bitMask (x i : Nat) : (bitMask x).toNat.testBit i = decide (x % 64 = i) := by
  rw [toNat_bitMask, Nat.one_shiftLeft, Nat.testBit_two_pow]

theorem word_eq_of_testBit {v w : UInt64} (same : ∀ i < 64, v.toNat.testBit i = w.toNat.testBit i) : v = w := by
  refine UInt64.toNat_inj.mp (Nat.eq_of_testBit_eq fun i => ?_)
  by_cases low : i < 64
  · exact same i low
  · have high : 2 ^ 64 ≤ 2 ^ i := Nat.pow_le_pow_right (by decide) (by omega)
    rw [Nat.testBit_lt_two_pow (Nat.lt_of_lt_of_le v.toNat_lt high),
      Nat.testBit_lt_two_pow (Nat.lt_of_lt_of_le w.toNat_lt high)]

theorem and_bitMask_ne_zero (w : UInt64) (x : Nat) :
    (w &&& bitMask x != 0) = w.toNat.testBit (x % 64) := by
  have bit (i : Nat) : (w &&& bitMask x).toNat.testBit i = (w.toNat.testBit i && decide (x % 64 = i)) := by
    rw [UInt64.toNat_and, Nat.testBit_and, testBit_bitMask]
  cases h : w.toNat.testBit (x % 64) with
  | true =>
    have set := bit (x % 64)
    simp only [h, decide_true, Bool.and_true] at set
    simp only [bne_iff_ne, ne_eq]
    intro zero
    simp [zero] at set
  | false =>
    have zero : w &&& bitMask x = 0 := word_eq_of_testBit fun i _ => by
      rw [bit]
      by_cases at' : x % 64 = i
      · simp [← at', h]
      · simp [at']
    simp [zero]

theorem testBit_not {w : UInt64} {i : Nat} (low : i < 64) :
    (~~~ w).toNat.testBit i = !w.toNat.testBit i := by
  have below : w.toNat < 2 ^ 64 := w.toNat_lt
  rw [UInt64.toNat_not, show UInt64.size - 1 - w.toNat = 2 ^ 64 - (w.toNat + 1) by simp [UInt64.size],
    Nat.testBit_two_pow_sub_succ below]
  simp [low]

theorem mem_bitsOf {w : UInt64} {i : Nat} : i ∈ bitsOf w ↔ i < 64 ∧ w.toNat.testBit i = true := by
  unfold bitsOf
  split
  · rename_i zero
    have zero : w = 0 := by simpa using zero
    simp [zero]
  · simp only [List.mem_filter, List.mem_range, and_bitMask_ne_zero]
    constructor
    · rintro ⟨low, bit⟩
      exact ⟨low, by rwa [Nat.mod_eq_of_lt low] at bit⟩
    · rintro ⟨low, bit⟩
      exact ⟨low, by rwa [Nat.mod_eq_of_lt low]⟩

theorem bitsOf_sorted (w : UInt64) : (bitsOf w).Pairwise (· < ·) := by
  unfold bitsOf
  split
  · exact .nil
  · exact List.pairwise_lt_range.filter _

namespace DenseSet

theorem mem_def {s : DenseSet} {x : Nat} : x ∈ s ↔ s.contains x = true := Iff.rfl

theorem mem_iff_testBit {s : DenseSet} {x : Nat} :
    x ∈ s ↔ (s.word (x / 64)).toNat.testBit (x % 64) = true := by
  rw [mem_def, contains, and_bitMask_ne_zero]

theorem word_of_size_le {s : DenseSet} {i : Nat} (beyond : s.words.size ≤ i) : s.word i = 0 := by
  simp [word, Array.getElem?_eq_none beyond]

theorem not_mem_empty (x : Nat) : x ∉ empty := by
  simp [mem_iff_testBit, empty, word]

theorem word_ensure (s : DenseSet) (capacity i : Nat) : (s.ensure capacity).word i = s.word i := by
  unfold ensure
  split
  · rfl
  · simp only [word, Array.getD_eq_getD_getElem?, Array.getElem?_append, Array.getElem?_replicate]
    split
    · rfl
    · rename_i beyond
      rw [Array.getElem?_eq_none (Nat.le_of_not_lt beyond)]
      split <;> rfl

theorem mem_ensure {s : DenseSet} {capacity x : Nat} : x ∈ s.ensure capacity ↔ x ∈ s := by
  simp only [mem_iff_testBit, word_ensure]

theorem le_size_ensure (s : DenseSet) (capacity : Nat) : wordsFor capacity ≤ (s.ensure capacity).words.size := by
  unfold ensure
  split
  · assumption
  · simp only [Array.size_append, Array.size_replicate]
    omega

theorem word_clear (s : DenseSet) (i : Nat) : s.clear.word i = 0 := by
  simp only [word, clear, Array.getD_eq_getD_getElem?, Array.getElem?_replicate]
  split <;> rfl

theorem not_mem_clear (s : DenseSet) (x : Nat) : x ∉ s.clear := by
  simp [mem_iff_testBit, word_clear]

theorem word_set {s : DenseSet} {i j : Nat} {w : UInt64} (inside : i < s.words.size) :
    (⟨s.words.setIfInBounds i w⟩ : DenseSet).word j = if i = j then w else s.word j := by
  simp only [word, Array.getD_eq_getD_getElem?, Array.getElem?_setIfInBounds, inside, if_true]
  split <;> rfl

theorem word_insert (s : DenseSet) (x i : Nat) :
    (s.insert x).1.word i = if x / 64 = i then s.word i ||| bitMask x else s.word i := by
  have room : x / 64 < (s.ensure (x + 1)).words.size := by
    have := le_size_ensure s (x + 1)
    simp only [wordsFor] at this
    omega
  simp only [insert, word_set room, word_ensure]
  split
  · rename_i same
    rw [same]
  · rfl

theorem mem_insert {s : DenseSet} {x y : Nat} : y ∈ (s.insert x).1 ↔ y = x ∨ y ∈ s := by
  simp only [mem_iff_testBit, word_insert]
  by_cases sameWord : x / 64 = y / 64
  · simp only [sameWord, if_true, UInt64.toNat_or, Nat.testBit_or, testBit_bitMask, Bool.or_eq_true,
      decide_eq_true_eq]
    constructor
    · rintro (old | sameBit)
      · exact Or.inr old
      · exact Or.inl (by omega)
    · rintro (rfl | old)
      · exact Or.inr rfl
      · exact Or.inl old
  · simp only [sameWord, if_false]
    constructor
    · exact Or.inr
    · rintro (rfl | old)
      · exact absurd rfl sameWord
      · exact old

/-- Setting a bit changes the word exactly if the bit was not set. -/
theorem or_bitMask_ne (w : UInt64) (x : Nat) : (w ||| bitMask x != w) = !w.toNat.testBit (x % 64) := by
  cases bit : w.toNat.testBit (x % 64) with
  | true =>
    have same : w ||| bitMask x = w := word_eq_of_testBit fun i _ => by
      rw [UInt64.toNat_or, Nat.testBit_or, testBit_bitMask]
      by_cases at' : x % 64 = i
      · simp [← at', bit]
      · simp [at']
    simp [same]
  | false =>
    simp only [Bool.not_false, bne_iff_ne, ne_eq]
    intro same
    have set : (w ||| bitMask x).toNat.testBit (x % 64) = true := by
      simp [UInt64.toNat_or, Nat.testBit_or, testBit_bitMask]
    rw [same, bit] at set
    exact Bool.false_ne_true set

theorem insert_new (s : DenseSet) (x : Nat) : (s.insert x).2 = !s.contains x := by
  simp only [insert, word_ensure, or_bitMask_ne, contains, and_bitMask_ne_zero]

theorem word_erase (s : DenseSet) (x i : Nat) :
    (s.erase x).1.word i = if x / 64 = i then s.word i &&& ~~~ bitMask x else s.word i := by
  by_cases inside : x / 64 < s.words.size
  · simp only [erase, word_set inside]
    split
    · rename_i same
      rw [same]
    · rfl
  · have outside : s.words.size ≤ x / 64 := Nat.le_of_not_lt inside
    have unchanged : (s.erase x).1 = s := by
      simp only [erase, Array.setIfInBounds_eq_of_size_le outside]
    rw [unchanged]
    split
    · rename_i same
      rw [← same, word_of_size_le outside]
      simp
    · rfl

theorem mem_erase {s : DenseSet} {x y : Nat} : y ∈ (s.erase x).1 ↔ y ≠ x ∧ y ∈ s := by
  have low : y % 64 < 64 := Nat.mod_lt y (by decide)
  simp only [mem_iff_testBit, word_erase]
  by_cases sameWord : x / 64 = y / 64
  · simp only [sameWord, if_true, UInt64.toNat_and, Nat.testBit_and, testBit_not low, testBit_bitMask,
      Bool.and_eq_true, Bool.not_eq_true', decide_eq_false_iff_not]
    constructor
    · rintro ⟨old, otherBit⟩
      exact ⟨fun same => otherBit (by rw [same]), old⟩
    · rintro ⟨other, old⟩
      exact ⟨old, by omega⟩
  · simp only [sameWord, if_false]
    exact ⟨fun old => ⟨fun same => sameWord (by rw [same]), old⟩, fun h => h.2⟩

/-- Clearing a bit changes the word exactly if the bit was set. -/
theorem and_not_bitMask_ne (w : UInt64) (x : Nat) :
    (w &&& ~~~ bitMask x != w) = w.toNat.testBit (x % 64) := by
  have low : x % 64 < 64 := Nat.mod_lt x (by decide)
  cases bit : w.toNat.testBit (x % 64) with
  | false =>
    have same : w &&& ~~~ bitMask x = w := word_eq_of_testBit fun i inside => by
      rw [UInt64.toNat_and, Nat.testBit_and, testBit_not inside, testBit_bitMask]
      by_cases at' : x % 64 = i
      · simp [← at', bit]
      · simp [at']
    simp [same]
  | true =>
    simp only [bne_iff_ne, ne_eq]
    intro same
    have gone : (w &&& ~~~ bitMask x).toNat.testBit (x % 64) = false := by
      rw [UInt64.toNat_and, Nat.testBit_and, testBit_not low, testBit_bitMask]
      simp
    rw [same, bit] at gone
    exact Bool.false_ne_true gone.symm

theorem erase_changed (s : DenseSet) (x : Nat) : (s.erase x).2 = s.contains x := by
  simp only [erase, and_not_bitMask_ne, contains, and_bitMask_ne_zero]

theorem word_combineBelow {op : UInt64 → UInt64 → UInt64} {t : DenseSet} {n : Nat} {words : Array UInt64}
    (changed : Bool) (within : n ≤ words.size) (i : Nat) :
    (combineBelow op t n words changed).1.word i =
      if i < n then op (words.getD i 0) (t.word i) else words.getD i 0 := by
  induction n generalizing words changed with
  | zero => rfl
  | succ n ih =>
    have step : i < n + 1 ↔ i < n ∨ i = n := by omega
    unfold combineBelow
    dsimp only
    split
    · rename_i kept
      have kept : op (words.getD n 0) (t.word n) = words.getD n 0 := by simpa using kept
      rw [ih changed (by omega)]
      by_cases last : i = n
      · subst last
        rw [if_neg (by omega), if_pos (by omega), kept]
      · simp only [step, last, or_false]
    · rw [ih true (by rw [Array.size_setIfInBounds]; omega)]
      simp only [Array.getD_eq_getD_getElem?, Array.getElem?_setIfInBounds]
      by_cases last : i = n
      · subst last
        rw [if_neg (by omega), if_pos rfl, if_pos (by omega), if_pos (by omega)]
        rfl
      · rw [if_neg (Ne.symm last)]
        simp only [step, last, or_false]

theorem size_combineBelow {op : UInt64 → UInt64 → UInt64} {t : DenseSet} (n : Nat) (words : Array UInt64)
    (changed : Bool) : (combineBelow op t n words changed).1.words.size = words.size := by
  induction n generalizing words changed with
  | zero => rfl
  | succ n ih =>
    unfold combineBelow
    dsimp only
    split
    · exact ih words changed
    · rw [ih, Array.size_setIfInBounds]

theorem combineBelow_changed {op : UInt64 → UInt64 → UInt64} {t : DenseSet} {n : Nat} {words : Array UInt64}
    {changed : Bool} :
    (combineBelow op t n words changed).2 = true ↔
      changed = true ∨ ∃ i < n, op (words.getD i 0) (t.word i) ≠ words.getD i 0 := by
  induction n generalizing words changed with
  | zero => simp [combineBelow]
  | succ n ih =>
    unfold combineBelow
    dsimp only
    split
    · rename_i kept
      have kept : op (words.getD n 0) (t.word n) = words.getD n 0 := by simpa using kept
      rw [ih]
      constructor
      · rintro (already | ⟨i, bound, new⟩)
        · exact Or.inl already
        · exact Or.inr ⟨i, by omega, new⟩
      · rintro (already | ⟨i, bound, new⟩)
        · exact Or.inl already
        · have earlier : i ≠ n := fun same => new (same ▸ kept)
          exact Or.inr ⟨i, by omega, new⟩
    · rename_i differs
      have differs : op (words.getD n 0) (t.word n) ≠ words.getD n 0 := by simpa using differs
      rw [ih]
      exact ⟨fun _ => Or.inr ⟨n, by omega, differs⟩, fun _ => Or.inl rfl⟩

theorem word_combine {op : UInt64 → UInt64 → UInt64} (neutral : ∀ w, op w 0 = w) {s t : DenseSet}
    (covered : t.words.size ≤ s.words.size ∨ ∀ w, op 0 w = 0) (i : Nat) :
    (combine op s t).1.word i = op (s.word i) (t.word i) := by
  rw [combine, word_combineBelow false (by omega)]
  split
  · rfl
  · by_cases beyond : t.words.size ≤ i
    · rw [word_of_size_le beyond, neutral]
      rfl
    · have outside : s.words.size ≤ i := by omega
      have zero : s.word i = 0 := word_of_size_le outside
      rcases covered with smaller | absorbing
      · exact absurd (Nat.le_trans smaller outside) beyond
      · rw [zero, absorbing]
        exact zero

theorem word_union (s t : DenseSet) (i : Nat) : (s.union t).1.word i = s.word i ||| t.word i := by
  have room := le_size_ensure s (64 * t.words.size)
  rw [union, word_combine (fun w => by simp) (Or.inl (by simp only [wordsFor] at room; omega)), word_ensure]

theorem word_subtract (s t : DenseSet) (i : Nat) : (s.subtract t).1.word i = s.word i &&& ~~~ t.word i := by
  rw [subtract, word_combine (fun w => by simp) (Or.inr fun w => by simp)]

theorem mem_union {s t : DenseSet} {x : Nat} : x ∈ (s.union t).1 ↔ x ∈ s ∨ x ∈ t := by
  simp only [mem_iff_testBit, word_union, UInt64.toNat_or, Nat.testBit_or, Bool.or_eq_true]

theorem mem_subtract {s t : DenseSet} {x : Nat} : x ∈ (s.subtract t).1 ↔ x ∈ s ∧ x ∉ t := by
  have low : x % 64 < 64 := Nat.mod_lt x (by decide)
  simp only [mem_iff_testBit, word_subtract, UInt64.toNat_and, Nat.testBit_and, testBit_not low,
    Bool.and_eq_true, Bool.not_eq_true', Bool.not_eq_true]

/-- Words are equal if they hold the same elements. -/
theorem word_eq_of_mem {s t : DenseSet} {i : Nat} (same : ∀ x, x / 64 = i → (x ∈ s ↔ x ∈ t)) :
    s.word i = t.word i := by
  refine word_eq_of_testBit fun j low => ?_
  have quotient : (64 * i + j) / 64 = i := by omega
  have remainder : (64 * i + j) % 64 = j := by omega
  have atBit := same (64 * i + j) quotient
  simp only [mem_iff_testBit, quotient, remainder] at atBit
  exact Bool.eq_iff_iff.mpr atBit

theorem eq_of_word {s t : DenseSet} (size : s.words.size = t.words.size) (same : ∀ i, s.word i = t.word i) :
    s = t := by
  have words : s.words = t.words := by
    refine Array.ext size fun i inS inT => ?_
    simpa [DenseSet.word, inS, inT] using same i
  cases s
  cases t
  exact congrArg DenseSet.mk words

/-- Sets of one size are equal if they hold the same elements. -/
theorem eq_of_mem {s t : DenseSet} (size : s.words.size = t.words.size) (same : ∀ x, x ∈ s ↔ x ∈ t) : s = t :=
  eq_of_word size fun _ => word_eq_of_mem fun x _ => same x

theorem size_combine {op : UInt64 → UInt64 → UInt64} (s t : DenseSet) :
    (combine op s t).1.words.size = s.words.size :=
  size_combineBelow ..

theorem combine_changed {op : UInt64 → UInt64 → UInt64} (s t : DenseSet) :
    (combine op s t).2 = true ↔ (combine op s t).1 ≠ s := by
  have within : min s.words.size t.words.size ≤ s.words.size := by omega
  have word (i : Nat) : (combine op s t).1.word i =
      if i < min s.words.size t.words.size then op (s.word i) (t.word i) else s.word i :=
    word_combineBelow false within i
  constructor
  · intro flag same
    obtain ⟨i, bound, new⟩ := (combineBelow_changed.mp flag).resolve_left Bool.false_ne_true
    have atWord := word i
    rw [if_pos bound] at atWord
    exact new (atWord.symm.trans (congrArg (fun u => u.word i) same))
  · intro different
    refine Classical.byContradiction fun flag => different (eq_of_word (size_combine s t) fun i => ?_)
    refine (word i).trans ?_
    split
    · rename_i bound
      exact Classical.byContradiction fun new => flag (combineBelow_changed.mpr (Or.inr ⟨i, bound, new⟩))
    · rfl

theorem union_changed {s t : DenseSet} : (s.union t).2 = true ↔ ∃ x ∈ t, x ∉ s := by
  rw [union, combine_changed]
  constructor
  · intro different
    refine Classical.byContradiction fun none => different (eq_of_mem (size_combine _ _) fun x => ?_)
    have absorbed := mem_union (s := s) (t := t) (x := x)
    rw [union] at absorbed
    rw [absorbed, mem_ensure]
    constructor
    · rintro (old | new)
      · exact old
      · exact Classical.byContradiction fun missing => none ⟨x, new, missing⟩
    · exact Or.inl
  · rintro ⟨x, new, missing⟩ same
    have member := (mem_union (s := s) (t := t) (x := x)).mpr (Or.inr new)
    rw [union, same, mem_ensure] at member
    exact missing member

theorem subtract_changed {s t : DenseSet} : (s.subtract t).2 = true ↔ ∃ x ∈ s, x ∈ t := by
  rw [subtract, combine_changed]
  constructor
  · intro different
    refine Classical.byContradiction fun none => different (eq_of_mem (size_combine _ _) fun x => ?_)
    have kept := mem_subtract (s := s) (t := t) (x := x)
    rw [subtract] at kept
    rw [kept]
    exact ⟨And.left, fun member => ⟨member, fun other => none ⟨x, member, other⟩⟩⟩
  · rintro ⟨x, member, other⟩ same
    have kept := mem_subtract (s := s) (t := t) (x := x)
    rw [subtract, same] at kept
    exact (kept.mp member).2 other

theorem coversBelow_iff {s t : DenseSet} {n : Nat} :
    s.coversBelow t n = true ↔ ∀ i < n, s.word i &&& t.word i = t.word i := by
  induction n with
  | zero => simp [coversBelow]
  | succ n ih =>
    rw [coversBelow, Bool.and_eq_true, beq_iff_eq, ih]
    constructor
    · rintro ⟨last, earlier⟩ i bound
      by_cases same : i = n
      · exact same ▸ last
      · exact earlier i (by omega)
    · exact fun all => ⟨all n (by omega), fun i bound => all i (by omega)⟩

theorem superset_iff {s t : DenseSet} : s.superset t = true ↔ ∀ x ∈ t, x ∈ s := by
  rw [superset, coversBelow_iff]
  constructor
  · intro words x member
    rw [mem_iff_testBit] at member ⊢
    have inside : x / 64 < t.words.size := by
      refine Classical.byContradiction fun outside => ?_
      rw [word_of_size_le (Nat.le_of_not_lt outside)] at member
      simp at member
    have common := words (x / 64) inside
    rw [← common, UInt64.toNat_and, Nat.testBit_and, Bool.and_eq_true] at member
    exact member.1
  · intro members i _
    refine word_eq_of_testBit fun j low => ?_
    have quotient : (64 * i + j) / 64 = i := by omega
    have remainder : (64 * i + j) % 64 = j := by omega
    have atBit := members (64 * i + j)
    simp only [mem_iff_testBit, quotient, remainder] at atBit
    rw [UInt64.toNat_and, Nat.testBit_and]
    cases bit : (t.word i).toNat.testBit j with
    | true => simp [atBit bit]
    | false => simp

theorem isEmpty_iff {s : DenseSet} : s.isEmpty = true ↔ ∀ x, x ∉ s := by
  simp only [isEmpty, Array.all_eq_true, beq_iff_eq]
  constructor
  · intro zeros x member
    rw [mem_iff_testBit] at member
    by_cases inside : x / 64 < s.words.size
    · have zero := zeros (x / 64) inside
      simp [word, inside, zero] at member
    · rw [word_of_size_le (Nat.le_of_not_lt inside)] at member
      simp at member
  · intro none i inside
    have zero : s.word i = empty.word i := word_eq_of_mem fun x _ =>
      ⟨fun member => absurd member (none x), fun member => absurd member (not_mem_empty x)⟩
    simpa [word, inside, empty] using zero

theorem elementsBelow_succ (s : DenseSet) (n : Nat) (above : List Nat) :
    s.elementsBelow (n + 1) above = s.elementsBelow n ((bitsOf (s.word n)).map (64 * n + ·) ++ above) := by
  rw [elementsBelow]
  split
  · rename_i zero
    have zero : s.word n = 0 := by simpa using zero
    rw [zero]
    rfl
  · rfl

theorem elementsBelow_eq (s : DenseSet) (n : Nat) (above : List Nat) :
    s.elementsBelow n above =
      (List.range n).flatMap (fun i => (bitsOf (s.word i)).map (64 * i + ·)) ++ above := by
  induction n generalizing above with
  | zero => rfl
  | succ n ih =>
    rw [elementsBelow_succ, ih, List.range_succ, List.flatMap_append]
    simp

theorem toList_eq (s : DenseSet) :
    s.toList = (List.range s.words.size).flatMap fun i => (bitsOf (s.word i)).map (64 * i + ·) := by
  rw [toList, elementsBelow_eq, List.append_nil]

theorem mem_toList {s : DenseSet} {x : Nat} : x ∈ s.toList ↔ x ∈ s := by
  simp only [toList_eq, List.mem_flatMap, List.mem_range, List.mem_map, mem_bitsOf, mem_iff_testBit]
  constructor
  · rintro ⟨i, _, j, ⟨low, bit⟩, rfl⟩
    have quotient : (64 * i + j) / 64 = i := by omega
    have remainder : (64 * i + j) % 64 = j := by omega
    rw [quotient, remainder]
    exact bit
  · intro bit
    have inside : x / 64 < s.words.size := by
      refine Classical.byContradiction fun outside => ?_
      rw [word_of_size_le (Nat.le_of_not_lt outside)] at bit
      simp at bit
    exact ⟨x / 64, inside, x % 64, ⟨Nat.mod_lt x (by decide), bit⟩, by omega⟩

theorem toList_sorted (s : DenseSet) : s.toList.Pairwise (· < ·) := by
  rw [toList_eq, List.pairwise_flatMap]
  constructor
  · intro i _
    exact List.Pairwise.map _ (fun a b less => Nat.add_lt_add_left less _) (bitsOf_sorted (s.word i))
  · refine List.pairwise_lt_range.imp fun {a b} before x inA y inB => ?_
    obtain ⟨i, atI, rfl⟩ := List.mem_map.mp inA
    obtain ⟨j, _, rfl⟩ := List.mem_map.mp inB
    have := (mem_bitsOf.mp atI).1
    omega

theorem countBelow_eq (s : DenseSet) (n above : Nat) (rest : List Nat) (length : rest.length = above) :
    s.countBelow n above = (s.elementsBelow n rest).length := by
  induction n generalizing above rest with
  | zero => exact length.symm
  | succ n ih =>
    rw [countBelow, elementsBelow_succ]
    exact ih _ _ (by simp [length])

theorem count_eq_length (s : DenseSet) : s.count = s.toList.length :=
  countBelow_eq s s.words.size 0 [] rfl

theorem mem_ofList {xs : List Nat} {x : Nat} : x ∈ ofList xs ↔ x ∈ xs := by
  have general (s : DenseSet) : x ∈ xs.foldl (fun s y => (s.insert y).1) s ↔ x ∈ s ∨ x ∈ xs := by
    induction xs generalizing s with
    | nil => simp
    | cons y ys ih =>
      rw [List.foldl_cons, ih, mem_insert, List.mem_cons]
      constructor
      · rintro ((new | old) | later)
        · exact Or.inr (Or.inl new)
        · exact Or.inl old
        · exact Or.inr (Or.inr later)
      · rintro (old | new | later)
        · exact Or.inl (Or.inr old)
        · exact Or.inl (Or.inl new)
        · exact Or.inr later
  rw [ofList, general]
  simp [not_mem_empty]

end DenseSet

end PointsTo
