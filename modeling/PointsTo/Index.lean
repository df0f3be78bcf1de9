import PointsTo.Fault

namespace PointsTo

abbrev NodeId := Nat

abbrev EdgeId := Nat

abbrev FuncId := Nat

abbrev CallSiteId := Nat

/-- The first number that does not fit 32 bits. -/
def indexLimit : Nat := 1 <<< 32

/-- The first number that does not fit a machine word. -/
def wordLimit : Nat := 1 <<< 64

/-- Node and edge numbers keep their low 32 bits. -/
def truncateIndex (n : Nat) : Nat := n % indexLimit

/-- Function and call-site numbers, and elements of points-to sets, must fit 32 bits. -/
def checkIndex (n : Nat) : Except Fault Nat :=
  if n < indexLimit then .ok n else .error (.indexTooLarge n)

theorem truncateIndex_of_lt {n : Nat} (fits : n < indexLimit) : truncateIndex n = n :=
  Nat.mod_eq_of_lt fits

theorem checkIndex_eq_ok_iff {n m : Nat} : checkIndex n = .ok m ↔ n < indexLimit ∧ n = m := by
  unfold checkIndex
  split
  · simp_all
  · simp only [reduceCtorEq, false_iff, not_and]
    omega

end PointsTo
