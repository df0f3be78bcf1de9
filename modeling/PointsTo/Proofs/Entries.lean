import Std.Data.TreeMap

namespace PointsTo

variable {β : Type} {k : Nat} {v : β}

/-- Where a key collects numbers, the numbers of one key grow and those of the others stay. -/
theorem getD_alter_push (m : Std.TreeMap Nat (Array Nat)) (e k n : Nat) :
    (m.alter k fun es => some ((es.getD #[]).push e)).getD n #[] =
      if n = k then (m.getD n #[]).push e else m.getD n #[] := by
  rw [Std.TreeMap.getD_alter]
  by_cases same : n = k
  · subst same
    rw [if_pos (Nat.compare_eq_eq.mpr rfl), if_pos rfl, Option.getD_some, Std.TreeMap.getD_eq_getD_getElem?]
  · rw [if_neg (fun equal => same (Nat.compare_eq_eq.mp equal).symm), if_neg same]

theorem values_eq_map_toList (m : Std.TreeMap Nat β) : m.values = m.toList.map (·.2) := by
  have folded : m.values = m.foldr (fun _ v vs => v :: vs) [] := rfl
  rw [folded, Std.TreeMap.foldr_eq_foldr_toList, List.map_eq_foldr]

open Std.DTreeMap.Internal in
theorem insert_impl {t : Impl Nat fun _ => β} (balanced : t.Balanced) (found : Impl.Const.get? t k = some v) :
    (Impl.insert k v t balanced).impl = t := by
  induction t with
  | leaf => cases found
  | inner size root value left right ihL ihR =>
    rw [Impl.insert]
    rw [Impl.Const.get?] at found
    cases order : compare k root with
    | lt =>
      rw [order] at found
      simp only [ihL balanced.left found, Impl.balanceL_eq_balance, Impl.balance_eq_inner balanced]
    | gt =>
      rw [order] at found
      simp only [ihR balanced.right found, Impl.balanceR_eq_balance, Impl.balance_eq_inner balanced]
    | eq =>
      rw [order] at found
      simp only
      cases found
      rw [Nat.compare_eq_eq.mp order]

/-- Inserting what is there already leaves a table as it is. -/
theorem insert_of_found {m : Std.TreeMap Nat β} (found : m[k]? = some v) : m.insert k v = m := by
  obtain ⟨⟨t, wf⟩⟩ := m
  have same := insert_impl wf.balanced found
  simp only [Std.TreeMap.insert, Std.DTreeMap.insert]
  congr

open Std.DTreeMap.Internal in
theorem modify_impl (t : Impl Nat fun _ => β) (v w : β) :
    Impl.Const.modify k (fun _ => Impl.Const.getD t k w) (Impl.Const.modify k (fun _ => v) t) = t := by
  induction t with
  | leaf => rfl
  | inner size root value left right ihL ihR =>
    cases order : compare k root with
    | lt => simp [Impl.Const.modify, Impl.Const.getD, order, ihL]
    | gt => simp [Impl.Const.modify, Impl.Const.getD, order, ihR]
    | eq => simp [Impl.Const.modify, Impl.Const.getD, Nat.compare_eq_eq.mp order]

/-- An entry that is changed and then put back leaves a table as it is. -/
theorem modify_modify_getD (m : Std.TreeMap Nat β) (k : Nat) (v w : β) :
    (m.modify k fun _ => v).modify k (fun _ => m.getD k w) = m := by
  obtain ⟨⟨t, wf⟩⟩ := m
  have same := modify_impl (k := k) t v w
  simp only [Std.TreeMap.modify, Std.DTreeMap.Const.modify]
  congr

theorem insertIfNew_of_mem {m : Std.TreeMap Nat β} (entry : k ∈ m) (v : β) : m.insertIfNew k v = m := by
  obtain ⟨⟨tree, wf⟩⟩ := m
  have present : @Std.DTreeMap.Internal.Impl.contains _ _ ⟨compare⟩ k tree = true := entry
  simp only [Std.TreeMap.insertIfNew, Std.DTreeMap.insertIfNew, Std.DTreeMap.Internal.Impl.insertIfNew]
  simp [present]

end PointsTo
