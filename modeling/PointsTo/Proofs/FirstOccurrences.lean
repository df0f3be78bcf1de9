import Mathlib.Data.List.Induction

namespace PointsTo

variable {α : Type} [BEq α] [LawfulBEq α] {xs : List α} {x : α}

theorem eraseDups_concat_of_mem (old : x ∈ xs) : (xs ++ [x]).eraseDups = xs.eraseDups := by
  have none : [x].removeAll xs = [] := by simp [List.removeAll, old]
  rw [List.eraseDups_append, none, List.eraseDups_nil, List.append_nil]

theorem eraseDups_concat_of_not_mem (new : x ∉ xs) : (xs ++ [x]).eraseDups = xs.eraseDups ++ [x] := by
  have all : [x].removeAll xs = [x] := by simp [List.removeAll, new]
  rw [List.eraseDups_append, all, List.eraseDups_cons]
  rfl

theorem nodup_eraseDups (xs : List α) : xs.eraseDups.Nodup := by
  induction xs using List.reverseRecOn with
  | nil => simp
  | append_singleton xs x ih =>
    by_cases old : x ∈ xs
    · rw [eraseDups_concat_of_mem old]
      exact ih
    · rw [eraseDups_concat_of_not_mem old]
      refine List.nodup_append.mpr ⟨ih, by simp, ?_⟩
      intro a before b last same
      rw [List.mem_singleton.mp last] at same
      exact old (List.mem_eraseDups.mp (same ▸ before))

theorem eraseDups_filter (keep : α → Bool) (xs : List α) :
    (xs.filter keep).eraseDups = xs.eraseDups.filter keep := by
  induction xs using List.reverseRecOn with
  | nil => simp
  | append_singleton xs x ih =>
    by_cases kept : keep x = true
    · have last : [x].filter keep = [x] := by simp [kept]
      rw [List.filter_append, last]
      by_cases old : x ∈ xs
      · rw [eraseDups_concat_of_mem (List.mem_filter.mpr ⟨old, kept⟩), eraseDups_concat_of_mem old, ih]
      · rw [eraseDups_concat_of_not_mem (fun member => old (List.mem_filter.mp member).1),
          eraseDups_concat_of_not_mem old, List.filter_append, last, ih]
    · have last : [x].filter keep = [] := by simp [kept]
      rw [List.filter_append, last, List.append_nil, ih]
      by_cases old : x ∈ xs
      · rw [eraseDups_concat_of_mem old]
      · rw [eraseDups_concat_of_not_mem old, List.filter_append, last, List.append_nil]

end PointsTo
