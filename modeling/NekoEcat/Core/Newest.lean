import Mathlib.Data.List.DropRight

/-!
# Keeping the newest

A list that keeps its last `k` elements.

* `rtake_append_rtake`: what is dropped in between makes no difference.
* `foldl_keep`: a loop that adds one element after the other.
-/
namespace NekoEcat.Newest

variable {α : Type} (k : Nat) (l m : List α)

theorem length_rtake_le : (l.rtake k).length ≤ k := by
  rw [List.rtake, List.length_drop]
  omega

theorem rtake_append_rtake : (l.rtake k ++ m).rtake k = (l ++ m).rtake k := by
  unfold List.rtake
  rw [List.drop_append, List.drop_append, List.drop_drop, List.length_append, List.length_append, List.length_drop]
  congr 2 <;> omega

/-- One more element, and the oldest goes if there are too many. -/
def keep (a : α) : List α := if (l ++ [a]).length > k then (l ++ [a]).tail else l ++ [a]

theorem keep_rtake (a : α) : keep k (l.rtake k) a = (l ++ [a]).rtake k := by
  have hlength := length_rtake_le k l
  rw [← rtake_append_rtake, keep]
  generalize l.rtake k = l at hlength ⊢
  rw [List.rtake, List.length_append, List.length_singleton]
  by_cases h : l.length = k
  · have hone : l.length + 1 - k = 1 := by omega
    rw [if_pos (by omega), hone, List.drop_one]
  · have hzero : l.length + 1 - k = 0 := by omega
    rw [if_neg (by omega), hzero, List.drop_zero]

/-- **A loop that keeps the newest.** -/
theorem foldl_keep : m.foldl (keep k) (l.rtake k) = (l ++ m).rtake k := by
  induction m generalizing l with
  | nil => rw [List.append_nil]; rfl
  | cons a m ih => rw [List.foldl_cons, keep_rtake, ih, List.append_assoc]; rfl

end NekoEcat.Newest
