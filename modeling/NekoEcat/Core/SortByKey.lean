import Mathlib.Data.List.Sort
import Mathlib.Data.Prod.Lex
import Mathlib.Order.OrderDual

/-!
# Sorting by a comparison that reads a key

A stable sort is given a comparison. Where the comparison is the order of a key,
the list is sorted by it, and the keys that differ fix the result.

* `pairwise_stableSort`: the keys do not decrease.
* `stableSort_of_perm`: with a key for each element the order before does not matter.
* `lt_lex_iff`: two keys, the second read where the first is the same.
-/
namespace NekoEcat.SortByKey

variable {α κ μ : Type*} [LinearOrder κ] [LinearOrder μ]

/-- `std::stable_sort` with the comparison `less` -/
def stableSort (less : α → α → Bool) (as : List α) : List α := as.mergeSort fun a b => !less b a

/-- `less` is the order of the key. -/
def Compares (less : α → α → Bool) (key : α → κ) : Prop := ∀ a b, less a b = true ↔ key a < key b

theorem stableSort_perm (less : α → α → Bool) (as : List α) : (stableSort less as).Perm as :=
  List.mergeSort_perm as _

section
variable {less : α → α → Bool} {key : α → κ} {as bs : List α}

theorem Compares.not_less_iff (h : Compares less key) (a b : α) : (!less b a) = true ↔ key a ≤ key b := by
  rw [Bool.not_eq_true', Bool.eq_false_iff, ne_eq, h b a, not_lt]

theorem pairwise_stableSort (h : Compares less key) : (stableSort less as).Pairwise fun a b => key a ≤ key b := by
  have hsorted : (stableSort less as).Pairwise fun a b => (!less b a) = true := by
    apply List.pairwise_mergeSort
    · intro a b c hab hbc
      rw [h.not_less_iff] at hab hbc ⊢
      exact hab.trans hbc
    · intro a b
      rw [Bool.or_eq_true, h.not_less_iff, h.not_less_iff]
      exact le_total _ _
  exact hsorted.imp fun {a b} hab => (h.not_less_iff a b).1 hab

theorem stableSort_of_perm (h : Compares less key) (hkey : ∀ a ∈ as, ∀ b ∈ as, key a = key b → a = b)
    (hperm : as.Perm bs) : stableSort less as = stableSort less bs := by
  have hsame : (stableSort less as).Perm (stableSort less bs) :=
    (stableSort_perm less as).trans (hperm.trans (stableSort_perm less bs).symm)
  refine hsame.eq_of_pairwise (fun a b ha hb hab hba => ?_) (pairwise_stableSort h) (pairwise_stableSort h)
  have ha' : a ∈ as := (stableSort_perm less as).mem_iff.1 ha
  have hb' : b ∈ as := hperm.mem_iff.2 ((stableSort_perm less bs).mem_iff.1 hb)
  exact hkey a ha' b hb' (le_antisymm hab hba)

end

theorem lt_lex_iff {k k' : κ} {m m' : μ} :
    toLex (k, m) < toLex (k', m') ↔ if k = k' then m < m' else k < k' := by
  rw [Prod.Lex.toLex_lt_toLex]
  by_cases h : k = k'
  · simp [h]
  · simp [h]

end NekoEcat.SortByKey
