import Mathlib.Data.List.Basic
import Mathlib.Logic.Function.Basic

/-!
# Patches of maps

A change of a map has a key and acts on what the map has there. A list of changes is
applied one after the other; what it does at a key is the work of the changes of
that key alone.

* `patch_apply`: the map at a key, after the changes.
* `filter_flatMap_key`: the changes of one key, of those made for a list of records
  without double keys.
-/
namespace NekoEcat.Patch

variable {κ β χ ρ : Type} [DecidableEq κ]

/-- The changes applied to a map. -/
def patch (key : χ → κ) (act : χ → Option β → Option β) (m : κ → Option β) (cs : List χ) : κ → Option β :=
  cs.foldl (fun m c => Function.update m (key c) (act c (m (key c)))) m

theorem patch_apply (key : χ → κ) (act : χ → Option β → Option β) (m : κ → Option β) (cs : List χ) (k : κ) :
    patch key act m cs k = (cs.filter fun c => key c = k).foldl (fun v c => act c v) (m k) := by
  induction cs generalizing m with
  | nil => rfl
  | cons c cs ih =>
    have hstep : patch key act m (c :: cs) k = patch key act (Function.update m (key c) (act c (m (key c)))) cs k := rfl
    rw [hstep, ih]
    by_cases hk : key c = k
    · subst hk
      rw [Function.update_self, List.filter_cons_of_pos (by simp), List.foldl_cons]
    · rw [Function.update_of_ne (Ne.symm hk), List.filter_cons_of_neg (by simpa using hk)]

variable {key : χ → κ} {f : ρ → List χ} {of : ρ → κ} (hf : ∀ r, ∀ c ∈ f r, key c = of r)

include hf

theorem filter_key_eq {k : κ} {r : ρ} (h : of r = k) : ((f r).filter fun c => key c = k) = f r :=
  List.filter_eq_self.2 fun c hc => by simp [hf r c hc, h]

theorem filter_key_ne {k : κ} {r : ρ} (h : of r ≠ k) : ((f r).filter fun c => key c = k) = [] :=
  List.filter_eq_nil_iff.2 fun c hc => by simp [hf r c hc, h]

/-- A key that no record has gets no change. -/
theorem filter_flatMap_none {k : κ} {rs : List ρ} (h : ∀ r ∈ rs, of r ≠ k) :
    ((rs.flatMap f).filter fun c => key c = k) = [] := by
  rw [List.filter_flatMap, List.flatMap_eq_nil_iff]
  exact fun r hr => filter_key_ne hf (h r hr)

/-- **The changes of one key** are those made for its record. -/
theorem filter_flatMap_key {rs : List ρ} (hn : (rs.map of).Nodup) {r : ρ} (hr : r ∈ rs) :
    ((rs.flatMap f).filter fun c => key c = of r) = f r := by
  induction rs with
  | nil => cases hr
  | cons r' rs ih =>
    obtain ⟨hnot, hn⟩ := List.nodup_cons.1 hn
    rw [List.flatMap_cons, List.filter_append]
    rcases List.mem_cons.1 hr with rfl | hr
    · have hothers : ∀ r' ∈ rs, of r' ≠ of r := fun r' hr' heq => hnot (heq ▸ List.mem_map_of_mem hr')
      rw [filter_key_eq hf rfl, filter_flatMap_none hf hothers, List.append_nil]
    · have hne : of r' ≠ of r := fun heq => hnot (heq ▸ List.mem_map_of_mem hr)
      rw [filter_key_ne hf hne, ih hn hr, List.nil_append]

end NekoEcat.Patch
