import Mathlib.Data.List.Nodup
import Mathlib.Data.List.Perm.Subperm

/-!
# The search for a name that is not used

`while (used.contains(key(name))) name = next(n++)`, over any names and keys. If
no two of the candidates have one key the loop ends, at the latest when there are
more of them than used keys.

* `loop_eq_some`: what the loop returns.
* `loop_isSome`: that it returns.
* `loop_of_le`: more fuel changes nothing.
* `first_spec`: what is found.
-/
namespace NekoEcat.Fresh

variable {α κ : Type} [DecidableEq κ] (key : α → κ) (next : Nat → α) (used : List κ)

/-- The loop, when it is at `name` and at the candidate `n`. -/
def loop : Nat → Nat → α → Option α
  | 0, _, _ => none
  | fuel + 1, n, name => if key name ∈ used then loop fuel (n + 1) (next n) else some name

/-- What the loop finds, from the candidate `n` on. -/
def first (n : Nat) (name : α) : α := (loop key next used (used.length + 2) n name).getD name

variable {key next used}

theorem loop_eq_some {fuel n : Nat} {name found : α} (h : loop key next used fuel n name = some found) :
    key found ∉ used ∧ (found = name ∨ ∃ m, n ≤ m ∧ found = next m) := by
  induction fuel generalizing n name with
  | zero => cases h
  | succ fuel ih =>
    rw [loop] at h
    split at h
    · obtain ⟨hfree, heq | ⟨m, hm, heq⟩⟩ := ih h
      · exact ⟨hfree, Or.inr ⟨n, Nat.le_refl n, heq⟩⟩
      · exact ⟨hfree, Or.inr ⟨m, by omega, heq⟩⟩
    · rename_i hfree
      cases h
      exact ⟨hfree, Or.inl rfl⟩

/-- As long as the loop goes on all candidates are used. -/
theorem used_of_loop_eq_none {fuel n : Nat} {name : α} (h : loop key next used (fuel + 1) n name = none) :
    ∀ m, n ≤ m → m < n + fuel → key (next m) ∈ used := by
  induction fuel generalizing n name with
  | zero =>
    intro m hle hlt
    omega
  | succ fuel ih =>
    rw [loop] at h
    split at h
    · intro m hle hlt
      rcases Nat.eq_or_lt_of_le hle with rfl | hlt'
      · rw [loop] at h
        split at h
        · assumption
        · cases h
      · exact ih h m hlt' (by omega)
    · cases h

theorem loop_isSome (hinj : ∀ m n, key (next m) = key (next n) → m = n) (n : Nat) (name : α) :
    (loop key next used (used.length + 2) n name).isSome = true := by
  cases h : loop key next used (used.length + 2) n name with
  | some found => rfl
  | none =>
    have hused := used_of_loop_eq_none h
    have hnodup : ((List.range' n (used.length + 1)).map fun m => key (next m)).Nodup :=
      List.Nodup.map (fun a b hab => hinj a b hab) List.nodup_range'
    have hsub : ((List.range' n (used.length + 1)).map fun m => key (next m)) ⊆ used := by
      intro k hk
      obtain ⟨m, hm, rfl⟩ := List.mem_map.1 hk
      obtain ⟨hle, hlt⟩ := List.mem_range'_1.1 hm
      exact hused m hle hlt
    have hlength := (hnodup.subperm hsub).length_le
    rw [List.length_map, List.length_range'] at hlength
    omega

theorem loop_of_le {fuel fuel' n : Nat} {name found : α} (h : loop key next used fuel n name = some found)
    (hle : fuel ≤ fuel') : loop key next used fuel' n name = some found := by
  induction fuel generalizing fuel' n name with
  | zero => cases h
  | succ fuel ih =>
    obtain ⟨fuel', rfl⟩ := Nat.exists_eq_add_of_lt (Nat.lt_of_lt_of_le (Nat.zero_lt_succ fuel) hle)
    rw [Nat.zero_add] at hle ⊢
    rw [loop] at h ⊢
    split
    · rename_i hin
      rw [if_pos hin] at h
      exact ih h (by omega)
    · rename_i hfree
      rwa [if_neg hfree] at h

/-- **What is found** is not used, and is the name or one of the candidates; with
enough fuel the loop ends in it. -/
theorem first_spec (hinj : ∀ m n, key (next m) = key (next n) → m = n) (n : Nat) (name : α) :
    key (first key next used n name) ∉ used ∧
      (first key next used n name = name ∨ ∃ m, n ≤ m ∧ first key next used n name = next m) ∧
      ∀ fuel, used.length + 2 ≤ fuel → loop key next used fuel n name = some (first key next used n name) := by
  obtain ⟨found, hfound⟩ := Option.isSome_iff_exists.1 (@loop_isSome _ _ _ key next used hinj n name)
  have hfirst : first key next used n name = found := by rw [first, hfound, Option.getD_some]
  obtain ⟨hfree, hcases⟩ := loop_eq_some hfound
  rw [hfirst]
  exact ⟨hfree, hcases, fun fuel hle => loop_of_le hfound hle⟩

/-- A name that is not used is kept. -/
theorem first_of_free {n : Nat} {name : α} (h : key name ∉ used) : first key next used n name = name := by
  rw [first, loop, if_neg h, Option.getD_some]

end NekoEcat.Fresh
