import Mathlib.Data.List.Nodup

/-!
# Maps as lists of pairs

A map is the list of its entries. `lookup` finds the first entry of a key;
removing, changing and filtering entries is described by what `lookup` then
finds, and where no key occurs twice an entry is what `lookup` finds.

* `lookup_filter_key`, `lookup_remove`, `lookup_modify`, `lookup_map`.
* `lookup_of_mem`: entries of a map without double keys.
* `perm_remove`: a removed entry and the rest are the map.
-/
namespace NekoEcat.Assoc

variable {κ α β : Type}

def keys (m : List (κ × α)) : List κ := m.map (·.1)

theorem keys_filter_nodup {m : List (κ × α)} (h : (keys m).Nodup) (p : κ × α → Bool) : (keys (m.filter p)).Nodup :=
  h.sublist (List.filter_sublist.map _)

variable [DecidableEq κ]

def remove (m : List (κ × α)) (k : κ) : List (κ × α) := m.filter fun e => e.1 != k

def modify (m : List (κ × α)) (k : κ) (f : α → α) : List (κ × α) :=
  m.map fun e => (e.1, if e.1 = k then f e.2 else e.2)

theorem lookup_filter_key (p : κ → Bool) (m : List (κ × α)) (k : κ) :
    (m.filter fun e => p e.1).lookup k = if p k = true then m.lookup k else none := by
  induction m with
  | nil => simp
  | cons e m ih =>
    obtain ⟨k', v⟩ := e
    by_cases hk : k = k'
    · subst hk
      cases hp : p k with
      | true => simp [hp]
      | false => simp [hp, ih]
    · have hb : (k == k') = false := beq_eq_false_iff_ne.2 hk
      rw [List.lookup_cons, hb]
      cases hp : p k' with
      | true =>
        rw [List.filter_cons_of_pos (p := fun e : κ × α => p e.1) (a := (k', v)) hp, List.lookup_cons, hb, ih]
      | false =>
        rw [List.filter_cons_of_neg (p := fun e : κ × α => p e.1) (a := (k', v)) (by simp [hp]), ih]

@[simp] theorem lookup_remove (m : List (κ × α)) (k k' : κ) :
    (remove m k).lookup k' = if k' = k then none else m.lookup k' := by
  unfold remove
  rw [lookup_filter_key (· != k) m k']
  by_cases h : k' = k <;> simp [h]

theorem lookup_map (f : κ → α → β) (m : List (κ × α)) (k : κ) :
    (m.map fun e => (e.1, f e.1 e.2)).lookup k = (m.lookup k).map (f k) := by
  induction m with
  | nil => rfl
  | cons e m ih =>
    obtain ⟨k', v⟩ := e
    rw [List.map_cons, List.lookup_cons, List.lookup_cons, ih]
    by_cases hk : k = k'
    · subst hk
      simp
    · rw [beq_eq_false_iff_ne.2 hk]

@[simp] theorem lookup_modify (m : List (κ × α)) (k : κ) (f : α → α) (k' : κ) :
    (modify m k f).lookup k' = if k' = k then (m.lookup k').map f else m.lookup k' := by
  unfold modify
  rw [lookup_map (fun k'' v => if k'' = k then f v else v)]
  by_cases h : k' = k
  · simp [h]
  · simp [h]

theorem mem_of_lookup {m : List (κ × α)} {k : κ} {v : α} (h : m.lookup k = some v) : (k, v) ∈ m := by
  induction m with
  | nil => cases h
  | cons e m ih =>
    obtain ⟨k', v'⟩ := e
    rw [List.lookup_cons] at h
    by_cases hk : k = k'
    · subst hk
      simp only [beq_self_eq_true, Option.some.injEq] at h
      rw [h]
      exact List.mem_cons_self
    · rw [beq_eq_false_iff_ne.2 hk] at h
      exact List.mem_cons_of_mem _ (ih h)

theorem lookup_of_mem {m : List (κ × α)} (hm : (keys m).Nodup) {k : κ} {v : α} (h : (k, v) ∈ m) :
    m.lookup k = some v := by
  induction m with
  | nil => cases h
  | cons e m ih =>
    obtain ⟨k', v'⟩ := e
    obtain ⟨hnot, hm'⟩ := List.nodup_cons.1 hm
    rw [List.lookup_cons]
    rcases List.mem_cons.1 h with h | h
    · obtain ⟨rfl, rfl⟩ := Prod.mk.inj h
      simp
    · have hk : k ≠ k' := fun he => hnot (he ▸ List.mem_map.2 ⟨(k, v), h, rfl⟩)
      rw [beq_eq_false_iff_ne.2 hk]
      exact ih hm' h

@[simp] theorem keys_modify (m : List (κ × α)) (k : κ) (f : α → α) : keys (modify m k f) = keys m := by
  simp [keys, modify, Function.comp_def]

theorem lookup_eq_none {m : List (κ × α)} {k : κ} : m.lookup k = none ↔ ∀ e ∈ m, e.1 ≠ k := by
  constructor
  · rintro h ⟨k', v⟩ he rfl
    rw [List.lookup_eq_none_iff] at h
    exact absurd (h _ he) (by simp)
  · intro h
    rw [List.lookup_eq_none_iff]
    exact fun e he => by simpa using Ne.symm (h e he)

theorem mem_remove {m : List (κ × α)} {k : κ} {e : κ × α} : e ∈ remove m k ↔ e ∈ m ∧ e.1 ≠ k := by
  simp [remove]

theorem remove_eq_self {m : List (κ × α)} {k : κ} (h : m.lookup k = none) : remove m k = m :=
  List.filter_eq_self.2 fun e he => by simpa using lookup_eq_none.1 h e he

/-- An entry that is removed, and the rest. -/
theorem perm_remove {m : List (κ × α)} (hm : (keys m).Nodup) {k : κ} {v : α} (h : m.lookup k = some v) :
    m.Perm ((k, v) :: remove m k) := by
  induction m with
  | nil => cases h
  | cons e m ih =>
    obtain ⟨k', v'⟩ := e
    obtain ⟨hnot, hm'⟩ := List.nodup_cons.1 hm
    rw [List.lookup_cons] at h
    by_cases hk : k = k'
    · subst hk
      simp only [beq_self_eq_true, Option.some.injEq] at h
      have hnone : m.lookup k = none := lookup_eq_none.2 fun e he hek => hnot (List.mem_map.2 ⟨e, he, hek⟩)
      have hrest : remove ((k, v') :: m) k = m := by
        rw [remove, List.filter_cons_of_neg (by simp)]
        exact remove_eq_self hnone
      rw [hrest, h]
    · rw [beq_eq_false_iff_ne.2 hk] at h
      have hrest : remove ((k', v') :: m) k = (k', v') :: remove m k := by
        rw [remove, List.filter_cons_of_pos (by simpa using Ne.symm hk)]
        rfl
      rw [hrest]
      exact ((ih hm' h).cons _).trans (List.Perm.swap ..)

end NekoEcat.Assoc
