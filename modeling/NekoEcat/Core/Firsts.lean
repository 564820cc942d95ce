import Mathlib.Data.List.Nodup

/-!
# Elements that are the first of their key

A list is walked with a set of keys that are taken; an element whose key is
taken is passed over, any other one takes its key.

* `mem_keys_firsts`: with the keys taken before, they have all the keys.
* `nodup_firsts`, `not_mem_seen`: no two of one key, none of a key taken before.
* `foldl_offer`: a list that grows by such elements.
* `firsts_comp`: elements that are made of others.
* `firsts_map`: keys that are told apart alike pass over the same elements.
-/
namespace NekoEcat.Firsts

variable {α κ μ : Type*} [DecidableEq κ] [DecidableEq μ]

/-- The elements whose key is neither in `seen` nor that of an earlier one. -/
def firsts (key : α → κ) : List κ → List α → List α
  | _, [] => []
  | seen, a :: as => if key a ∈ seen then firsts key seen as else a :: firsts key (key a :: seen) as

variable {key : α → κ} {seen : List κ} {as : List α}

theorem firsts_sublist : (firsts key seen as).Sublist as := by
  induction as generalizing seen with
  | nil => exact List.Sublist.refl _
  | cons a as ih =>
    unfold firsts
    split
    · exact ih.cons a
    · exact ih.cons_cons a

theorem mem_keys_firsts {k : κ} : k ∈ seen ∨ k ∈ (firsts key seen as).map key ↔ k ∈ seen ∨ k ∈ as.map key := by
  induction as generalizing seen with
  | nil => rfl
  | cons a as ih =>
    unfold firsts
    by_cases h : key a ∈ seen
    · rw [if_pos h, ih, List.map_cons, List.mem_cons]
      constructor
      · exact Or.imp_right Or.inr
      · intro hk
        rcases hk with hk | hk | hk
        · exact Or.inl hk
        · exact Or.inl (hk ▸ h)
        · exact Or.inr hk
    · have hstep := @ih (key a :: seen)
      rw [List.mem_cons] at hstep
      rw [if_neg h, List.map_cons, List.map_cons, List.mem_cons, List.mem_cons]
      tauto

theorem not_mem_seen {a : α} (h : a ∈ firsts key seen as) : key a ∉ seen := by
  induction as generalizing seen with
  | nil => cases h
  | cons b as ih =>
    unfold firsts at h
    split at h
    · exact ih h
    · rename_i hb
      rcases List.mem_cons.1 h with rfl | h
      · exact hb
      · exact fun hmem => ih h (List.mem_cons_of_mem _ hmem)

theorem nodup_firsts : ((firsts key seen as).map key).Nodup := by
  induction as generalizing seen with
  | nil => exact List.nodup_nil
  | cons a as ih =>
    unfold firsts
    split
    · exact ih
    · refine List.nodup_cons.2 ⟨fun hmem => ?_, ih⟩
      obtain ⟨b, hb, hk⟩ := List.mem_map.1 hmem
      exact not_mem_seen hb (hk ▸ List.mem_cons_self)

theorem firsts_congr {seen' : List κ} (h : ∀ k, k ∈ seen ↔ k ∈ seen') : firsts key seen as = firsts key seen' as := by
  induction as generalizing seen seen' with
  | nil => rfl
  | cons a as ih =>
    unfold firsts
    by_cases ha : key a ∈ seen
    · rw [if_pos ha, if_pos ((h _).1 ha)]
      exact ih h
    · have hcons : ∀ k, k ∈ key a :: seen ↔ k ∈ key a :: seen' := fun k => by simp only [List.mem_cons, h]
      rw [if_neg ha, if_neg (mt (h _).2 ha), ih hcons]

/-- An element that is added unless the list has one of its key. -/
def offer (key : α → κ) (rows : List α) (a : α) : List α :=
  if rows.any fun r => key r = key a then rows else rows ++ [a]

theorem foldl_offer (rows : List α) : as.foldl (offer key) rows = rows ++ firsts key (rows.map key) as := by
  induction as generalizing rows with
  | nil => simp [firsts]
  | cons a as ih =>
    have hany : (rows.any fun r => key r = key a) = true ↔ key a ∈ rows.map key := by simp
    rw [List.foldl_cons, ih]
    by_cases h : key a ∈ rows.map key
    · have hsame : offer key rows a = rows := if_pos (hany.2 h)
      rw [hsame, firsts, if_pos h]
    · have hadd : offer key rows a = rows ++ [a] := if_neg (mt hany.1 h)
      have hseen : ∀ k, k ∈ (rows ++ [a]).map key ↔ k ∈ key a :: rows.map key := by
        intro k
        rw [List.map_append, List.mem_append, List.map_singleton, List.mem_singleton, List.mem_cons, or_comm]
      rw [hadd, firsts_congr hseen, firsts, if_neg h, List.append_assoc]
      rfl

/-- Elements without double keys stay unless their key was taken before. -/
theorem firsts_of_nodup (h : (as.map key).Nodup) : firsts key seen as = as.filter fun a => decide (key a ∉ seen) := by
  induction as generalizing seen with
  | nil => rfl
  | cons a as ih =>
    rw [List.map_cons, List.nodup_cons] at h
    unfold firsts
    by_cases hs : key a ∈ seen
    · rw [if_pos hs, ih h.2]
      simp [hs]
    · rw [if_neg hs, ih h.2, List.filter_cons_of_pos (by simpa using hs)]
      congr 1
      apply List.filter_congr
      intro b hb
      have hne : key b ≠ key a := fun heq => h.1 (heq ▸ List.mem_map_of_mem hb)
      simp [hne]

theorem firsts_comp {β : Type*} (g : β → α) (bs : List β) :
    firsts key seen (bs.map g) = (firsts (fun b => key (g b)) seen bs).map g := by
  induction bs generalizing seen with
  | nil => rfl
  | cons b bs ih =>
    rw [List.map_cons]
    unfold firsts
    by_cases h : key (g b) ∈ seen
    · rw [if_pos h, if_pos h, ih]
    · rw [if_neg h, if_neg h, ih, List.map_cons]

theorem firsts_map {key' : α → μ} {f : κ → μ} (hkey : ∀ a ∈ as, key' a = f (key a))
    (hf : ∀ k k', (k ∈ seen ∨ k ∈ as.map key) → (k' ∈ seen ∨ k' ∈ as.map key) → f k = f k' → k = k') :
    firsts key' (seen.map f) as = firsts key seen as := by
  induction as generalizing seen with
  | nil => rfl
  | cons a as ih =>
    have ha : key a ∈ seen ∨ key a ∈ (a :: as).map key := Or.inr List.mem_cons_self
    have hmem : key' a ∈ seen.map f ↔ key a ∈ seen := by
      rw [hkey a List.mem_cons_self, List.mem_map]
      constructor
      · intro h
        obtain ⟨k, hk, heq⟩ := h
        exact hf k (key a) (Or.inl hk) ha heq ▸ hk
      · exact fun h => ⟨key a, h, rfl⟩
    have hkey' : ∀ b ∈ as, key' b = f (key b) := fun b hb => hkey b (List.mem_cons_of_mem _ hb)
    unfold firsts
    by_cases h : key a ∈ seen
    · rw [if_pos h, if_pos (hmem.2 h)]
      exact ih hkey' fun k k' hk hk' =>
        hf k k' (hk.imp_right (List.mem_cons_of_mem _)) (hk'.imp_right (List.mem_cons_of_mem _))
    · have hstep : ∀ k, (k ∈ key a :: seen ∨ k ∈ as.map key) → k ∈ seen ∨ k ∈ (a :: as).map key := by
        intro k hk
        rw [List.mem_cons] at hk
        rw [List.map_cons, List.mem_cons]
        tauto
      rw [if_neg h, if_neg (fun hc => h (hmem.1 hc)), hkey a List.mem_cons_self, ← List.map_cons]
      rw [ih hkey' fun k k' hk hk' => hf k k' (hstep k hk) (hstep k' hk')]

end NekoEcat.Firsts
