import Mathlib.Data.List.Induction
import Mathlib.Data.List.Nodup
import Mathlib.Data.List.Perm.Basic

/-!
# Grouping records by a key

Records are put into groups one after the other: into the first group of the key
of the record, or into a new one behind the others. No key has two groups, and a
group is made of the records of its key in their order.

* `mem_keys_collect`, `nodup_collect`: the keys of the groups.
* `mem_collect`: the groups.
* `flatMap_filter_perm`: no record is lost.
* `map_replace`, `nodup_replace`: records that take the place of others.
-/
namespace NekoEcat.Grouping

variable {κ α γ : Type} [DecidableEq κ] (key : γ → κ) (of : α → κ) (fresh : α → γ) (grow : γ → α → γ)

def put : List γ → α → List γ
  | [], a => [fresh a]
  | g :: gs, a => if key g = of a then grow g a :: gs else g :: put gs a

def collect (as : List α) : List γ := as.foldl (put key of fresh grow) []

/-- What a group is made of: a first record and those that came later. -/
def made : List α → Option γ
  | [] => none
  | a :: as => some (as.foldl grow (fresh a))

theorem made_append (as : List α) (a : α) :
    made fresh grow (as ++ [a]) = some (((made fresh grow as).map (grow · a)).getD (fresh a)) := by
  cases as with
  | nil => rfl
  | cons b bs => simp [made]

theorem collect_append (as : List α) (a : α) :
    collect key of fresh grow (as ++ [a]) = put key of fresh grow (collect key of fresh grow as) a := by
  rw [collect, List.foldl_append]
  rfl

/-- The records of some keys, one key after the other, are all records if these have such keys. -/
theorem flatMap_filter_perm {ks : List κ} (hks : ks.Nodup) {as : List α} (hmem : ∀ a ∈ as, of a ∈ ks) :
    (ks.flatMap fun k => as.filter (of · = k)).Perm as := by
  induction ks generalizing as with
  | nil =>
    obtain rfl : as = [] := List.eq_nil_iff_forall_not_mem.2 fun a ha => List.not_mem_nil (hmem a ha)
    rfl
  | cons k ks ih =>
    obtain ⟨hnot, hks⟩ := List.nodup_cons.1 hks
    have hrest : ∀ a ∈ as.filter (fun a => !decide (of a = k)), of a ∈ ks := by
      intro a ha
      obtain ⟨ha, hk⟩ := List.mem_filter.1 ha
      exact (List.mem_cons.1 (hmem a ha)).resolve_left (by simpa using hk)
    have hsame : (ks.flatMap fun k' => as.filter (of · = k')) =
        ks.flatMap fun k' => (as.filter fun a => !decide (of a = k)).filter (of · = k') := by
      refine List.flatMap_congr fun k' hk' => ?_
      rw [List.filter_filter]
      refine List.filter_congr fun a _ => ?_
      have hne : k' ≠ k := fun h => hnot (h ▸ hk')
      by_cases ha : of a = k' <;> simp [ha, hne]
    rw [List.flatMap_cons, hsame]
    exact ((ih hks hrest).append_left _).trans (List.filter_append_perm (of · = k) as)

/-! ## Records that take the place of others -/

section
variable {μ : Type} {rank : α → κ} {as : List α} {a b : α}

/-- A record takes the place of the first one of its key, or goes behind the others. -/
def replace (rank : α → κ) (as : List α) (a : α) : List α := put rank rank id (fun _ a => a) as a

theorem mem_replace (h : b ∈ replace rank as a) : b = a ∨ b ∈ as := by
  induction as with
  | nil => exact .inl (List.mem_singleton.1 h)
  | cons c as ih =>
    unfold replace put at h
    split at h
    · exact (List.mem_cons.1 h).imp_right (List.mem_cons_of_mem c)
    · rcases List.mem_cons.1 h with rfl | h
      · exact .inr List.mem_cons_self
      · exact (ih h).imp_right (List.mem_cons_of_mem c)

theorem self_mem_replace (rank : α → κ) (as : List α) (a : α) : a ∈ replace rank as a := by
  induction as with
  | nil => exact List.mem_singleton_self a
  | cons c as ih =>
    unfold replace put
    split
    · exact List.mem_cons_self
    · exact List.mem_cons_of_mem c ih

/-- A reading that records of the key of `a` share with it is kept in its place. -/
theorem map_replace (f : α → μ) (h : ∀ c ∈ as, rank c = rank a → f c = f a) :
    (replace rank as a).map f = if rank a ∈ as.map rank then as.map f else as.map f ++ [f a] := by
  induction as with
  | nil => rfl
  | cons c as ih =>
    have hrest := ih fun d hd => h d (List.mem_cons_of_mem c hd)
    by_cases hc : rank c = rank a
    · have hplace : replace rank (c :: as) a = a :: as := if_pos hc
      rw [hplace, List.map_cons, if_pos (List.mem_map.2 ⟨c, List.mem_cons_self, hc⟩), List.map_cons,
        h c List.mem_cons_self hc]
    · have hplace : replace rank (c :: as) a = c :: replace rank as a := if_neg hc
      rw [hplace, List.map_cons, hrest, List.map_cons, List.map_cons]
      by_cases hmem : rank a ∈ as.map rank
      · rw [if_pos hmem, if_pos (List.mem_cons_of_mem _ hmem)]
      · rw [if_neg hmem, if_neg, List.cons_append]
        exact fun h => (List.mem_cons.1 h).elim (fun h => hc h.symm) hmem

theorem nodup_replace (h : (as.map rank).Nodup) (a : α) : ((replace rank as a).map rank).Nodup := by
  rw [map_replace rank fun _ _ h => h]
  split
  · exact h
  · rename_i hnot
    rw [← List.concat_eq_append]
    exact (List.nodup_concat _ _).2 ⟨hnot, h⟩

end

/-! ## The groups -/

/-- A group has the key of each of its records. -/
structure Keyed : Prop where
  fresh : ∀ a, key (fresh a) = of a
  grow : ∀ g a, key (grow g a) = key g

variable {key of fresh grow} (hkeyed : Keyed key of fresh grow)

include hkeyed

theorem keys_put (gs : List γ) (a : α) :
    (put key of fresh grow gs a).map key = if of a ∈ gs.map key then gs.map key else gs.map key ++ [of a] := by
  induction gs with
  | nil => simp [put, hkeyed.fresh]
  | cons g gs ih =>
    by_cases hk : key g = of a
    · simp [put, hk, hkeyed.grow]
    · have hne : of a ≠ key g := Ne.symm hk
      rw [put, if_neg hk, List.map_cons, ih, List.map_cons]
      by_cases hmem : of a ∈ gs.map key
      · rw [if_pos hmem, if_pos (List.mem_cons_of_mem _ hmem)]
      · rw [if_neg hmem, if_neg (by simp only [List.mem_cons, hne, hmem, or_self, not_false_iff]), List.cons_append]

theorem nodup_put {gs : List γ} (h : (gs.map key).Nodup) (a : α) : ((put key of fresh grow gs a).map key).Nodup := by
  rw [keys_put hkeyed]
  split
  · exact h
  · rename_i hnot
    exact List.nodup_append.2 ⟨h, List.nodup_singleton _, fun k hk k' hk' heq => hnot (by simp_all)⟩

/-- The group of a key, after one more record. -/
theorem find_put (gs : List γ) (a : α) (k : κ) :
    (put key of fresh grow gs a).find? (key · = k) =
      if of a = k then some (((gs.find? (key · = k)).map (grow · a)).getD (fresh a)) else gs.find? (key · = k) := by
  induction gs with
  | nil => by_cases h : of a = k <;> simp [put, hkeyed.fresh, h]
  | cons g gs ih =>
    by_cases hg : key g = of a
    · rw [put, if_pos hg, List.find?_cons, List.find?_cons, hkeyed.grow, hg]
      by_cases h : of a = k <;> simp [h]
    · rw [put, if_neg hg, List.find?_cons, List.find?_cons, ih]
      by_cases hk : key g = k
      · have h : of a ≠ k := fun h => hg (hk.trans h.symm)
        simp [hk, h]
      · simp [hk]

/-- **The group of a key** is made of the records of the key, in their order. -/
theorem find_collect (as : List α) (k : κ) :
    (collect key of fresh grow as).find? (key · = k) = made fresh grow (as.filter (of · = k)) := by
  induction as using List.reverseRecOn with
  | nil => rfl
  | append_singleton as a ih =>
    rw [collect_append, find_put hkeyed, ih, List.filter_append]
    by_cases h : of a = k
    · rw [if_pos h, List.filter_cons_of_pos (by simpa using h), List.filter_nil, made_append]
    · rw [if_neg h, List.filter_cons_of_neg (by simpa using h), List.filter_nil, List.append_nil]

theorem nodup_collect (as : List α) : ((collect key of fresh grow as).map key).Nodup := by
  induction as using List.reverseRecOn with
  | nil => exact List.nodup_nil
  | append_singleton as a ih =>
    rw [collect_append]
    exact nodup_put hkeyed ih a

theorem mem_collect {as : List α} {g : γ} :
    g ∈ collect key of fresh grow as ↔ made fresh grow (as.filter (of · = key g)) = some g := by
  rw [← find_collect hkeyed]
  constructor
  · intro h
    obtain ⟨g', hg'⟩ : ∃ g', (collect key of fresh grow as).find? (key · = key g) = some g' :=
      Option.isSome_iff_exists.1 (List.find?_isSome.2 ⟨g, h, by simp⟩)
    have hkey : key g' = key g := by simpa using List.find?_some hg'
    have hsame := List.inj_on_of_nodup_map (nodup_collect hkeyed as) (List.mem_of_find?_eq_some hg') h hkey
    rw [hg', hsame]
  · exact List.mem_of_find?_eq_some

/-- Every key of a record has a group, and no other. -/
theorem mem_keys_collect {as : List α} {k : κ} :
    k ∈ (collect key of fresh grow as).map key ↔ k ∈ as.map of := by
  induction as using List.reverseRecOn with
  | nil => rfl
  | append_singleton as a ih =>
    rw [collect_append, keys_put hkeyed]
    by_cases h : of a ∈ (collect key of fresh grow as).map key
    · rw [if_pos h, ih, List.map_append, List.mem_append]
      refine ⟨Or.inl, fun hk => hk.elim id fun hk => ?_⟩
      obtain rfl : k = of a := by simpa using hk
      exact ih.1 h
    · rw [if_neg h, List.mem_append, ih, List.map_append, List.mem_append]
      rfl

end NekoEcat.Grouping
