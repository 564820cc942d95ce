import NekoEcat.Core.Assoc
import Mathlib.Data.List.Induction

/-!
# Hash maps

A `QHash` is the list of its entries, no two of one key. Entries made from the
elements of a list are inserted one after the other; a later one takes the place
of an earlier one.

* `value_insert`: an inserted entry is found, others stay.
* `mem_of_insertEach`: what is found was made from an element of the list.
* `value_insertEach`: entries without double keys are all found.
* `value_insertAll`, `value_insertSome`: with double keys, the last one of each.
* `entries_insertEach_map`: entries whose values are read through a function.
* `value_rebuilt_iff`: which maps are found again in what their entries make.
-/
namespace NekoEcat

structure QHash (κ α : Type) where
  entries : List (κ × α)
  nodup : (Assoc.keys entries).Nodup

namespace QHash
open NekoEcat.Assoc

variable {κ α β : Type}

def empty : QHash κ α := ⟨[], List.nodup_nil⟩

variable [DecidableEq κ]

instance [DecidableEq α] : DecidableEq (QHash κ α) := fun a b =>
  decidable_of_iff (a.entries = b.entries) ⟨fun h => by cases a; cases b; cases h; rfl, congrArg entries⟩

def value (h : QHash κ α) (k : κ) : Option α := h.entries.lookup k

theorem insert_nodup (h : QHash κ α) (k : κ) (v : α) : (keys ((k, v) :: remove h.entries k)).Nodup := by
  have hk : k ∉ keys (remove h.entries k) := by
    intro hmem
    obtain ⟨e, he, hek⟩ := List.mem_map.1 hmem
    exact (mem_remove.1 he).2 hek
  exact List.nodup_cons.2 ⟨hk, keys_filter_nodup h.nodup _⟩

/-- `insert(k, v)` -/
def insert (h : QHash κ α) (k : κ) (v : α) : QHash κ α := ⟨(k, v) :: remove h.entries k, insert_nodup h k v⟩

/-- `erase(find(k))` -/
def erase (h : QHash κ α) (k : κ) : QHash κ α := ⟨remove h.entries k, keys_filter_nodup h.nodup _⟩

/-- The entries that `f` makes, inserted from the first on. -/
def insertEach (f : β → Option (κ × α)) (h : QHash κ α) (bs : List β) : QHash κ α :=
  bs.foldl (fun h b => match f b with | some e => h.insert e.1 e.2 | none => h) h

/-- The entries in the order of the keys. -/
def sorted (le : κ → κ → Bool) (h : QHash κ α) : List (κ × α) := h.entries.mergeSort fun a b => le a.1 b.1

@[simp] theorem value_empty (k : κ) : (empty : QHash κ α).value k = none := rfl

@[simp] theorem value_insert (h : QHash κ α) (k k' : κ) (v : α) :
    (h.insert k v).value k' = if k' = k then some v else h.value k' := by
  unfold value insert
  by_cases hk : k' = k
  · simp [hk]
  · have hb : (k' == k) = false := beq_eq_false_iff_ne.2 hk
    simp [List.lookup_cons, hb, hk]

theorem length_insert {h : QHash κ α} {k : κ} {v : α} (habsent : h.value k = none) :
    (h.insert k v).entries.length = h.entries.length + 1 :=
  congrArg (fun rest => (rest : List (κ × α)).length + 1) (remove_eq_self habsent)

@[simp] theorem value_erase (h : QHash κ α) (k k' : κ) :
    (h.erase k).value k' = if k' = k then none else h.value k' := lookup_remove h.entries k k'

theorem insertEach_cons (f : β → Option (κ × α)) (h : QHash κ α) (b : β) (bs : List β) :
    insertEach f h (b :: bs) = insertEach f (match f b with | some e => h.insert e.1 e.2 | none => h) bs := rfl

theorem mem_iff {h : QHash κ α} {k : κ} {v : α} : (k, v) ∈ h.entries ↔ h.value k = some v :=
  ⟨lookup_of_mem h.nodup, mem_of_lookup⟩

theorem mem_of_insertEach {f : β → Option (κ × α)} {bs : List β} {h : QHash κ α} {k : κ} {v : α}
    (hv : (insertEach f h bs).value k = some v) : h.value k = some v ∨ ∃ b ∈ bs, f b = some (k, v) := by
  induction bs generalizing h with
  | nil => exact Or.inl hv
  | cons b bs ih =>
    rcases ih hv with hb | ⟨b', hb', hf⟩
    · cases hfb : f b with
      | none =>
        simp only [hfb] at hb
        exact Or.inl hb
      | some e =>
        simp only [hfb, value_insert] at hb
        split at hb
        · rename_i hk
          have he : e = (k, v) := Prod.ext hk.symm (Option.some.inj hb)
          exact Or.inr ⟨b, List.mem_cons_self, he ▸ hfb⟩
        · exact Or.inl hb
    · exact Or.inr ⟨b', List.mem_cons_of_mem b hb', hf⟩

theorem value_insertEach {f : κ × α → Option (κ × α)} {es : List (κ × α)} (hf : ∀ e ∈ es, f e = some e)
    (hn : (keys es).Nodup) (h : QHash κ α) (k : κ) :
    (insertEach f h es).value k = (es.lookup k).or (h.value k) := by
  induction es generalizing h with
  | nil => simp [insertEach]
  | cons e es ih =>
    obtain ⟨k', v⟩ := e
    obtain ⟨hnot, hn⟩ := List.nodup_cons.1 hn
    have hstep : insertEach f h ((k', v) :: es) = insertEach f (h.insert k' v) es := by
      simp [insertEach, hf (k', v) List.mem_cons_self]
    rw [hstep, ih (fun e' he' => hf e' (List.mem_cons_of_mem _ he')) hn, value_insert]
    by_cases hk : k = k'
    · subst hk
      have hnone : es.lookup k = none := by
        rw [lookup_eq_none]
        intro e' he' heq
        exact hnot (List.mem_map.2 ⟨e', he', heq⟩)
      simp [hnone]
    · have hb : (k == k') = false := beq_eq_false_iff_ne.2 hk
      simp [hk, List.lookup_cons, hb]

theorem insertEach_map {γ : Type} (f : β → Option (κ × α)) (g : γ → β) (h : QHash κ α) (cs : List γ) :
    insertEach f h (cs.map g) = insertEach (fun c => f (g c)) h cs := List.foldl_map

theorem insertEach_filterMap {γ : Type} (f : β → Option (κ × α)) (g : γ → Option β) (h : QHash κ α) (cs : List γ) :
    insertEach f h (cs.filterMap g) = insertEach (fun c => (g c).bind f) h cs := by
  induction cs generalizing h with
  | nil => rfl
  | cons c cs ih =>
    cases hg : g c with
    | none =>
      rw [List.filterMap_cons_none hg, ih]
      simp [insertEach, hg]
    | some b =>
      rw [List.filterMap_cons_some hg]
      have hstep := ih (match f b with | some e => h.insert e.1 e.2 | none => h)
      simpa [insertEach, hg] using hstep

/-- The last element with the key. -/
def lastWith (key : β → κ) (k : κ) (bs : List β) : Option β := (bs.filter fun b => key b = k).getLast?

theorem lastWith_concat (key : β → κ) (k : κ) (bs : List β) (b : β) :
    lastWith key k (bs ++ [b]) = if key b = k then some b else lastWith key k bs := by
  unfold lastWith
  rw [List.filter_append]
  by_cases hk : key b = k <;> simp [hk]

theorem lastWith_append (key : β → κ) (k : κ) (as bs : List β) :
    lastWith key k (as ++ bs) = (lastWith key k bs).or (lastWith key k as) := by
  unfold lastWith
  rw [List.filter_append, List.getLast?_append]

/-- An element for each key: what is found is the last one's. -/
theorem value_insertAll (key : β → κ) (val : β → α) (h : QHash κ α) (bs : List β) (k : κ) :
    (insertEach (fun b => some (key b, val b)) h bs).value k = ((lastWith key k bs).map val).or (h.value k) := by
  induction bs using List.reverseRecOn with
  | nil => rfl
  | append_singleton bs b ih =>
    have hstep : insertEach (fun b => some (key b, val b)) h (bs ++ [b]) =
        (insertEach (fun b => some (key b, val b)) h bs).insert (key b) (val b) := by
      unfold insertEach
      rw [List.foldl_append]
      rfl
    rw [hstep, value_insert, lastWith_concat, ih]
    by_cases hk : key b = k
    · rw [if_pos hk, if_pos hk.symm]
      rfl
    · rw [if_neg hk, if_neg (Ne.symm hk)]

/-- An element for some keys: what is found is the last one's. -/
theorem value_insertSome (key : β → Option κ) (val : β → α) (h : QHash κ α) (bs : List β) (k : κ) :
    (insertEach (fun b => (key b).map fun k => (k, val b)) h bs).value k =
      ((lastWith key (some k) bs).map val).or (h.value k) := by
  induction bs using List.reverseRecOn with
  | nil => rfl
  | append_singleton bs b ih =>
    have hstep : insertEach (fun b => (key b).map fun k => (k, val b)) h (bs ++ [b]) =
        match (key b).map fun k => (k, val b) with
        | some e => (insertEach (fun b => (key b).map fun k => (k, val b)) h bs).insert e.1 e.2
        | none => insertEach (fun b => (key b).map fun k => (k, val b)) h bs := List.foldl_concat ..
    rw [hstep, lastWith_concat]
    cases hkey : key b with
    | none =>
      rw [if_neg (by simp)]
      exact ih
    | some k' =>
      simp only [Option.map_some, value_insert, Option.some.injEq]
      by_cases hk : k = k'
      · rw [if_pos hk, if_pos hk.symm]
        rfl
      · rw [if_neg hk, if_neg (Ne.symm hk), ih]

theorem lastWith_congr {μ : Type} [DecidableEq μ] {key : β → κ} {key' : β → μ} {k : κ} {k' : μ} {bs : List β}
    (h : ∀ b ∈ bs, key b = k ↔ key' b = k') : lastWith key k bs = lastWith key' k' bs := by
  unfold lastWith
  rw [List.filter_congr fun b hb => decide_eq_decide.2 (h b hb)]

theorem remove_map (g : α → β) (es : List (κ × α)) (k : κ) :
    remove (es.map fun e => (e.1, g e.2)) k = (remove es k).map fun e => (e.1, g e.2) := List.filter_map ..

/-- Entries whose values are read through `g`. -/
theorem entries_insertEach_map {γ : Type} {f : γ → Option (κ × α)} {f' : γ → Option (κ × β)} (g : α → β) (bs : List γ)
    (hf : ∀ b ∈ bs, f' b = (f b).map fun e => (e.1, g e.2)) {h : QHash κ α} {h' : QHash κ β}
    (hh : h'.entries = h.entries.map fun e => (e.1, g e.2)) :
    (insertEach f' h' bs).entries = (insertEach f h bs).entries.map fun e => (e.1, g e.2) := by
  induction bs generalizing h h' with
  | nil => exact hh
  | cons b bs ih =>
    rw [insertEach_cons, insertEach_cons]
    apply ih fun c hc => hf c (List.mem_cons_of_mem _ hc)
    rw [hf b List.mem_cons_self]
    cases f b with
    | none => exact hh
    | some e => simp [insert, hh, remove_map]

omit [DecidableEq κ] in
theorem mem_sorted {le : κ → κ → Bool} {h : QHash κ α} {e : κ × α} : e ∈ h.sorted le ↔ e ∈ h.entries :=
  (List.mergeSort_perm h.entries _).mem_iff

omit [DecidableEq κ] in
theorem sorted_nodup (le : κ → κ → Bool) (h : QHash κ α) : (keys (h.sorted le)).Nodup :=
  (((List.mergeSort_perm h.entries _).map Prod.fst).nodup_iff).2 h.nodup

theorem value_sorted (le : κ → κ → Bool) (h : QHash κ α) (k : κ) : (h.sorted le).lookup k = h.value k := by
  apply Option.ext
  intro v
  have hsame : (k, v) ∈ h.sorted le ↔ (k, v) ∈ h.entries := mem_sorted
  rw [← mem_iff, ← hsame]
  exact ⟨mem_of_lookup, lookup_of_mem (sorted_nodup le h)⟩

/-- A map is found again in what its entries make iff they are of the kind that is
made, each of itself. -/
theorem value_rebuilt_iff {f : κ × α → Option (κ × α)} {K : κ × α → Prop} (le : κ → κ → Bool) (h : QHash κ α)
    (hself : ∀ e, K e → f e = some e) (hmade : ∀ e e', f e = some e' → K e') :
    (∀ k, (insertEach f empty (h.sorted le)).value k = h.value k) ↔ ∀ e ∈ h.entries, K e := by
  constructor
  · intro hsame e he
    have hv : (insertEach f empty (h.sorted le)).value e.1 = some e.2 := by
      rw [hsame]
      exact mem_iff.1 he
    rcases mem_of_insertEach hv with hnone | ⟨e', -, hf⟩
    · cases hnone
    · exact hmade e' e hf
  · intro hk k
    rw [value_insertEach (fun e he => hself e (hk e (mem_sorted.1 he))) (sorted_nodup le h), value_sorted, value_empty,
      Option.or_none]

end QHash
end NekoEcat
