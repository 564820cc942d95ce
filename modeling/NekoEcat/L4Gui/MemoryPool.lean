import NekoEcat.Core.QHash
import NekoEcat.Core.Trace
import Mathlib.Algebra.Order.BigOperators.Group.List
import Mathlib.Algebra.Order.Group.Nat
import Mathlib.Algebra.Order.Ring.Int

/-!
# The memory pool

`MemoryPool<T>` makes its objects when it is made. A free list holds the indices
of those that may be handed out, a hash map those that are. An object that is
handed out while the free list is empty is made then, and what is returned and not
in the hash map is deleted.

* `tracked_call`: the free list and the hash map share out the objects, whatever
  is called.
* `disciplined_call_iff`: which call keeps the discipline.
* `disciplined_iff`: which runs do.

Limitations: calls take effect one at a time, as the mutex has it.
-/
namespace NekoEcat.L4.MemoryPool
open NekoEcat.Trace

abbrev Address := Nat

/-- `new T()`, which makes an object where none is. -/
structure Heap where
  new : List Address → Address
  new_free : ∀ live, new live ∉ live

/-- mirrors apps/ecat-studio/utils/MemoryPool.h:81-87 -/
structure Stats where
  totalAllocations : Nat := 0
  totalDeallocations : Nat := 0
  peakUsage : Nat := 0
  overflowCount : Nat := 0
  externalDeallocations : Nat := 0

/-- mirrors apps/ecat-studio/utils/MemoryPool.h:100-106 -/
structure Pool where
  capacity : Nat
  freeCount : Nat
  pool : List Address
  freeList : List Nat
  allocated : QHash Address Nat
  stats : Stats := {}

/-- The pool, and the objects on the heap. -/
structure St where
  pool : Pool
  live : List Address
  /-- ghost: every object that a call deleted -/
  deleted : List Address
  /-- ghost: every object that was handed out and not returned since -/
  inUse : List Address

/-- The objects of the heap after `n` more. -/
def newObjects (heap : Heap) : Nat → List Address → List Address
  | 0, live => live
  | n + 1, live => newObjects heap n (live ++ [heap.new live])

/-- mirrors apps/ecat-studio/utils/MemoryPool.h:17-27 -/
def create (heap : Heap) (capacity : Nat) : St where
  pool :=
    { capacity := capacity
      freeCount := capacity
      pool := newObjects heap capacity []
      freeList := List.range capacity
      allocated := QHash.empty }
  live := newObjects heap capacity []
  deleted := []
  inUse := []

/-- mirrors apps/ecat-studio/utils/MemoryPool.h:29-33 -/
def destroy (s : St) : St := { s with deleted := s.deleted ++ s.pool.pool }

/-- The object handed out, and the pool.
mirrors apps/ecat-studio/utils/MemoryPool.h:38-56 -/
def allocate (heap : Heap) (s : St) : Address × St :=
  let p := s.pool
  let counted := { p.stats with totalAllocations := p.stats.totalAllocations + 1 }
  if p.freeCount = 0 then
    let obj := heap.new s.live
    (obj, { s with
      pool := { p with stats := { counted with overflowCount := counted.overflowCount + 1 } }
      live := obj :: s.live
      inUse := obj :: s.inUse })
  else
    let freeCount := p.freeCount - 1
    let idx := p.freeList.getD freeCount 0
    let obj := p.pool.getD idx 0
    (obj, { s with
      pool :=
        { p with
          freeCount := freeCount
          allocated := p.allocated.insert obj idx
          stats := { counted with peakUsage := max counted.peakUsage (p.capacity - freeCount) } }
      inUse := obj :: s.inUse })

/-- mirrors apps/ecat-studio/utils/MemoryPool.h:58-73 -/
def deallocate (s : St) : Option Address → St
  | none => s
  | some ptr =>
    let p := s.pool
    match p.allocated.value ptr with
    | some idx =>
      { s with
        pool :=
          { p with
            freeList := p.freeList.set p.freeCount idx
            freeCount := p.freeCount + 1
            allocated := p.allocated.erase ptr
            stats := { p.stats with totalDeallocations := p.stats.totalDeallocations + 1 } }
        inUse := s.inUse.erase ptr }
    | none =>
      { s with
        pool := { p with stats := { p.stats with externalDeallocations := p.stats.externalDeallocations + 1 } }
        live := s.live.erase ptr
        deleted := ptr :: s.deleted
        inUse := s.inUse.erase ptr }

/-- A call; every `new T()` may be the work of another heap. -/
inductive Call where
  | allocate (heap : Heap)
  | deallocate (ptr : Option Address)

def call (s : St) : Call → St
  | .allocate heap => (allocate heap s).2
  | .deallocate ptr => deallocate s ptr

/-- The objects of the free list. -/
def freeObjects (p : Pool) : List Address := (p.freeList.take p.freeCount).map fun idx => p.pool.getD idx 0

/-- The discipline of the pool. -/
structure Disciplined (s : St) : Prop where
  /-- The free list and what is handed out share out the objects of the pool. -/
  partition : (freeObjects s.pool ++ s.inUse.filter (· ∈ s.pool.pool)).Perm s.pool.pool
  /-- Nothing is handed out that is in use. -/
  once : s.inUse.Nodup
  alive : ∀ a ∈ s.inUse, a ∈ s.live
  owned : ∀ a ∈ s.pool.pool, a ∈ s.live ∧ a ∉ s.deleted
  /-- Its destruction deletes each object of the pool, and nothing else does. -/
  destroyed : ∀ a ∈ s.pool.pool, (destroy s).deleted.count a = 1

/-- An object of the pool is returned while it is handed out. -/
def Returned (s : St) : Call → Prop
  | .deallocate (some ptr) => ptr ∈ s.pool.pool → ptr ∈ s.inUse
  | _ => True

/-! ## The indices -/

/-- The free list and the hash map share out the indices. -/
structure Tracked (p : Pool) : Prop where
  nodup : p.pool.Nodup
  length : p.pool.length = p.capacity
  freeLength : p.freeList.length = p.capacity
  count : p.freeCount ≤ p.capacity
  partition : (p.freeList.take p.freeCount ++ p.allocated.entries.map Prod.snd).Perm (List.range p.capacity)
  found : ∀ a i, p.allocated.value a = some i → p.pool[i]? = some a

section
variable {p : Pool}

theorem Tracked.objects (h : Tracked p) : (freeObjects p ++ Assoc.keys p.allocated.entries).Perm p.pool := by
  have hkeys : Assoc.keys p.allocated.entries = (p.allocated.entries.map Prod.snd).map fun idx => p.pool.getD idx 0 := by
    rw [Assoc.keys, List.map_map]
    refine List.map_congr_left fun e he => ?_
    have hfound := h.found e.1 e.2 (QHash.mem_iff.1 he)
    simp [List.getD_eq_getElem?_getD, hfound]
  have hpool : (List.range p.capacity).map (fun idx => p.pool.getD idx 0) = p.pool := by
    refine List.ext_getElem (by simp [h.length]) fun i h₁ h₂ => ?_
    simp [List.getD_eq_getElem?_getD, h₂]
  have hmapped := h.partition.map fun idx => p.pool.getD idx 0
  rwa [List.map_append, ← hkeys, hpool] at hmapped

theorem Tracked.value_ne_none (h : Tracked p) {a : Address} (ha : p.allocated.value a ≠ none) : a ∈ p.pool := by
  obtain ⟨i, hi⟩ := Option.ne_none_iff_exists'.1 ha
  exact List.mem_of_getElem? (h.found a i hi)

/-- What the next call hands out. -/
theorem Tracked.next (h : Tracked p) (hfree : p.freeCount ≠ 0) :
    ∃ idx obj, p.freeList[p.freeCount - 1]? = some idx ∧ p.pool[idx]? = some obj ∧ p.allocated.value obj = none := by
  have hlt : p.freeCount - 1 < p.freeList.length := by
    have hcount := h.count
    have hlength := h.freeLength
    omega
  have htake : p.freeList[p.freeCount - 1] ∈ p.freeList.take p.freeCount := by
    rw [List.mem_iff_getElem]
    exact ⟨p.freeCount - 1, by rw [List.length_take]; omega, by rw [List.getElem_take]⟩
  have hidx : p.freeList[p.freeCount - 1] < p.pool.length := by
    have hrange := h.partition.mem_iff.1 (List.mem_append_left _ htake)
    rw [h.length]
    exact List.mem_range.1 hrange
  refine ⟨_, _, List.getElem?_eq_getElem hlt, List.getElem?_eq_getElem hidx, ?_⟩
  cases hvalue : p.allocated.value p.pool[p.freeList[p.freeCount - 1]] with
  | none => rfl
  | some i =>
    -- a handed-out index would come twice
    have hpool := h.found _ i hvalue
    have hsame : i = p.freeList[p.freeCount - 1] := by
      have hi : i < p.pool.length := by
        by_contra hge
        rw [List.getElem?_eq_none (by omega)] at hpool
        cases hpool
      rw [List.getElem?_eq_getElem hi, Option.some.injEq] at hpool
      exact (List.Nodup.getElem_inj_iff h.nodup).1 hpool
    have hboth : i ∈ p.allocated.entries.map Prod.snd := List.mem_map.2 ⟨_, QHash.mem_iff.2 hvalue, rfl⟩
    have hnodup : (p.freeList.take p.freeCount ++ p.allocated.entries.map Prod.snd).Nodup :=
      h.partition.nodup_iff.2 List.nodup_range
    exact absurd hsame.symm ((List.nodup_append.1 hnodup).2.2 _ htake i hboth)

theorem Tracked.hand (h : Tracked p) (hfree : p.freeCount ≠ 0) {idx : Nat} {obj : Address}
    (hidx : p.freeList[p.freeCount - 1]? = some idx) (hobj : p.pool[idx]? = some obj)
    (hnone : p.allocated.value obj = none) (stats : Stats) :
    Tracked { p with freeCount := p.freeCount - 1, allocated := p.allocated.insert obj idx, stats := stats } := by
  obtain ⟨n, hn⟩ := Nat.exists_eq_add_one_of_ne_zero hfree
  have htake : p.freeList.take p.freeCount = p.freeList.take n ++ [idx] := by
    rw [hn, Nat.add_sub_cancel] at hidx
    rw [hn, List.take_add_one, hidx]
    rfl
  have hentries : (p.allocated.insert obj idx).entries = (obj, idx) :: p.allocated.entries :=
    congrArg _ (Assoc.remove_eq_self hnone)
  refine ⟨h.nodup, h.length, h.freeLength, ?_, ?_, ?_⟩
  · exact Nat.le_trans (Nat.sub_le _ _) h.count
  · have hpartition := h.partition
    rw [htake, List.append_assoc] at hpartition
    rw [hentries, hn, Nat.add_sub_cancel]
    exact hpartition
  · intro a i hvalue
    rw [QHash.value_insert] at hvalue
    split at hvalue
    · rename_i heq
      rw [heq, ← Option.some.inj hvalue]
      exact hobj
    · exact h.found a i hvalue

theorem Tracked.giveBack (h : Tracked p) {a : Address} {idx : Nat} (hvalue : p.allocated.value a = some idx) (stats : Stats) :
    Tracked { p with
      freeList := p.freeList.set p.freeCount idx, freeCount := p.freeCount + 1, allocated := p.allocated.erase a,
      stats := stats } := by
  have hremoved := Assoc.perm_remove p.allocated.nodup hvalue
  have hlt : p.freeCount < p.freeList.length := by
    have hpartition := h.partition.length_eq
    have hentries := hremoved.length_eq
    rw [List.length_append, List.length_take, List.length_map, List.length_range, hentries, List.length_cons] at hpartition
    have hcount := h.count
    have hlength := h.freeLength
    omega
  have htake : (p.freeList.set p.freeCount idx).take (p.freeCount + 1) = p.freeList.take p.freeCount ++ [idx] := by
    rw [List.take_add_one, List.take_set_of_le (Nat.le_refl _), List.getElem?_set_self hlt]
    rfl
  refine ⟨h.nodup, h.length, ?_, ?_, ?_, ?_⟩
  · rw [List.length_set, h.freeLength]
  · have hlength := h.freeLength
    change p.freeCount + 1 ≤ p.capacity
    omega
  · change ((p.freeList.set p.freeCount idx).take (p.freeCount + 1) ++ (Assoc.remove p.allocated.entries a).map Prod.snd).Perm
      (List.range p.capacity)
    rw [htake, List.append_assoc]
    exact ((hremoved.map Prod.snd).symm.append_left _).trans h.partition
  · intro b i hb
    rw [QHash.value_erase] at hb
    split at hb
    · cases hb
    · exact h.found b i hb

theorem Tracked.counted (h : Tracked p) (stats : Stats) : Tracked { p with stats := stats } :=
  ⟨h.nodup, h.length, h.freeLength, h.count, h.partition, h.found⟩

end

/-! ## The calls -/

section
variable {s : St} {heap : Heap} {ptr : Address}

theorem allocate_full (h : s.pool.freeCount = 0) : ∃ stats, allocate heap s = (heap.new s.live,
    { s with
      pool := { s.pool with stats := stats }, live := heap.new s.live :: s.live, inUse := heap.new s.live :: s.inUse }) := by
  simp only [allocate]
  rw [if_pos h]
  exact ⟨_, rfl⟩

theorem allocate_next (h : s.pool.freeCount ≠ 0) {idx : Nat} {obj : Address}
    (hidx : s.pool.freeList[s.pool.freeCount - 1]? = some idx) (hobj : s.pool.pool[idx]? = some obj) :
    ∃ stats, allocate heap s = (obj,
      { s with
        pool := { s.pool with
          freeCount := s.pool.freeCount - 1, allocated := s.pool.allocated.insert obj idx, stats := stats }
        inUse := obj :: s.inUse }) := by
  have hget : s.pool.freeList.getD (s.pool.freeCount - 1) 0 = idx := by rw [List.getD_eq_getElem?_getD, hidx]; rfl
  have hget' : s.pool.pool.getD idx 0 = obj := by rw [List.getD_eq_getElem?_getD, hobj]; rfl
  simp only [allocate]
  rw [if_neg h, hget, hget']
  exact ⟨_, rfl⟩

theorem deallocate_found {idx : Nat} (h : s.pool.allocated.value ptr = some idx) : ∃ stats, deallocate s (some ptr) =
    { s with
      pool := { s.pool with
        freeList := s.pool.freeList.set s.pool.freeCount idx, freeCount := s.pool.freeCount + 1,
        allocated := s.pool.allocated.erase ptr, stats := stats }
      inUse := s.inUse.erase ptr } := by
  simp only [deallocate, h]
  exact ⟨_, rfl⟩

theorem deallocate_other (h : s.pool.allocated.value ptr = none) : ∃ stats, deallocate s (some ptr) =
    { s with
      pool := { s.pool with stats := stats }, live := s.live.erase ptr, deleted := ptr :: s.deleted,
      inUse := s.inUse.erase ptr } := by
  simp only [deallocate, h]
  exact ⟨_, rfl⟩

theorem tracked_allocate (h : Tracked s.pool) (heap : Heap) : Tracked (allocate heap s).2.pool := by
  by_cases hfree : s.pool.freeCount = 0
  · obtain ⟨stats, heq⟩ := @allocate_full s heap hfree
    rw [heq]
    exact h.counted stats
  · obtain ⟨idx, obj, hidx, hobj, hnone⟩ := h.next hfree
    obtain ⟨stats, heq⟩ := @allocate_next s heap hfree idx obj hidx hobj
    rw [heq]
    exact h.hand hfree hidx hobj hnone stats

/-- **The indices are shared out**, whatever is called. -/
theorem tracked_call (h : Tracked s.pool) (c : Call) : Tracked (call s c).pool := by
  cases c with
  | allocate heap => exact tracked_allocate h heap
  | deallocate ptr =>
    cases ptr with
    | none => exact h
    | some ptr =>
      cases hvalue : s.pool.allocated.value ptr with
      | some idx =>
        obtain ⟨stats, heq⟩ := deallocate_found hvalue
        rw [call, heq]
        exact h.giveBack hvalue stats
      | none =>
        obtain ⟨stats, heq⟩ := deallocate_other hvalue
        rw [call, heq]
        exact h.counted stats

/-- What the hash map holds is what of the pool is in use. -/
theorem partition_iff (h : Tracked s.pool) :
    (freeObjects s.pool ++ s.inUse.filter (· ∈ s.pool.pool)).Perm s.pool.pool ↔
      (Assoc.keys s.pool.allocated.entries).Perm (s.inUse.filter (· ∈ s.pool.pool)) := by
  constructor
  · intro hpartition
    exact (List.perm_append_left_iff _).1 (h.objects.trans hpartition.symm)
  · intro hkeys
    exact (hkeys.symm.append_left _).trans h.objects

theorem value_ne_none_iff (h : Tracked s.pool) (hd : Disciplined s) (a : Address) :
    s.pool.allocated.value a ≠ none ↔ a ∈ s.pool.pool ∧ a ∈ s.inUse := by
  have hmem := ((partition_iff h).1 hd.partition).mem_iff (a := a)
  rw [List.mem_filter] at hmem
  constructor
  · intro hvalue
    obtain ⟨i, hi⟩ := Option.ne_none_iff_exists'.1 hvalue
    have hboth := hmem.1 (List.mem_map.2 ⟨(a, i), QHash.mem_iff.2 hi, rfl⟩)
    exact ⟨h.value_ne_none hvalue, hboth.1⟩
  · rintro ⟨hpool, huse⟩ hnone
    obtain ⟨e, he, hea⟩ := List.mem_map.1 (hmem.2 ⟨huse, by simpa using hpool⟩)
    rw [← hea, QHash.mem_iff.1 (show (e.1, e.2) ∈ _ from he)] at hnone
    cases hnone

theorem disciplined_allocate (h : Tracked s.pool) (hd : Disciplined s) (heap : Heap) :
    Disciplined (allocate heap s).2 := by
  have ht := tracked_allocate h heap
  by_cases hfree : s.pool.freeCount = 0
  · obtain ⟨stats, heq⟩ := @allocate_full s heap hfree
    rw [heq] at ht ⊢
    have hnew := heap.new_free s.live
    have hpool : heap.new s.live ∉ s.pool.pool := fun hmem => hnew (hd.owned _ hmem).1
    refine ⟨(partition_iff ht).2 ?_, ?_, ?_, ?_, hd.destroyed⟩
    · simp only
      rw [List.filter_cons_of_neg (by simpa using hpool)]
      exact (partition_iff h).1 hd.partition
    · exact List.nodup_cons.2 ⟨fun hmem => hnew (hd.alive _ hmem), hd.once⟩
    · intro a ha
      rcases List.mem_cons.1 ha with rfl | ha
      · exact List.mem_cons_self
      · exact List.mem_cons_of_mem _ (hd.alive a ha)
    · exact fun a ha => ⟨List.mem_cons_of_mem _ (hd.owned a ha).1, (hd.owned a ha).2⟩
  · obtain ⟨idx, obj, hidx, hobj, hnone⟩ := h.next hfree
    obtain ⟨stats, heq⟩ := @allocate_next s heap hfree idx obj hidx hobj
    rw [heq] at ht ⊢
    have hpool : obj ∈ s.pool.pool := List.mem_of_getElem? hobj
    have huse : obj ∉ s.inUse := fun hmem => (value_ne_none_iff h hd obj).2 ⟨hpool, hmem⟩ hnone
    refine ⟨(partition_iff ht).2 ?_, List.nodup_cons.2 ⟨huse, hd.once⟩, ?_, hd.owned, hd.destroyed⟩
    · have hentries : (s.pool.allocated.insert obj idx).entries = (obj, idx) :: s.pool.allocated.entries :=
        congrArg _ (Assoc.remove_eq_self hnone)
      simp only
      rw [List.filter_cons_of_pos (by simpa using hpool), hentries]
      exact ((partition_iff h).1 hd.partition).cons obj
    · intro a ha
      rcases List.mem_cons.1 ha with rfl | ha
      · exact (hd.owned _ hpool).1
      · exact hd.alive a ha

/-- An object of the pool that is returned is free again. -/
theorem disciplined_returned (h : Tracked s.pool) (hd : Disciplined s) {idx : Nat}
    (hvalue : s.pool.allocated.value ptr = some idx) : Disciplined (deallocate s (some ptr)) := by
  obtain ⟨stats, heq⟩ := deallocate_found hvalue
  have ht := h.giveBack hvalue stats
  obtain ⟨hpool, huse⟩ := (value_ne_none_iff h hd ptr).1 (by rw [hvalue]; exact Option.some_ne_none idx)
  rw [heq]
  refine ⟨(partition_iff ht).2 ?_, hd.once.erase ptr, ?_, hd.owned, hd.destroyed⟩
  · have hkeys := ((Assoc.perm_remove s.pool.allocated.nodup hvalue).map Prod.fst).symm
    have hused := (List.perm_cons_erase huse).filter (· ∈ s.pool.pool)
    rw [List.filter_cons_of_pos (by simpa using hpool)] at hused
    exact ((hkeys.trans ((partition_iff h).1 hd.partition)).trans hused).cons_inv
  · exact fun a ha => hd.alive a (List.mem_of_mem_erase ha)

/-- What is deleted is no object of the pool. -/
theorem disciplined_external (h : Tracked s.pool) (hd : Disciplined s) (hvalue : s.pool.allocated.value ptr = none)
    (hpool : ptr ∉ s.pool.pool) : Disciplined (deallocate s (some ptr)) := by
  obtain ⟨stats, heq⟩ := deallocate_other hvalue
  have hne : ∀ a ∈ s.pool.pool, a ≠ ptr := fun a ha hsame => hpool (hsame ▸ ha)
  rw [heq]
  refine ⟨(partition_iff (h.counted stats)).2 ?_, hd.once.erase ptr, ?_, ?_, ?_⟩
  · have hused : (s.inUse.erase ptr).filter (· ∈ s.pool.pool) = s.inUse.filter (· ∈ s.pool.pool) := by
      rw [hd.once.erase_eq_filter, List.filter_filter]
      refine List.filter_congr fun a _ => ?_
      by_cases ha : a ∈ s.pool.pool
      · simp [ha, hne a ha]
      · simp [ha]
    simp only
    rw [hused]
    exact (partition_iff h).1 hd.partition
  · intro a ha
    obtain ⟨hdiff, ha⟩ := hd.once.mem_erase_iff.1 ha
    exact (List.mem_erase_of_ne hdiff).2 (hd.alive a ha)
  · intro a ha
    refine ⟨(List.mem_erase_of_ne (hne a ha)).2 (hd.owned a ha).1, fun hmem => ?_⟩
    rcases List.mem_cons.1 hmem with hsame | hmem
    · exact hne a ha hsame
    · exact (hd.owned a ha).2 hmem
  · intro a ha
    have hcount := hd.destroyed a ha
    rw [destroy] at hcount ⊢
    simp only [List.cons_append]
    rw [List.count_cons_of_ne (Ne.symm (hne a ha))]
    exact hcount

/-- **Which call keeps the discipline**: every one but the return of an object of
the pool that is not handed out. -/
theorem disciplined_call_iff (h : Tracked s.pool) (hd : Disciplined s) (c : Call) : Disciplined (call s c) ↔ Returned s c := by
  cases c with
  | allocate heap => exact iff_of_true (disciplined_allocate h hd heap) trivial
  | deallocate ptr =>
    cases ptr with
    | none => exact iff_of_true hd trivial
    | some ptr =>
      have hiff := value_ne_none_iff h hd ptr
      cases hvalue : s.pool.allocated.value ptr with
      | some idx =>
        have hreturned := (hiff.1 (by rw [hvalue]; exact Option.some_ne_none idx)).2
        exact iff_of_true (disciplined_returned h hd hvalue) fun _ => hreturned
      | none =>
        by_cases hpool : ptr ∈ s.pool.pool
        · have huse : ptr ∉ s.inUse := fun hmem => hiff.2 ⟨hpool, hmem⟩ hvalue
          refine iff_of_false (fun hafter => ?_) fun hreturned => huse (hreturned hpool)
          obtain ⟨stats, heq⟩ := deallocate_other hvalue
          rw [call, heq] at hafter
          exact (hafter.owned ptr hpool).2 List.mem_cons_self
        · exact iff_of_true (disciplined_external h hd hvalue hpool) fun hmem => absurd hmem hpool

end

/-! ## The runs -/

theorem newObjects_spec (heap : Heap) (n : Nat) (live : List Address) (h : live.Nodup) :
    (newObjects heap n live).Nodup ∧ (newObjects heap n live).length = live.length + n := by
  induction n generalizing live with
  | zero => exact ⟨h, rfl⟩
  | succ n ih =>
    have hnodup : (live ++ [heap.new live]).Nodup := by
      refine List.nodup_append.2 ⟨h, List.nodup_singleton _, fun a ha b hb hab => ?_⟩
      rw [hab, List.mem_singleton.1 hb] at ha
      exact heap.new_free live ha
    obtain ⟨hafter, hlength⟩ := ih _ hnodup
    refine ⟨hafter, ?_⟩
    rw [newObjects, hlength, List.length_append, List.length_singleton]
    omega

theorem tracked_create (heap : Heap) (capacity : Nat) : Tracked (create heap capacity).pool := by
  obtain ⟨hnodup, hlength⟩ := newObjects_spec heap capacity [] List.nodup_nil
  refine ⟨hnodup, by simpa [create] using hlength, List.length_range, Nat.le_refl _, ?_, ?_⟩
  · simp [create, QHash.empty]
  · intro a i hvalue
    cases hvalue

theorem disciplined_create (heap : Heap) (capacity : Nat) : Disciplined (create heap capacity) := by
  have ht := tracked_create heap capacity
  refine ⟨(partition_iff ht).2 (List.Perm.refl []), List.nodup_nil, ?_, ?_, ?_⟩
  · exact fun a ha => absurd ha List.not_mem_nil
  · exact fun a ha => ⟨ha, List.not_mem_nil⟩
  · exact fun a ha => List.count_eq_one_of_mem ht.nodup ha

/-- **The discipline of the pool** holds after every call of a run iff each call
that returns an object of the pool returns one that is handed out. -/
theorem disciplined_iff (heap : Heap) (capacity : Nat) (calls : List Call) :
    (∀ pre, pre <+: calls → Disciplined (exec call (create heap capacity) pre)) ↔
      Along call Returned (create heap capacity) calls :=
  along_iff (J := fun s => Tracked s.pool) call (fun _ c h => tracked_call h c) (fun _ c h hd => disciplined_call_iff h hd c)
    calls (tracked_create heap capacity) (disciplined_create heap capacity)

/-- Addresses one after the other. -/
def nextAddress : Heap where
  new := fun live => live.sum + 1
  new_free := fun live hmem => Nat.not_succ_le_self live.sum (List.le_sum_of_mem hmem)

/-- An object of the pool that is returned twice is deleted, and is in the free
list. -/
theorem returned_twice : ¬ ∀ (heap : Heap) (capacity : Nat) (calls : List Call),
    Disciplined (exec call (create heap capacity) calls) := by
  intro h
  have hafter := h nextAddress 1 [.allocate nextAddress, .deallocate (some 1), .deallocate (some 1)]
  exact (hafter.owned 1 (by decide)).2 (by decide)

end NekoEcat.L4.MemoryPool
