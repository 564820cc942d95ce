import Mathlib.Data.List.Perm.Basic

/-!
# Handles given out and given back

A ledger of the handles (descriptors, mappings, device handles) a program was
given. A handle may be given out again once it is back, as descriptors are, so
"given back exactly once" is said by the two fields together: nothing is live
and nothing was given back that was not live.

* `Holds`: the live handles are those a record of the program names.
* `Holds.release`: giving back one of them is never a stray.
* `releaseIf_acquire`: what is given back at once leaves no trace.
-/
namespace NekoEcat.Handles

structure Ledger (α : Type) where
  live : List α
  /-- what was given back without being live -/
  strays : List α
  deriving DecidableEq, Repr

namespace Ledger

variable {α : Type}

def empty : Ledger α := ⟨[], []⟩

def acquire (l : Ledger α) (h : α) : Ledger α := { l with live := h :: l.live }

/-- The program has exactly these handles, and gave back no other. -/
def Holds (l : Ledger α) (hs : List α) : Prop := l.live.Perm hs ∧ l.strays = []

theorem holds_empty : Holds (empty : Ledger α) [] := ⟨.rfl, rfl⟩

theorem Holds.acquire {l : Ledger α} {hs : List α} (hl : l.Holds hs) (h : α) : (l.acquire h).Holds (h :: hs) :=
  ⟨hl.1.cons h, hl.2⟩

theorem Holds.perm {l : Ledger α} {hs hs' : List α} (hl : l.Holds hs) (hp : hs.Perm hs') : l.Holds hs' :=
  ⟨hl.1.trans hp, hl.2⟩

theorem Holds.length {l : Ledger α} {hs : List α} (hl : l.Holds hs) : l.live.length = hs.length := hl.1.length_eq

theorem Holds.nil {l : Ledger α} (hl : l.Holds []) : l = empty := by
  obtain ⟨live, strays⟩ := l
  obtain ⟨h1, h2⟩ := hl
  have h1 : live = [] := h1.eq_nil
  have h2 : strays = [] := h2
  rw [h1, h2]
  rfl

variable [DecidableEq α]

def release (l : Ledger α) (h : α) : Ledger α :=
  if h ∈ l.live then { l with live := l.live.erase h } else { l with strays := h :: l.strays }

theorem Holds.release {l : Ledger α} {h : α} {hs : List α} (hl : l.Holds (h :: hs)) : (l.release h).Holds hs := by
  have hmem : h ∈ l.live := hl.1.symm.subset List.mem_cons_self
  rw [Ledger.release, if_pos hmem]
  refine ⟨?_, hl.2⟩
  have := hl.1.erase h
  rwa [List.erase_cons_head] at this

/-- `if (h) release(h);` -/
def releaseIf (l : Ledger α) : Option α → Ledger α
  | some h => l.release h
  | none => l

theorem releaseIf_acquire (l : Ledger α) (h : α) : (l.acquire h).releaseIf (some h) = l := by
  obtain ⟨live, strays⟩ := l
  rw [Ledger.releaseIf, Ledger.release, Ledger.acquire, if_pos List.mem_cons_self, List.erase_cons_head]

theorem Holds.releaseIf {l : Ledger α} {o : Option α} (hl : l.Holds o.toList) : l.releaseIf o = empty := by
  cases o with
  | none => exact hl.nil
  | some h => exact hl.release.nil

end Ledger

end NekoEcat.Handles
