import NekoEcat.Core.Handles
import NekoEcat.L2Daemon.NativeMaster

/-!
# The handles of the master cache

A `MasterGuard` takes the backend's mutex, and finds or opens the handle of the
master its call is about. The handle belongs to the cache; the guard holds it by
value and the cache by reference, and releases only a handle the cache does not
have.

* `Held`: which handle is open after a sequence of library calls, none having
  been open beside another or released twice before.
* `step_inv`: what every acquisition, move and destruction keeps.
* `cache_sound`: every handle is released exactly once, and a guard's handle is
  the open, reserved one of its call's master.
* `masterGuard_refines`: the cache as the daemon's reservation.
-/
namespace NekoEcat.L2.MasterCache
open NekoEcat.Trace NekoEcat.Handles NekoEcat.L2.NativeMaster

variable {H : Type}

/-! ## The library -/

/-- A successful call of the library that concerns a handle. -/
inductive Call (H : Type) where
  | opened (h : H) (index : UInt32)
  | reserved (h : H)
  | released (h : H)

/-- What an open handle is. -/
structure Master where
  index : UInt32
  reserved : Bool
  deriving DecidableEq, Repr

structure Library (H : Type) where
  handles : Ledger H
  masters : H → Option Master

section Library
variable [DecidableEq H]

def Library.call (w : Library H) : Call H → Library H
  | .opened h index => ⟨w.handles.acquire h, Function.update w.masters h (some ⟨index, false⟩)⟩
  | .reserved h => { w with masters := Function.update w.masters h ((w.masters h).map ({ · with reserved := true })) }
  | .released h => ⟨w.handles.release h, Function.update w.masters h none⟩

def library (calls : List (Call H)) : Library H := calls.foldl Library.call ⟨.empty, fun _ => none⟩

theorem library_concat (calls : List (Call H)) (c : Call H) : library (calls ++ [c]) = (library calls).call c := by
  rw [library, List.foldl_append]
  rfl

/-- At no time were two handles open, and none was released that was not open. -/
def Orderly (calls : List (Call H)) : Prop :=
  ∀ p, p <+: calls → (library p).handles.live.length ≤ 1 ∧ (library p).handles.strays = []

/-- After the calls the program has exactly this handle. -/
structure Held (calls : List (Call H)) (o : Option H) : Prop where
  holds : (library calls).handles.Holds o.toList
  orderly : Orderly calls

theorem held_nil : Held ([] : List (Call H)) none where
  holds := Ledger.holds_empty
  orderly := by
    intro p hp
    rw [List.prefix_nil.1 hp]
    exact ⟨Nat.zero_le _, rfl⟩

/-- One more call that leaves the program with one handle at most. -/
theorem Held.concat {calls : List (Call H)} {o o' : Option H} (h : Held calls o) {c : Call H}
    (hc : ((library calls).call c).handles.Holds o'.toList) : Held (calls ++ [c]) o' := by
  rw [← library_concat] at hc
  refine ⟨hc, fun p hp => ?_⟩
  rcases List.prefix_concat_iff.1 hp with rfl | hp
  · refine ⟨?_, hc.2⟩
    rw [hc.length]
    exact Option.length_toList_le
  · exact h.orderly p hp

theorem Held.opened {calls : List (Call H)} (hn : Held calls none) (h : H) (index : UInt32) :
    Held (calls ++ [.opened h index]) (some h) :=
  hn.concat (hn.holds.acquire h)

theorem Held.reserved {calls : List (Call H)} {o : Option H} (ho : Held calls o) (h : H) :
    Held (calls ++ [.reserved h]) o :=
  ho.concat ho.holds

theorem Held.released {calls : List (Call H)} {h : H} (hs : Held calls (some h)) :
    Held (calls ++ [.released h]) none :=
  hs.concat hs.holds.release

end Library

/-! ## The guard -/

/-- `index` is the master index of the call that made it.
mirrors src/igh/EthercatNativeBackend.h:21-37 -/
structure Guard (H : Type) where
  /-- `lock_.owns_lock()` -/
  locked : Bool
  /-- `master_`, which is what `get` returns -/
  master : Option H
  index : Int

/-- The backend's fields, the guards alive, and the library calls made.
mirrors src/igh/EthercatNativeBackend.h:82-84 -/
structure State (H : Type) where
  cachedMaster : Option H
  cachedMasterIndex : Int
  guards : List (Guard H)
  calls : List (Call H)

/-- What `ecrt_open_master` returns, and whether `ecrt_master_reserve` returns 0. -/
structure Answer (H : Type) where
  handle : Option H
  reserves : Bool

def State.call (s : State H) (c : Call H) : State H := { s with calls := s.calls ++ [c] }

def State.add (s : State H) (g : Guard H) : State H := { s with guards := s.guards ++ [g] }

/-- mirrors src/igh/EthercatNativeBackend.cpp:18-22, 118-122 -/
def releaseCached (s : State H) : State H :=
  match s.cachedMaster with
  | some h => { s.call (.released h) with cachedMaster := none, cachedMasterIndex := -1 }
  | none => s

/-- mirrors src/igh/EthercatNativeBackend.cpp:23-33 -/
def openMaster (s : State H) (a : Answer H) (index : Int) : State H :=
  match a.handle with
  | none => s.add ⟨true, none, index⟩
  | some h =>
    let s := s.call (.opened h (ecrtIndex index))
    if !a.reserves then (s.call (.released h)).add ⟨true, none, index⟩
    else
      { (s.call (.reserved h)).add ⟨true, some h, index⟩ with
        cachedMaster := some h
        cachedMasterIndex := index }

/-- mirrors src/igh/EthercatNativeBackend.cpp:12-34 -/
def masterGuard (s : State H) (a : Answer H) (index : Int) : State H :=
  if s.cachedMaster.isSome ∧ s.cachedMasterIndex = index then s.add ⟨true, s.cachedMaster, index⟩
  else openMaster (releaseCached s) a index

/-- A call waits while a guard has the mutex.
mirrors src/igh/EthercatNativeBackend.cpp:62-69 -/
def acquireMaster (s : State H) (a : Answer H) (master : List Char) : State H :=
  if s.guards.any (·.locked) then s else masterGuard s a (masterIndex master)

def Guard.moved (g : Guard H) : Guard H := { g with locked := false, master := none }

/-- mirrors src/igh/EthercatNativeBackend.cpp:42-46 -/
def moveConstruct (s : State H) (i : Nat) : State H :=
  match s.guards[i]? with
  | some other => { s with guards := s.guards.set i other.moved ++ [other] }
  | none => s

@[simp] theorem releaseCached_cachedMaster (s : State H) : (releaseCached s).cachedMaster = none := by
  unfold releaseCached
  cases hc : s.cachedMaster <;> simp [hc]

@[simp] theorem releaseCached_guards (s : State H) : (releaseCached s).guards = s.guards := by
  unfold releaseCached
  cases s.cachedMaster <;> rfl

section
variable [DecidableEq H]

/-- `if (master_ && master_ != cachedMaster_) ecrt_release_master(master_);` -/
def releaseForeign (s : State H) (g : Guard H) : State H :=
  match g.master with
  | some h => if s.cachedMaster ≠ some h then s.call (.released h) else s
  | none => s

/-- The references of the two guards are to the fields of one backend.
mirrors src/igh/EthercatNativeBackend.cpp:48-60 -/
def moveAssign (s : State H) (i j : Nat) : State H :=
  if i = j then s
  else
    match s.guards[i]?, s.guards[j]? with
    | some g, some other =>
      let s := releaseForeign s g
      { s with guards := (s.guards.set i other).set j other.moved }
    | _, _ => s

/-- mirrors src/igh/EthercatNativeBackend.cpp:36-40 -/
def destroyGuard (s : State H) (i : Nat) : State H :=
  match s.guards[i]? with
  | some g => { releaseForeign s g with guards := s.guards.eraseIdx i }
  | none => s

inductive Event (H : Type) where
  | acquire (master : List Char) (a : Answer H)
  | construct (i : Nat)
  | assign (i j : Nat)
  | destroy (i : Nat)

def step (s : State H) : Event H → State H
  | .acquire master a => acquireMaster s a master
  | .construct i => moveConstruct s i
  | .assign i j => moveAssign s i j
  | .destroy i => destroyGuard s i

/-- A new backend. -/
def initial : State H := ⟨none, -1, [], []⟩

/-- mirrors src/igh/EthercatNativeBackend.cpp:116-124 -/
def destroyBackend (s : State H) : State H := releaseCached s

/-! ## What every step keeps -/

/-- The handle of a guard is the cached one. -/
def Cached (s : State H) (g : Guard H) : Prop :=
  ∀ h, g.master = some h → g.locked = true ∧ s.cachedMaster = some h ∧ s.cachedMasterIndex = g.index

structure Inv (s : State H) : Prop where
  held : Held s.calls s.cachedMaster
  master : ∀ h, s.cachedMaster = some h →
    (library s.calls).masters h = some ⟨ecrtIndex s.cachedMasterIndex, true⟩
  guards : ∀ g ∈ s.guards, Cached s g

theorem initial_inv : Inv (initial : State H) where
  held := held_nil
  master := nofun
  guards := nofun

/-- The cached handle is never a foreign one. -/
theorem releaseForeign_eq {s : State H} {g : Guard H} (hg : Cached s g) : releaseForeign s g = s := by
  unfold releaseForeign
  cases hm : g.master with
  | none => rfl
  | some h => exact if_neg fun hc => hc (hg h hm).2.1

theorem Inv.of_guards {s : State H} (hs : Inv s) {gs : List (Guard H)} (hg : ∀ g ∈ gs, Cached s g) :
    Inv { s with guards := gs } :=
  ⟨hs.held, hs.master, hg⟩

theorem releaseCached_held {s : State H} (hs : Inv s) : Held (releaseCached s).calls none := by
  obtain ⟨hheld, -, -⟩ := hs
  obtain ⟨cachedMaster, cachedMasterIndex, guards, calls⟩ := s
  cases cachedMaster with
  | none => exact hheld
  | some h => exact hheld.released

/-- While the mutex is free no guard has a handle. -/
theorem cached_free {s : State H} (hs : Inv s) (hfree : ¬ s.guards.any (·.locked) = true) (s' : State H) :
    ∀ g ∈ s.guards, Cached s' g := by
  intro g hg h hm
  exact absurd (List.any_eq_true.2 ⟨g, hg, (hs.guards g hg h hm).1⟩) hfree

/-- A new handle is cached once it is reserved, and released at once when that fails. -/
theorem openMaster_inv {s : State H} (hheld : Held s.calls none) (hnone : s.cachedMaster = none)
    (hgs : ∀ s', ∀ g ∈ s.guards, Cached s' g) (a : Answer H) (index : Int) : Inv (openMaster s a index) := by
  have hguards {s' : State H} {g : Guard H} (hg : Cached s' g) : ∀ g' ∈ s.guards ++ [g], Cached s' g' :=
    List.forall_mem_append.2 ⟨hgs s', by simpa using hg⟩
  obtain ⟨cachedMaster, cachedMasterIndex, guards, calls⟩ := s
  obtain rfl : cachedMaster = none := hnone
  obtain ⟨handle, reserves⟩ := a
  cases handle with
  | none => exact ⟨hheld, nofun, hguards nofun⟩
  | some h =>
    have hopened := hheld.opened h (ecrtIndex index)
    cases reserves with
    | false => exact ⟨hopened.released, nofun, hguards nofun⟩
    | true =>
      refine ⟨hopened.reserved h, fun h' hh => ?_, hguards fun h' hm => ⟨rfl, hm, rfl⟩⟩
      obtain rfl : h = h' := Option.some.inj hh
      show (library (calls ++ [.opened h (ecrtIndex index)] ++ [.reserved h])).masters h = _
      rw [library_concat, library_concat]
      simp [Library.call, openMaster]

theorem masterGuard_inv {s : State H} (hs : Inv s) (hfree : ¬ s.guards.any (·.locked) = true) (a : Answer H)
    (index : Int) : Inv (masterGuard s a index) := by
  have hgs := cached_free hs hfree
  unfold masterGuard
  by_cases hhit : s.cachedMaster.isSome ∧ s.cachedMasterIndex = index
  · rw [if_pos hhit]
    have hnew : Cached s ⟨true, s.cachedMaster, index⟩ := fun h hm => ⟨rfl, hm, hhit.2⟩
    exact hs.of_guards (List.forall_mem_append.2 ⟨hgs s, by simpa using hnew⟩)
  · rw [if_neg hhit]
    apply openMaster_inv (releaseCached_held hs) (releaseCached_cachedMaster s)
    rw [releaseCached_guards]
    exact hgs

theorem step_inv (s : State H) (e : Event H) (hs : Inv s) : Inv (step s e) := by
  cases e with
  | acquire master a =>
    simp only [step, acquireMaster]
    split
    · exact hs
    · exact masterGuard_inv hs ‹_› a _
  | construct i =>
    simp only [step, moveConstruct]
    cases hi : s.guards[i]? with
    | none => exact hs
    | some other =>
      have hmem := List.mem_of_getElem? hi
      refine hs.of_guards (List.forall_mem_append.2 ⟨fun g hg => ?_, by simpa using hs.guards other hmem⟩)
      rcases List.mem_or_eq_of_mem_set hg with hg | rfl
      · exact hs.guards g hg
      · exact nofun
  | assign i j =>
    simp only [step, moveAssign]
    by_cases hij : i = j
    · rw [if_pos hij]
      exact hs
    · rw [if_neg hij]
      cases hi : s.guards[i]? with
      | none => exact hs
      | some g =>
        cases hj : s.guards[j]? with
        | none => exact hs
        | some other =>
          dsimp only
          rw [releaseForeign_eq (hs.guards g (List.mem_of_getElem? hi))]
          refine hs.of_guards fun g' hg' => ?_
          rcases List.mem_or_eq_of_mem_set hg' with hg' | rfl
          · rcases List.mem_or_eq_of_mem_set hg' with hg' | rfl
            · exact hs.guards g' hg'
            · exact hs.guards g' (List.mem_of_getElem? hj)
          · exact nofun
  | destroy i =>
    simp only [step, destroyGuard]
    cases hi : s.guards[i]? with
    | none => exact hs
    | some g =>
      dsimp only
      rw [releaseForeign_eq (hs.guards g (List.mem_of_getElem? hi))]
      exact hs.of_guards fun g' hg' => hs.guards g' (List.mem_of_mem_eraseIdx hg')

theorem exec_inv (events : List (Event H)) : Inv (exec step (initial : State H) events) :=
  foldl_inv_guarded step (G := fun _ _ => True) (fun s e hs _ => step_inv s e hs) events initial_inv
    (along_of_forall step (fun _ _ => trivial) initial events)

theorem Held.live {calls : List (Call H)} {h : H} (hs : Held calls (some h)) :
    (library calls).handles.live = [h] := List.perm_singleton.1 hs.holds.1

/-- **The master cache.** Over every run of acquisitions (whatever is opened or
reserved), moves and destructions of guards: a handle a guard has is open and
reserved, with the index of the guard's call; at no time are two handles open
or is one released that is not; and when the backend is destroyed none is left
open. -/
theorem cache_sound (events : List (Event H)) :
    (∀ g ∈ (exec step initial events).guards, ∀ h, g.master = some h →
      (library (exec step initial events).calls).handles.live = [h] ∧
        (library (exec step initial events).calls).masters h = some ⟨ecrtIndex g.index, true⟩) ∧
    Orderly (destroyBackend (exec step (initial : State H) events)).calls ∧
    (library (destroyBackend (exec step (initial : State H) events)).calls).handles = .empty := by
  have hs := exec_inv events
  generalize exec step (initial : State H) events = s at hs ⊢
  refine ⟨?_, (releaseCached_held hs).orderly, (releaseCached_held hs).holds.nil⟩
  intro g hg h hm
  obtain ⟨-, hc, hi⟩ := hs.guards g hg h hm
  exact ⟨(hc ▸ hs.held).live, hi ▸ hs.master h hc⟩

end

/-! ## The daemon's reservation -/

/-- The index of the cached master, while there is one. -/
def reservation (s : State H) : Option Int := s.cachedMaster.map fun _ => s.cachedMasterIndex

@[simp] theorem reservation_openMaster (s : State H) (h : s.cachedMaster = none) (a : Answer H) (index : Int) :
    reservation (openMaster s a index) = if a.handle.isSome && a.reserves then some index else none := by
  obtain ⟨handle, reserves⟩ := a
  unfold reservation openMaster
  cases handle <;> cases reserves <;> simp [State.add, State.call, h]

/-- **Refinement.** A guard takes and drops the reservation as the daemon's
does, and has a handle exactly when that call has a master. -/
theorem masterGuard_refines {s : State H} {d : Daemon} (hd : d.cached = reservation s) (a : Answer H) (g : Grant)
    (index : Int) (hg : d.grants g index = (a.handle.isSome && a.reserves)) :
    (NativeMaster.masterGuard d g index).2.cached = reservation (masterGuard s a index) ∧
      ((masterGuard s a index).guards.getLast?.bind (·.master)).isSome = (NativeMaster.masterGuard d g index).1 := by
  have hhit : d.cached = some index ↔ s.cachedMaster.isSome ∧ s.cachedMasterIndex = index := by
    rw [hd, reservation]
    cases s.cachedMaster <;> simp
  unfold NativeMaster.masterGuard masterGuard
  by_cases hc : d.cached = some index
  · rw [if_pos hc, if_pos (hhit.1 hc)]
    refine ⟨hd, ?_⟩
    simpa [State.add] using (hhit.1 hc).1
  · rw [if_neg hc, if_neg (mt hhit.2 hc), reservation_openMaster _ (releaseCached_cachedMaster s), ← hg]
    have hlast : (openMaster (releaseCached s) a index).guards.getLast?.bind (·.master) =
        if a.reserves then a.handle else none := by
      obtain ⟨handle, reserves⟩ := a
      unfold openMaster
      cases handle <;> cases reserves <;> simp [State.add, State.call]
    rw [hlast]
    cases hgrant : d.grants g index
    all_goals
      rw [hgrant] at hg
      refine ⟨rfl, ?_⟩
      cases hr : a.reserves <;> simp_all

end NekoEcat.L2.MasterCache
