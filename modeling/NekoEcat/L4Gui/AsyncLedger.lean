import Mathlib.Logic.Function.Basic
import NekoEcat.Core.Trace
import NekoEcat.L4Gui.AsyncOperation

/-!
# The life of an asynchronous operation

A ledger of operations: which state each has, which are in flight, queued and
reported. An operation is queued or launched, started, perhaps cancelled,
finished and forgotten; or it is dropped. The manager is a ledger with
priorities, results, timers and a stack.

* `ok_step`: what every step of a ledger keeps.
* `counted_step`, `complete_step`, `lost_step`: what becomes of the operations.
-/
namespace NekoEcat.L4.AsyncLedger
open NekoEcat.L4.AsyncOperation

structure Ledger where
  state : Nat → Option OperationState
  /-- started, and not yet delivered -/
  flight : List Nat
  queue : List Nat
  /-- the ids of the terminal signals -/
  reported : List Nat
  nextId : Nat
  running : Int
  maxConcurrent : Int

/-- Where an operation in a state is found. -/
def InPlace (k : Ledger) (id : Nat) : OperationState → Prop
  | .pending => id ∈ k.queue
  | .running => id ∈ k.flight
  | .cancelled => id ∈ k.flight ∨ id ∈ k.reported
  | .completed | .failed => id ∈ k.reported

structure Ok (k : Ledger) : Prop where
  known : ∀ id st, k.state id = some st → id < k.nextId ∧ InPlace k id st
  flight_nodup : k.flight.Nodup
  flight : ∀ id ∈ k.flight, id < k.nextId ∧ id ∉ k.reported
  once : k.reported.Nodup
  reported : ∀ id ∈ k.reported, id < k.nextId
  queue_nodup : k.queue.Nodup
  queue : ∀ id ∈ k.queue, k.state id = some .pending ∧ id ∉ k.flight ∧ id ∉ k.reported

/-- What `cancelAll` leaves of a state. -/
def sweep : Option OperationState → Option OperationState
  | some .running => some .cancelled
  | some .pending | some .cancelled => none
  | st => st

/-- Who is responsible for a step that may drop operations. -/
inductive Tag where
  | keep
  /-- a cancelled or timed out operation that was queued -/
  | drop
  | cancelAll
  deriving DecidableEq

open Function in
inductive LedgerStep : Tag → Ledger → Ledger → Prop
  | skip (k : Ledger) : LedgerStep .keep k k
  | enqueue {k : Ledger} :
      LedgerStep .keep k
        { k with
          state := update k.state k.nextId (some .pending), queue := k.queue ++ [k.nextId], nextId := k.nextId + 1 }
  | launch {k : Ledger} (hr : k.running < k.maxConcurrent) :
      LedgerStep .keep k
        { k with
          state := update k.state k.nextId (some .running)
          flight := k.flight ++ [k.nextId]
          nextId := k.nextId + 1
          running := k.running + 1 }
  | start {k : Ledger} {id : Nat} {before after : List Nat} (hr : k.running < k.maxConcurrent)
      (hq : k.queue = before ++ id :: after) :
      LedgerStep .keep k
        { k with
          state := update k.state id (some .running)
          flight := k.flight ++ [id]
          queue := before ++ after
          running := k.running + 1 }
  | drop {k : Ledger} {id : Nat} (hp : k.state id = some .pending) :
      LedgerStep .drop k { k with state := update k.state id none, queue := k.queue.filter (· != id) }
  | cancel {k : Ledger} {id : Nat} (hr : k.state id = some .running) :
      LedgerStep .keep k { k with state := update k.state id (some .cancelled) }
  | cancelAll {k : Ledger} : LedgerStep .cancelAll k { k with state := fun id => sweep (k.state id), queue := [] }
  | lose {k : Ledger} {id : Nat} (hf : id ∈ k.flight) (hn : k.state id = none) :
      LedgerStep .keep k { k with flight := k.flight.filter (· != id) }
  | finish {k : Ledger} {id : Nat} {st final : OperationState} (hf : id ∈ k.flight) (hs : k.state id = some st)
      (he : final = .cancelled ∨ final = .completed ∨ final = .failed) :
      LedgerStep .keep k
        { k with
          state := update k.state id (some final)
          flight := k.flight.filter (· != id)
          reported := k.reported ++ [id]
          running := k.running - 1 }
  | forget {k : Ledger} {f : Nat → Option OperationState}
      (h : ∀ id, f id = k.state id ∨ id ∈ k.reported ∧ f id = none) : LedgerStep .keep k { k with state := f }

/-! ## What every step keeps -/

theorem nextId_fresh {k : Ledger} (h : Ok k) : k.state k.nextId = none ∧ k.nextId ∉ k.flight ∧ k.nextId ∉ k.reported ∧
    k.nextId ∉ k.queue := by
  have hst : k.state k.nextId = none := by
    cases hs : k.state k.nextId with
    | none => rfl
    | some st => exact absurd (h.known _ st hs).1 (Nat.lt_irrefl _)
  refine ⟨hst, ?_, ?_, ?_⟩
  · exact fun hm => Nat.lt_irrefl _ (h.flight _ hm).1
  · exact fun hm => Nat.lt_irrefl _ (h.reported _ hm)
  · intro hm
    have := (h.queue _ hm).1
    rw [hst] at this
    cases this

/-- An operation stays in its place if the places only grow around it. -/
theorem inPlace_mono {k k' : Ledger} {id : Nat} {st : OperationState} (h : InPlace k id st)
    (hq : id ∈ k.queue → id ∈ k'.queue) (hf : id ∈ k.flight → id ∈ k'.flight)
    (hr : id ∈ k.reported → id ∈ k'.reported) : InPlace k' id st := by
  cases st with
  | pending => exact hq h
  | running => exact hf h
  | cancelled => exact h.imp hf hr
  | completed | failed => exact hr h

theorem mem_filter_ne {l : List Nat} {id x : Nat} : x ∈ l.filter (· != id) ↔ x ∈ l ∧ x ≠ id := by
  rw [List.mem_filter, bne_iff_ne]

theorem nodup_concat {l : List Nat} (h : l.Nodup) {id : Nat} (hm : id ∉ l) : (l ++ [id]).Nodup := by
  rw [← List.concat_eq_append]
  exact h.concat hm

/-- One operation gets a state; the others stay where they are. -/
theorem known_update {k k' : Ledger} (h : Ok k) {id : Nat} {st : OperationState}
    (hst : k'.state = Function.update k.state id (some st)) (hnew : id < k'.nextId ∧ InPlace k' id st)
    (hold : ∀ x st', x ≠ id → x < k.nextId ∧ InPlace k x st' → x < k'.nextId ∧ InPlace k' x st') (x : Nat)
    (st' : OperationState) (hs : k'.state x = some st') : x < k'.nextId ∧ InPlace k' x st' := by
  rw [hst] at hs
  by_cases hid : x = id
  · subst hid
    rw [Function.update_self] at hs
    obtain rfl := Option.some.inj hs
    exact hnew
  · rw [Function.update_of_ne hid] at hs
    exact hold x st' hid (h.known x st' hs)

theorem ok_enqueue {k : Ledger} (h : Ok k) :
    Ok { k with
      state := Function.update k.state k.nextId (some .pending), queue := k.queue ++ [k.nextId], nextId := k.nextId + 1 } := by
  obtain ⟨-, hnf, hnr, hnq⟩ := nextId_fresh h
  refine ⟨?_, h.flight_nodup, ?_, h.once, ?_, nodup_concat h.queue_nodup hnq, ?_⟩
  · refine known_update h rfl ⟨Nat.lt_succ_self _, List.mem_append_right _ List.mem_cons_self⟩ ?_
    intro x st _ hx
    exact ⟨Nat.lt_succ_of_lt hx.1, inPlace_mono hx.2 (List.mem_append_left _) (fun hm => hm) fun hm => hm⟩
  · intro id hm
    exact ⟨Nat.lt_succ_of_lt (h.flight id hm).1, (h.flight id hm).2⟩
  · intro id hm
    exact Nat.lt_succ_of_lt (h.reported id hm)
  · intro id hm
    rcases List.mem_append.1 hm with hm | hm
    · have hne : id ≠ k.nextId := fun he => hnq (he ▸ hm)
      show Function.update k.state k.nextId (some .pending) id = some .pending ∧ _
      rw [Function.update_of_ne hne]
      exact h.queue id hm
    · obtain rfl := List.mem_singleton.1 hm
      exact ⟨Function.update_self .., hnf, hnr⟩

theorem ok_start {k : Ledger} (h : Ok k) {id : Nat} {before after : List Nat} (hq : k.queue = before ++ id :: after) :
    Ok { k with
      state := Function.update k.state id (some .running)
      flight := k.flight ++ [id]
      queue := before ++ after
      running := k.running + 1 } := by
  have hperm := @List.perm_middle _ id before after
  obtain ⟨hnot, hnodup⟩ := List.nodup_cons.1 (hperm.nodup_iff.1 (hq ▸ h.queue_nodup))
  have hmem : ∀ x, x ∈ k.queue ↔ x = id ∨ x ∈ before ++ after := by
    intro x
    rw [hq, hperm.mem_iff, List.mem_cons]
  obtain ⟨hst, hnf, hnr⟩ := h.queue id ((hmem id).2 (.inl rfl))
  have hlt : id < k.nextId := (h.known _ _ hst).1
  refine ⟨?_, nodup_concat h.flight_nodup hnf, ?_, h.once, h.reported, hnodup, ?_⟩
  · refine known_update h rfl ⟨hlt, List.mem_append_right _ List.mem_cons_self⟩ ?_
    intro x st hne hx
    exact ⟨hx.1, inPlace_mono hx.2 (fun hm => ((hmem x).1 hm).resolve_left hne) (List.mem_append_left _) fun hm => hm⟩
  · intro x hm
    rcases List.mem_append.1 hm with hm | hm
    · exact h.flight x hm
    · obtain rfl := List.mem_singleton.1 hm
      exact ⟨hlt, hnr⟩
  · intro x hm
    have hne : x ≠ id := fun he => hnot (he ▸ hm)
    obtain ⟨h1, h2, h3⟩ := h.queue x ((hmem x).2 (.inr hm))
    refine ⟨(Function.update_of_ne hne ..).trans h1, ?_, h3⟩
    intro hmf
    rcases List.mem_append.1 hmf with hmf | hmf
    · exact h2 hmf
    · exact hne (List.mem_singleton.1 hmf)

theorem ok_finish {k : Ledger} (h : Ok k) {id : Nat} {final : OperationState} (hf : id ∈ k.flight)
    (he : final = .cancelled ∨ final = .completed ∨ final = .failed) :
    Ok { k with
      state := Function.update k.state id (some final)
      flight := k.flight.filter (· != id)
      reported := k.reported ++ [id]
      running := k.running - 1 } := by
  obtain ⟨hlt, hnr⟩ := h.flight id hf
  refine ⟨?_, h.flight_nodup.filter _, ?_, nodup_concat h.once hnr, ?_, h.queue_nodup, ?_⟩
  · have hrep : id ∈ k.reported ++ [id] := List.mem_append_right _ List.mem_cons_self
    refine known_update h rfl ⟨hlt, ?_⟩ ?_
    · rcases he with rfl | rfl | rfl
      · exact .inr hrep
      · exact hrep
      · exact hrep
    · intro x st' hne hx
      exact ⟨hx.1, inPlace_mono hx.2 (fun hm => hm) (fun hm => mem_filter_ne.2 ⟨hm, hne⟩) (List.mem_append_left _)⟩
  · intro x hm
    obtain ⟨hmf, hne⟩ := mem_filter_ne.1 hm
    refine ⟨(h.flight x hmf).1, ?_⟩
    intro hr
    rcases List.mem_append.1 hr with hr | hr
    · exact (h.flight x hmf).2 hr
    · exact hne (List.mem_singleton.1 hr)
  · intro x hm
    rcases List.mem_append.1 hm with hm | hm
    · exact h.reported x hm
    · rw [List.mem_singleton.1 hm]
      exact hlt
  · intro x hm
    obtain ⟨h1, h2, h3⟩ := h.queue x hm
    have hne : x ≠ id := fun he => h2 (he ▸ hf)
    refine ⟨(Function.update_of_ne hne ..).trans h1, fun hmf => h2 (mem_filter_ne.1 hmf).1, ?_⟩
    intro hr
    rcases List.mem_append.1 hr with hr | hr
    · exact h3 hr
    · exact hne (List.mem_singleton.1 hr)

theorem ok_drop {k : Ledger} (h : Ok k) (id : Nat) :
    Ok { k with state := Function.update k.state id none, queue := k.queue.filter (· != id) } := by
  refine ⟨?_, h.flight_nodup, h.flight, h.once, h.reported, h.queue_nodup.filter _, ?_⟩
  · intro x st hs
    dsimp only at hs
    by_cases hid : x = id
    · subst hid
      rw [Function.update_self] at hs
      cases hs
    · rw [Function.update_of_ne hid] at hs
      obtain ⟨hlt, hp⟩ := h.known x st hs
      exact ⟨hlt, inPlace_mono hp (fun hm => mem_filter_ne.2 ⟨hm, hid⟩) (fun hm => hm) fun hm => hm⟩
  · intro x hm
    obtain ⟨hmq, hne⟩ := mem_filter_ne.1 hm
    obtain ⟨h1, h2⟩ := h.queue x hmq
    exact ⟨(Function.update_of_ne hne ..).trans h1, h2⟩

theorem ok_cancel {k : Ledger} (h : Ok k) {id : Nat} (hr : k.state id = some .running) :
    Ok { k with state := Function.update k.state id (some .cancelled) } := by
  obtain ⟨hlt, hp⟩ := h.known id _ hr
  refine ⟨?_, h.flight_nodup, h.flight, h.once, h.reported, h.queue_nodup, ?_⟩
  · refine known_update h rfl ⟨hlt, .inl hp⟩ ?_
    exact fun x st _ hx => hx
  · intro x hm
    obtain ⟨h1, h2⟩ := h.queue x hm
    have hne : x ≠ id := by
      rintro rfl
      rw [hr] at h1
      cases h1
    exact ⟨(Function.update_of_ne hne ..).trans h1, h2⟩

theorem ok_cancelAll {k : Ledger} (h : Ok k) : Ok { k with state := fun id => sweep (k.state id), queue := [] } := by
  refine ⟨?_, h.flight_nodup, h.flight, h.once, h.reported, List.nodup_nil, fun x hm => by cases hm⟩
  intro x st hs
  dsimp only at hs
  cases hx : k.state x with
  | none => rw [hx] at hs; cases hs
  | some st₀ =>
    obtain ⟨hlt, hp⟩ := h.known x st₀ hx
    rw [hx] at hs
    refine ⟨hlt, ?_⟩
    cases st₀ with
    | pending | cancelled => cases hs
    | running =>
      obtain rfl := Option.some.inj hs
      exact .inl hp
    | completed | failed =>
      obtain rfl := Option.some.inj hs
      exact hp

theorem ok_lose {k : Ledger} (h : Ok k) {id : Nat} (hn : k.state id = none) :
    Ok { k with flight := k.flight.filter (· != id) } := by
  refine ⟨?_, h.flight_nodup.filter _, fun x hm => h.flight x (mem_filter_ne.1 hm).1, h.once, h.reported,
    h.queue_nodup, ?_⟩
  · intro x st hs
    have hne : x ≠ id := by
      rintro rfl
      rw [show k.state x = some st from hs] at hn
      cases hn
    obtain ⟨hlt, hp⟩ := h.known x st hs
    exact ⟨hlt, inPlace_mono hp (fun hm => hm) (fun hm => mem_filter_ne.2 ⟨hm, hne⟩) fun hm => hm⟩
  · intro x hm
    obtain ⟨h1, h2, h3⟩ := h.queue x hm
    exact ⟨h1, fun hmf => h2 (mem_filter_ne.1 hmf).1, h3⟩

theorem ok_forget {k : Ledger} (h : Ok k) {state : Nat → Option OperationState}
    (hst : ∀ id, state id = k.state id ∨ id ∈ k.reported ∧ state id = none) : Ok { k with state := state } := by
  refine ⟨?_, h.flight_nodup, h.flight, h.once, h.reported, h.queue_nodup, ?_⟩
  · intro x st hs
    dsimp only at hs
    rcases hst x with he | ⟨-, he⟩
    · rw [he] at hs
      exact h.known x st hs
    · rw [he] at hs
      cases hs
  · intro x hm
    obtain ⟨h1, h2, h3⟩ := h.queue x hm
    rcases hst x with he | ⟨hr, -⟩
    · exact ⟨he.trans h1, h2, h3⟩
    · exact absurd hr h3

/-- **What every step keeps.** -/
theorem ok_step {tag : Tag} {k k' : Ledger} (h : Ok k) (hs : LedgerStep tag k k') : Ok k' := by
  cases hs with
  | skip => exact h
  | enqueue => exact ok_enqueue h
  | launch hr =>
    -- launched is queued and started
    have hl := @ok_start _ (ok_enqueue h) k.nextId k.queue [] rfl
    simp only [Function.update_idem, List.append_nil] at hl
    exact hl
  | start hr hq => exact ok_start h hq
  | drop hp => exact ok_drop h _
  | cancel hr => exact ok_cancel h hr
  | cancelAll => exact ok_cancelAll h
  | lose hf hn => exact ok_lose h hn
  | finish hf hs he => exact ok_finish h hf he
  | forget hst => exact ok_forget h hst

/-! ## Slots -/

/-- The running operations are counted, within the limit, and all known. -/
structure Counted (k : Ledger) : Prop where
  count : k.running = k.flight.length
  bound : 1 ≤ k.maxConcurrent → k.running ≤ k.maxConcurrent
  alive : ∀ id ∈ k.flight, (k.state id).isSome = true

/-- An operation that is cancelled is still in flight. -/
def Exposed (k : Ledger) : Prop := ∃ id ∈ k.flight, k.state id = some .cancelled

theorem pending_not_flight {k : Ledger} (h : Ok k) {id : Nat} (hp : k.state id = some .pending) : id ∉ k.flight :=
  (h.queue id (h.known id _ hp).2).2.1

theorem isSome_update {state : Nat → Option OperationState} {id x : Nat} {st : OperationState}
    (h : (state x).isSome = true) : (Function.update state id (some st) x).isSome = true := by
  by_cases hx : x = id
  · rw [hx, Function.update_self]
    rfl
  · rw [Function.update_of_ne hx]
    exact h

theorem length_filter_ne {l : List Nat} (h : l.Nodup) {id : Nat} (hm : id ∈ l) :
    ((l.filter (· != id)).length : Int) = l.length - 1 := by
  rw [← h.erase_eq_filter id, List.length_erase_of_mem hm]
  have hpos := List.length_pos_of_mem hm
  omega

/-- **A step keeps the running operations counted**, if it does not sweep a
cancelled one away. -/
theorem counted_step {tag : Tag} {k k' : Ledger} (h : Ok k) (hs : LedgerStep tag k k')
    (hno : tag = .cancelAll → ¬ Exposed k) (hc : Counted k) : Counted k' := by
  have hlaunch : ∀ {id : Nat}, k.running < k.maxConcurrent →
      (k.running + 1 = ((k.flight ++ [id]).length : Int)) ∧ (1 ≤ k.maxConcurrent → k.running + 1 ≤ k.maxConcurrent) ∧
        ∀ x ∈ k.flight ++ [id], (Function.update k.state id (some .running) x).isSome = true := by
    intro id hr
    refine ⟨?_, fun _ => by omega, ?_⟩
    · rw [List.length_append, hc.count]
      rfl
    · intro x hm
      rcases List.mem_append.1 hm with hm | hm
      · exact isSome_update (hc.alive x hm)
      · rw [List.mem_singleton.1 hm, Function.update_self]
        rfl
  cases hs with
  | skip => exact hc
  | enqueue => exact ⟨hc.count, hc.bound, fun x hm => isSome_update (hc.alive x hm)⟩
  | launch hr =>
    obtain ⟨h1, h2, h3⟩ := hlaunch hr
    exact ⟨h1, h2, h3⟩
  | start hr hq =>
    obtain ⟨h1, h2, h3⟩ := hlaunch hr
    exact ⟨h1, h2, h3⟩
  | @drop _ id hp =>
    refine ⟨hc.count, hc.bound, ?_⟩
    intro x hm
    have hne : x ≠ id := fun he => pending_not_flight h hp (he ▸ hm)
    show (Function.update k.state id none x).isSome = true
    rw [Function.update_of_ne hne]
    exact hc.alive x hm
  | cancel hr => exact ⟨hc.count, hc.bound, fun x hm => isSome_update (hc.alive x hm)⟩
  | cancelAll =>
    refine ⟨hc.count, hc.bound, ?_⟩
    intro x hm
    obtain ⟨st, hst⟩ := Option.isSome_iff_exists.1 (hc.alive x hm)
    show (sweep (k.state x)).isSome = true
    rw [hst]
    cases st with
    | pending => exact absurd hm (pending_not_flight h hst)
    | cancelled => exact absurd ⟨x, hm, hst⟩ (hno rfl)
    | running | completed | failed => rfl
  | lose hf hn =>
    have hsome := hc.alive _ hf
    rw [hn] at hsome
    cases hsome
  | finish hf hs' he =>
    refine ⟨?_, ?_, fun x hm => isSome_update (hc.alive x (List.mem_of_mem_filter hm))⟩
    · dsimp only
      rw [length_filter_ne h.flight_nodup hf, hc.count]
    · intro hmax
      have hle := hc.bound hmax
      dsimp only
      omega
  | forget hst =>
    refine ⟨hc.count, hc.bound, ?_⟩
    intro x hm
    rcases hst x with he | ⟨hr, -⟩
    · dsimp only
      rw [he]
      exact hc.alive x hm
    · exact absurd hr (h.flight x hm).2

/-! ## Reports -/

/-- Every operation is known or reported. -/
def Complete (k : Ledger) : Prop := ∀ id < k.nextId, (k.state id).isSome = true ∨ id ∈ k.reported

/-- The operation is neither, and never will be. -/
def Lost (k : Ledger) (id : Nat) : Prop := id < k.nextId ∧ k.state id = none ∧ id ∉ k.reported

/-- An operation is queued, or cancelled and still in flight. -/
def Waiting (k : Ledger) : Prop := (∃ id, k.state id = some .pending) ∨ Exposed k

/-- **A step that drops nothing loses nothing.** -/
theorem complete_step {tag : Tag} {k k' : Ledger} (h : Ok k) (hs : LedgerStep tag k k') (hdrop : tag ≠ .drop)
    (hno : tag = .cancelAll → ¬ Waiting k) (hc : Complete k) : Complete k' := by
  have hnew : ∀ {id : Nat} {st : OperationState} {x : Nat}, (x = id ∨ x < k.nextId) →
      (Function.update k.state id (some st) x).isSome = true ∨ x ∈ k.reported := by
    intro id st x hx
    by_cases he : x = id
    · left
      rw [he, Function.update_self]
      rfl
    · exact (hc x (hx.resolve_left he)).imp_left isSome_update
  cases hs with
  | skip => exact hc
  | enqueue => exact fun x hx => hnew (Nat.lt_succ_iff_lt_or_eq.1 hx).symm
  | launch hr => exact fun x hx => hnew (Nat.lt_succ_iff_lt_or_eq.1 hx).symm
  | start hr hq => exact fun x hx => hnew (.inr hx)
  | drop hp => exact absurd rfl hdrop
  | cancel hr => exact fun x hx => hnew (.inr hx)
  | cancelAll =>
    intro x hx
    refine (hc x hx).elim ?_ .inr
    intro hsome
    obtain ⟨st, hst⟩ := Option.isSome_iff_exists.1 hsome
    obtain ⟨-, hp⟩ := h.known x st hst
    show (sweep (k.state x)).isSome = true ∨ x ∈ k.reported
    rw [hst]
    cases st with
    | pending => exact absurd (.inl ⟨x, hst⟩) (hno rfl)
    | cancelled =>
      rcases hp with hp | hp
      · exact absurd (.inr ⟨x, hp, hst⟩) (hno rfl)
      · exact .inr hp
    | running | completed | failed => exact .inl rfl
  | lose hf hn => exact hc
  | finish hf hs' he => exact fun x hx => (hnew (.inr hx)).imp_right (List.mem_append_left _)
  | forget hst =>
    intro x hx
    rcases hst x with he | ⟨hr, -⟩
    · dsimp only
      rw [he]
      exact hc x hx
    · exact .inr hr

/-- **What is lost stays lost.** -/
theorem lost_step {tag : Tag} {k k' : Ledger} (h : Ok k) (hs : LedgerStep tag k k') {x : Nat} (hl : Lost k x) :
    Lost k' x := by
  obtain ⟨hlt, hnone, hnr⟩ := hl
  -- an operation that is not known is not one that changes
  have hkeep : ∀ {id : Nat} {st : OperationState}, (k.state id).isSome = true →
      Function.update k.state id (some st) x = none := by
    intro id st hsome
    have hne : x ≠ id := by
      rintro rfl
      rw [hnone] at hsome
      cases hsome
    rw [Function.update_of_ne hne]
    exact hnone
  have hfresh : ∀ {st : OperationState}, Function.update k.state k.nextId (some st) x = none := by
    intro st
    rw [Function.update_of_ne (Nat.ne_of_lt hlt)]
    exact hnone
  cases hs with
  | skip => exact ⟨hlt, hnone, hnr⟩
  | enqueue => exact ⟨Nat.lt_succ_of_lt hlt, hfresh, hnr⟩
  | launch hr => exact ⟨Nat.lt_succ_of_lt hlt, hfresh, hnr⟩
  | start hr hq =>
    refine ⟨hlt, hkeep ?_, hnr⟩
    rw [(h.queue _ (hq ▸ List.mem_append_right _ List.mem_cons_self)).1]
    rfl
  | drop hp =>
    refine ⟨hlt, ?_, hnr⟩
    show Function.update k.state _ none x = none
    rw [Function.update_apply, hnone, ite_self]
  | cancel hr => exact ⟨hlt, hkeep (by rw [hr]; rfl), hnr⟩
  | cancelAll =>
    refine ⟨hlt, ?_, hnr⟩
    show sweep (k.state x) = none
    rw [hnone]
    rfl
  | lose hf hn => exact ⟨hlt, hnone, hnr⟩
  | finish hf hs' he =>
    refine ⟨hlt, hkeep (by rw [hs']; rfl), ?_⟩
    intro hm
    rcases List.mem_append.1 hm with hm | hm
    · exact hnr hm
    · rw [List.mem_singleton.1 hm, hs'] at hnone
      cases hnone
  | forget hst =>
    refine ⟨hlt, ?_, hnr⟩
    rcases hst x with he | ⟨-, he⟩
    · exact he.trans hnone
    · exact he

/-- A dropped operation is lost. -/
theorem lost_drop {k : Ledger} (h : Ok k) {id : Nat} (hp : k.state id = some .pending) :
    Lost { k with state := Function.update k.state id none, queue := k.queue.filter (· != id) } id := by
  obtain ⟨hlt, hq⟩ := h.known id _ hp
  exact ⟨hlt, Function.update_self .., (h.queue id hq).2.2⟩

/-- `cancelAll` loses an operation that waits. -/
theorem lost_cancelAll {k : Ledger} (h : Ok k) (hw : Waiting k) :
    ∃ id, Lost { k with state := fun id => sweep (k.state id), queue := [] } id := by
  rcases hw with ⟨id, hp⟩ | ⟨id, hf, hc⟩
  · obtain ⟨hlt, hq⟩ := h.known id _ hp
    refine ⟨id, hlt, ?_, (h.queue id hq).2.2⟩
    show sweep (k.state id) = none
    rw [hp]
    rfl
  · obtain ⟨hlt, hnr⟩ := h.flight id hf
    refine ⟨id, hlt, ?_, hnr⟩
    show sweep (k.state id) = none
    rw [hc]
    rfl

/-- With nothing in flight or queued, what is known is reported. -/
theorem reported_of_known {k : Ledger} (h : Ok k) (hf : k.flight = []) (hq : k.queue = []) {id : Nat}
    (hs : (k.state id).isSome = true) : id ∈ k.reported := by
  obtain ⟨st, hst⟩ := Option.isSome_iff_exists.1 hs
  obtain ⟨-, hp⟩ := h.known id st hst
  have hnf : id ∉ k.flight := by
    rw [hf]
    exact List.not_mem_nil
  cases st with
  | pending =>
    rw [InPlace, hq] at hp
    cases hp
  | running => exact absurd hp hnf
  | cancelled => exact hp.resolve_left hnf
  | completed | failed => exact hp

end NekoEcat.L4.AsyncLedger
