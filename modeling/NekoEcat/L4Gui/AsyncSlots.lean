import NekoEcat.L4Gui.AsyncRun

/-!
# Slots and reports of asynchronous operations

`cancel` leaves a running operation in the map: its worker holds a pointer to
its flag, and `onOperationFinished` frees the slot and reports it. `cancelAll`
deletes every operation that is cancelled and not running, one that was
cancelled while running and is still in flight included. And an operation that
is cancelled before it runs is deleted without a signal.

* `accounted_iff`: the slots are accounted for exactly as long as `cancelAll` is
  not called with a cancelled operation in flight.
* `slot_leaked`: a cancelled operation, and a slot that is never freed.
* `reported_iff`: every operation is reported once exactly if none is dropped.
* `queued_never_reported`: a cancelled operation that nobody hears of again.
-/
namespace NekoEcat.L4.AsyncSlots
open NekoEcat.Trace NekoEcat.L4.AsyncOperation NekoEcat.L4.AsyncLedger NekoEcat.L4.AsyncRun

/-! ## Slots -/

/-- `runningCount_` is the number of started workers whose
`onOperationFinished` has not run, within the limit, and the operation of each
is in the map. -/
structure Accounted (s : State) : Prop where
  count : s.runningCount = s.workers.length
  bound : 1 ≤ s.maxConcurrent → s.runningCount ≤ s.maxConcurrent
  alive : ∀ w ∈ s.workers, (s.operations.lookup w.id).isSome = true

/-- `cancelAll` is called while the worker of a cancelled operation has not
finished. -/
def Strands (s : State) : Lbl → Prop
  | .cancelAll => ∃ w ∈ s.workers, states s.operations w.id = some .cancelled
  | _ => False

theorem accounted_counted (s : State) : Accounted s ↔ Counted (ledger s) := by
  constructor
  · rintro ⟨hcount, hbound, halive⟩
    refine ⟨?_, hbound, ?_⟩
    · show s.runningCount = ((s.workers.map (·.id)).length : Int)
      rw [List.length_map]
      exact hcount
    · intro id hm
      obtain ⟨w, hw, rfl⟩ := List.mem_map.1 hm
      exact Option.isSome_map.trans (halive w hw)
  · rintro ⟨hcount, hbound, halive⟩
    refine ⟨?_, hbound, ?_⟩
    · rw [← List.length_map (·.id)]
      exact hcount
    · intro w hw
      exact Option.isSome_map.symm.trans (halive w.id (List.mem_map_of_mem hw))

theorem exposed_workers {s : State} (h : Exposed (ledger s)) :
    ∃ w ∈ s.workers, states s.operations w.id = some .cancelled := by
  obtain ⟨id, hm, hc⟩ := h
  obtain ⟨w, hw, rfl⟩ := List.mem_map.1 hm
  exact ⟨w, hw, hc⟩

/-- A step keeps the slots accounted for unless it strands a worker. -/
theorem accounted_step {s : State} {l : Lbl} (ht : Tidy s) (hk : Ok (ledger s)) (h : Accounted s)
    (hno : ¬ Strands s l) : Accounted (step s l) := by
  obtain ⟨tag, hs, -, hall⟩ := step_ledger ht hk l
  rw [accounted_counted] at h ⊢
  refine counted_step hk hs ?_ h
  intro htag hexp
  obtain rfl := hall htag
  exact hno (exposed_workers hexp)

/-- A step that strands a worker deletes its operation. -/
theorem stranded {s : State} {l : Lbl} (ht : Tidy s) (h : Strands s l) : ¬ Accounted (step s l) := by
  cases l with
  | cancelAll =>
    obtain ⟨w, hw, hc⟩ := h
    intro hacc
    have halive : ((cancelAll s).operations.lookup w.id).isSome = true := hacc.alive w hw
    have hgone : states (cancelAll s).operations w.id = none := by
      rw [states_cancelAll ht.keys]
      show sweep (states s.operations w.id) = none
      rw [hc]
      rfl
    rw [states, Option.map_eq_none_iff] at hgone
    rw [hgone] at halive
    cases halive
  | _ => cases h

/-- **When the slots are accounted for, exactly.** Along a run the counter is
the number of workers in flight, within the limit, with every operation still
in the map, iff `cancelAll` is never called while the worker of a cancelled
operation has not finished. -/
theorem accounted_iff (maxConcurrent : Int) (σ : Nat → Lbl) (t : Nat) :
    (∀ m ≤ t, Accounted (trace step (initial maxConcurrent) σ m)) ↔
      ∀ m < t, ¬ Strands (trace step (initial maxConcurrent) σ m) (σ m) := by
  constructor
  · intro hacc m hm hstr
    exact stranded (run_ok maxConcurrent σ m).1 hstr (hacc (m + 1) hm)
  · intro hno m hm
    have hinit : Accounted (initial maxConcurrent) :=
      ⟨rfl, (fun hmax => Int.le_trans Int.one_nonneg hmax), fun w hw => by cases hw⟩
    have hinv := trace_inv_guarded step (initial maxConcurrent) σ
      (I := fun s => (Tidy s ∧ Ok (ledger s)) ∧ Accounted s) (G := fun s l => ¬ Strands s l)
      ⟨run_ok maxConcurrent σ 0, hinit⟩ (fun s l hs hl => ⟨ok_run_step hs.1 l, accounted_step hs.1.1 hs.1.2 hs.2 hl⟩)
    exact (hinv m fun m' hm' => hno m' (Nat.lt_of_lt_of_le hm' hm)).2

/-- One slot: the operation that has it is cancelled, then all are; its worker
then finishes. -/
def twiceCancelled : List Lbl :=
  [.execute .normal 30000, .cancel 0, .cancelAll, .work 0 (.ok []) false, .deliver 0]

/-- **The operation of a worker is deleted, and its slot is never freed.** -/
theorem slot_leaked :
    (trace step (initial 1) (sched twiceCancelled .tick) 5).workers.length = 0 ∧
    (trace step (initial 1) (sched twiceCancelled .tick) 5).runningCount = 1 ∧
    ¬ ∀ m ≤ 5, Accounted (trace step (initial 1) (sched twiceCancelled .tick) m) := by
  have hworkers : (trace step (initial 1) (sched twiceCancelled .tick) 5).workers.length = 0 := rfl
  have hrunning : (trace step (initial 1) (sched twiceCancelled .tick) 5).runningCount = 1 := rfl
  refine ⟨hworkers, hrunning, ?_⟩
  intro hacc
  have hcount := (hacc 5 (Nat.le_refl _)).count
  rw [hworkers, hrunning] at hcount
  cases hcount

/-! ## Reports -/

/-- Every operation returned by `execute` has one terminal signal. -/
def Reported (s : State) : Prop := ∀ id < s.nextId, (s.signals.filterMap ended).count id = 1

/-- A queued operation is cancelled or times out, or `cancelAll` is called while
one is queued or the worker of a cancelled one has not finished. -/
def Drops (s : State) (l : Lbl) : Prop :=
  DropsQueued s l ∨ l = .cancelAll ∧
    ((∃ id, states s.operations id = some .pending) ∨ ∃ w ∈ s.workers, states s.operations w.id = some .cancelled)

/-- A step that drops an operation loses it. -/
theorem drops_lost {s : State} {l : Lbl} (ht : Tidy s) (hk : Ok (ledger s)) (h : Drops s l) :
    ∃ id, Lost (ledger (step s l)) id := by
  rcases h with h | ⟨rfl, h⟩
  · cases l with
    | cancel id =>
      refine ⟨id, ?_⟩
      show Lost (ledger (cancel s id)) id
      rw [ledger_cancel_pending h]
      exact lost_drop hk h
    | timeout id =>
      obtain ⟨hc, htm, hp⟩ := h
      refine ⟨id, ?_⟩
      simp only [step]
      rw [if_pos ⟨hc, htm⟩, ledger_cancel_pending (s := { s with timers := s.timers.filter (· != id) }) hp]
      exact lost_drop hk hp
    | _ => cases h
  · show ∃ id, Lost (ledger (cancelAll s)) id
    rw [ledger_cancelAll ht]
    refine lost_cancelAll hk (h.imp_right ?_)
    rintro ⟨w, hw, hc⟩
    exact ⟨w.id, List.mem_map_of_mem hw, hc⟩

/-- A step that drops no operation loses none. -/
theorem kept_step {s : State} {l : Lbl} (ht : Tidy s) (hk : Ok (ledger s)) (h : Complete (ledger s))
    (hno : ¬ Drops s l) : Complete (ledger (step s l)) := by
  obtain ⟨tag, hs, hdrop, hall⟩ := step_ledger ht hk l
  refine complete_step hk hs (fun htag => hno (.inl (hdrop htag))) ?_ h
  intro htag hw
  exact hno (.inr ⟨hall htag, hw.imp_right exposed_workers⟩)

/-- **When every operation is reported, exactly.** Once no worker is in flight
and the queue is empty, each operation has exactly one terminal signal iff no
step has dropped one. -/
theorem reported_iff (maxConcurrent : Int) (σ : Nat → Lbl) (t : Nat)
    (hworkers : (trace step (initial maxConcurrent) σ t).workers = [])
    (hqueue : (trace step (initial maxConcurrent) σ t).queue = []) :
    Reported (trace step (initial maxConcurrent) σ t) ↔
      ∀ m < t, ¬ Drops (trace step (initial maxConcurrent) σ m) (σ m) := by
  obtain ⟨-, hk⟩ := run_ok maxConcurrent σ t
  constructor
  · intro hrep m hm hdrop
    have hok := run_ok maxConcurrent σ m
    obtain ⟨id, hlost⟩ := drops_lost hok.1 hok.2 hdrop
    have hstays := trace_stays step (initial maxConcurrent) σ (m := m + 1)
      (P := fun s => (Tidy s ∧ Ok (ledger s)) ∧ Lost (ledger s) id) (fun s l hs => ⟨ok_run_step hs.1 l, ?_⟩) hm
      ⟨run_ok maxConcurrent σ (m + 1), hlost⟩
    · obtain ⟨hlt, -, hnr⟩ := hstays.2
      have hone := hrep id hlt
      have hzero := List.count_eq_zero_of_not_mem hnr
      exact absurd (hzero.symm.trans hone) Nat.zero_ne_one
    · obtain ⟨tag, hstep, -⟩ := step_ledger hs.1.1 hs.1.2 l
      exact lost_step hs.1.2 hstep hs.2
  · intro hno id hlt
    have hcomplete := trace_inv_guarded step (initial maxConcurrent) σ
      (I := fun s => (Tidy s ∧ Ok (ledger s)) ∧ Complete (ledger s)) (G := fun s l => ¬ Drops s l)
      ⟨run_ok maxConcurrent σ 0, fun x hx => absurd hx (Nat.not_lt_zero x)⟩
      (fun s l hs hl => ⟨ok_run_step hs.1 l, kept_step hs.1.1 hs.1.2 hs.2 hl⟩) t hno
    refine List.count_eq_one_of_mem hk.once ?_
    refine (hcomplete.2 id hlt).elim (reported_of_known hk ?_ hqueue) fun hm => hm
    show (trace step (initial maxConcurrent) σ t).workers.map (·.id) = []
    rw [hworkers]
    rfl

/-- An operation that runs to its end. -/
def finished : List Lbl := [.execute .normal 30000, .work 0 (.ok []) false, .deliver 0]

theorem finished_reported : Reported (trace step (initial 1) (sched finished .tick) 3) := by
  refine (reported_iff 1 (sched finished .tick) 3 rfl rfl).2 ?_
  intro m hm hdrop
  have hlabel : (sched finished .tick m ≠ .cancelAll) ∧ ¬ DropsQueued (trace step (initial 1) (sched finished .tick) m)
      (sched finished .tick m) := by
    match m, hm with
    | 0, _ | 1, _ | 2, _ => exact ⟨(by intro h; cases h), fun h => h⟩
  rcases hdrop with h | ⟨h, -⟩
  · exact hlabel.2 h
  · exact hlabel.1 h

/-- One slot: an operation is cancelled while it is queued; the other runs to
its end. -/
def cancelledInQueue : List Lbl :=
  [.execute .normal 30000, .execute .normal 30000, .cancel 1, .work 0 (.ok []) false, .deliver 0, .ret]

/-- **Nothing runs or waits, and the cancelled operation has no signal.** -/
theorem queued_never_reported :
    (trace step (initial 1) (sched cancelledInQueue .tick) 8).workers = [] ∧
    (trace step (initial 1) (sched cancelledInQueue .tick) 8).queue = [] ∧
    (trace step (initial 1) (sched cancelledInQueue .tick) 8).stack = [] ∧
    ¬ Reported (trace step (initial 1) (sched cancelledInQueue .tick) 8) := by
  refine ⟨rfl, rfl, rfl, ?_⟩
  intro hrep
  have hnone : ((trace step (initial 1) (sched cancelledInQueue .tick) 8).signals.filterMap ended).count 1 = 0 := rfl
  have hone := hrep 1 (by decide)
  rw [hnone] at hone
  cases hone

end NekoEcat.L4.AsyncSlots
