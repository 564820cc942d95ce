import NekoEcat.Core.Trace
import NekoEcat.L4Gui.AsyncLedger

/-!
# The manager as a ledger

Every step of the manager is a step of its ledger: where an operation is lost,
the ledger drops it.

* `ledger`: what the manager's state says of the operations.
* `step_ledger`: the manager is a ledger.
* `run_ok`: what holds in every state of every run.
-/
namespace NekoEcat.L4.AsyncRun
open NekoEcat.Trace NekoEcat.Assoc NekoEcat.L4.AsyncOperation NekoEcat.L4.AsyncLedger

/-! ## The manager's ledger -/

/-- The id of a terminal signal. -/
def ended : Signal → Option Nat
  | .operationStarted _ => none
  | .operationCompleted id _ => some id
  | .operationFailed id _ => some id

def states (operations : List (Nat × Operation)) (id : Nat) : Option OperationState :=
  (operations.lookup id).map (·.state)

def ledger (s : State) : Ledger :=
  ⟨states s.operations, s.workers.map (·.id), s.queue, s.signals.filterMap ended, s.nextId, s.runningCount, s.maxConcurrent⟩

/-- No id stands twice in the map, and only reported operations are up for
eviction. -/
structure Tidy (s : State) : Prop where
  keys : (keys s.operations).Nodup
  finishedOrder : ∀ id ∈ s.finishedOrder, id ∈ (ledger s).reported
  suspended : ∀ id, .finished id ∈ s.stack → id ∈ (ledger s).reported

theorem states_cons (operations : List (Nat × Operation)) (id : Nat) (op : Operation) :
    states ((id, op) :: operations) = Function.update (states operations) id (some op.state) := by
  funext x
  unfold states
  rw [List.lookup_cons]
  by_cases hx : x = id
  · subst hx
    simp
  · rw [beq_eq_false_iff_ne.2 hx, Function.update_of_ne hx]

theorem states_modify {operations : List (Nat × Operation)} {id : Nat} {f : Operation → Operation} {st : OperationState}
    (hf : ∀ op, operations.lookup id = some op → (f op).state = st) (hm : (states operations id).isSome = true) :
    states (modify operations id f) = Function.update (states operations) id (some st) := by
  funext x
  unfold states at hm ⊢
  rw [lookup_modify]
  by_cases hx : x = id
  · subst hx
    rw [if_pos rfl, Function.update_self]
    cases hl : operations.lookup x with
    | none => rw [hl] at hm; cases hm
    | some op => simp [hf op hl]
  · rw [if_neg hx, Function.update_of_ne hx]

theorem states_modify_same {operations : List (Nat × Operation)} {id : Nat} {f : Operation → Operation}
    (hf : ∀ op, operations.lookup id = some op → (f op).state = op.state) :
    states (modify operations id f) = states operations := by
  funext x
  unfold states
  rw [lookup_modify]
  by_cases hx : x = id
  · subst hx
    rw [if_pos rfl]
    cases hl : operations.lookup x with
    | none => rfl
    | some op => simp [hf op hl]
  · rw [if_neg hx]

theorem states_remove (operations : List (Nat × Operation)) (id : Nat) :
    states (remove operations id) = Function.update (states operations) id none := by
  funext x
  unfold states
  rw [lookup_remove]
  by_cases hx : x = id
  · subst hx
    simp
  · rw [if_neg hx, Function.update_of_ne hx]

theorem mark_state (op : Operation) :
    (mark op).state = if op.state = .pending ∨ op.state = .running then .cancelled else op.state := by
  unfold mark
  split <;> rfl

/-- `cancelAll` on the states. -/
theorem states_cancelAll {s : State} (h : (keys s.operations).Nodup) :
    states (cancelAll s).operations = fun id => sweep (states s.operations id) := by
  funext id
  unfold states cancelAll
  rw [lookup_filter_key (fun k => !(s.operations.filterMap fun e =>
    if e.2.state ≠ .running ∧ (mark e.2).state = .cancelled then some e.1 else none).contains k)
    (s.operations.map fun e => (e.1, mark e.2)) id, lookup_map (fun _ op => mark op)]
  -- who is removed, in terms of what is found under the id
  have hremoved : (s.operations.filterMap fun e =>
        if e.2.state ≠ .running ∧ (mark e.2).state = .cancelled then some e.1 else none).contains id = true ↔
      ∃ op, s.operations.lookup id = some op ∧ op.state ≠ .running ∧ (mark op).state = .cancelled := by
    rw [List.contains_iff_mem, List.mem_filterMap]
    constructor
    · rintro ⟨⟨id', op⟩, hm, hc⟩
      split at hc
      · rename_i hcond
        obtain rfl := Option.some.inj hc
        exact ⟨op, lookup_of_mem h hm, hcond⟩
      · cases hc
    · rintro ⟨op, hl, hcond⟩
      exact ⟨(id, op), mem_of_lookup hl, if_pos hcond⟩
  cases hl : s.operations.lookup id with
  | none => simp [sweep]
  | some op =>
    have hiff : (s.operations.filterMap fun e =>
          if e.2.state ≠ .running ∧ (mark e.2).state = .cancelled then some e.1 else none).contains id = true ↔
        op.state ≠ .running ∧ (mark op).state = .cancelled := by
      rw [hremoved]
      constructor
      · rintro ⟨op', hl', hc⟩
        rw [hl] at hl'
        exact Option.some.inj hl' ▸ hc
      · exact fun hc => ⟨op, hl, hc⟩
    by_cases hc : op.state ≠ .running ∧ (mark op).state = .cancelled
    · rw [hiff.2 hc]
      rw [mark_state] at hc
      cases hst : op.state <;> rw [hst] at hc <;> simp_all [sweep]
    · have hfalse := Bool.eq_false_iff.2 fun ht => hc (hiff.1 ht)
      rw [hfalse]
      rw [mark_state] at hc
      simp only [Bool.not_false, if_true, Option.map_some, mark_state]
      cases hst : op.state <;> rw [hst] at hc <;> simp_all [sweep]

/-! ## The calls on the ledger -/

/-- Handing an operation of the map to the thread pool. -/
theorem ledger_start {s : State} {id : Nat} (ghost : Start) (h : (states s.operations id).isSome = true) :
    ledger (start s id ghost) =
      { ledger s with
        state := Function.update (states s.operations) id (some .running)
        flight := s.workers.map (·.id) ++ [id]
        running := s.runningCount + 1 } := by
  have hst : states (modify s.operations id fun op => { op with state := .running }) =
      Function.update (states s.operations) id (some .running) := states_modify (fun op _ => rfl) h
  simp [ledger, start, hst, ended]

theorem ledger_execute (s : State) (priority : OperationPriority) (timeoutMs : Int) :
    LedgerStep .keep (ledger s) (ledger (execute s priority timeoutMs)) := by
  obtain ⟨timers, he⟩ := execute_eq s priority timeoutMs
  rw [he]
  show LedgerStep .keep (ledger s) (ledger (startOrQueue s priority timeoutMs))
  have hacc : states (accept s priority timeoutMs).operations =
      Function.update (states s.operations) s.nextId (some .pending) := states_cons _ _ _
  unfold startOrQueue
  split
  · rename_i hrun
    rw [ledger_start _ (by rw [hacc, Function.update_self]; rfl), hacc, Function.update_idem]
    exact .launch hrun
  · have hl : ledger { accept s priority timeoutMs with queue := s.queue ++ [s.nextId] } =
        { ledger s with
          state := Function.update (states s.operations) s.nextId (some .pending)
          queue := s.queue ++ [s.nextId]
          nextId := s.nextId + 1 } := by
      rw [← hacc]
      rfl
    rw [hl]
    exact .enqueue

/-- Cancelling a queued operation drops it. -/
theorem ledger_cancel_pending {s : State} {id : Nat} (h : states s.operations id = some .pending) :
    ledger (cancel s id) =
      { ledger s with
        state := Function.update (states s.operations) id none
        queue := s.queue.filter (· != id) } := by
  obtain ⟨op, hl, hp⟩ := Option.map_eq_some_iff.1 h
  unfold cancel
  simp only [hl, hp]
  rw [← states_remove]
  rfl

theorem ledger_cancel_running {s : State} {id : Nat} (h : states s.operations id = some .running) :
    ledger (cancel s id) = { ledger s with state := Function.update (states s.operations) id (some .cancelled) } := by
  obtain ⟨op, hl, hr⟩ := Option.map_eq_some_iff.1 h
  have hst : states (modify s.operations id fun op => { op with cancelled := true, state := .cancelled }) =
      Function.update (states s.operations) id (some .cancelled) :=
    states_modify (fun op _ => rfl) (by rw [h]; rfl)
  unfold cancel
  simp only [hl, hr]
  rw [← hst]
  rfl

theorem ledger_cancel_other {s : State} {id : Nat} (hp : states s.operations id ≠ some .pending)
    (hr : states s.operations id ≠ some .running) : ledger (cancel s id) = ledger s := by
  unfold cancel
  cases hl : s.operations.lookup id with
  | none => rfl
  | some op =>
    have hst : states s.operations id = some op.state := by rw [states, hl]; rfl
    rw [hst] at hp hr
    have hsame : states (modify s.operations id fun op => { op with cancelled := true }) = states s.operations :=
      states_modify_same fun op _ => rfl
    dsimp only
    split
    · rename_i he
      exact absurd (congrArg some he) hp
    · rename_i he
      exact absurd (congrArg some he) hr
    · show ({ ledger s with state := _ } : Ledger) = _
      rw [hsame]
      rfl

theorem ledger_cancel (s : State) (id : Nat) :
    ∃ tag, LedgerStep tag (ledger s) (ledger (cancel s id)) ∧ tag ≠ .cancelAll ∧
      (tag = .drop → states s.operations id = some .pending) := by
  by_cases hp : states s.operations id = some .pending
  · rw [ledger_cancel_pending hp]
    exact ⟨.drop, .drop hp, (by intro h; cases h), fun _ => hp⟩
  · refine ⟨.keep, ?_, (by intro h; cases h), (by intro h; cases h)⟩
    by_cases hr : states s.operations id = some .running
    · rw [ledger_cancel_running hr]
      exact .cancel hr
    · rw [ledger_cancel_other hp hr]
      exact .skip _

theorem ledger_cancelAll {s : State} (h : Tidy s) :
    ledger (cancelAll s) = { ledger s with state := fun id => sweep (states s.operations id), queue := [] } := by
  rw [← states_cancelAll h.keys]
  rfl

theorem onOperationFinished_none {s : State} {id : Nat} (result : OperationResult)
    (h : states s.operations id = none) : onOperationFinished s id result = s := by
  unfold onOperationFinished
  rw [Option.map_eq_none_iff.1 h]

theorem ledger_onOperationFinished {s : State} {id : Nat} {st : OperationState} (result : OperationResult)
    (h : states s.operations id = some st) :
    ∃ final, (final = .cancelled ∨ final = .completed ∨ final = .failed) ∧
      ledger (onOperationFinished s id result) =
        { ledger s with
          state := Function.update (states s.operations) id (some final)
          reported := (ledger s).reported ++ [id]
          running := s.runningCount - 1 } := by
  obtain ⟨op, hl, rfl⟩ := Option.map_eq_some_iff.1 h
  obtain ⟨final, hfinal, sig, hsig, heq⟩ :
      ∃ final : OperationState, (final = .cancelled ∨ final = .completed ∨ final = .failed) ∧
        ∃ sig, ended sig = some id ∧ onOperationFinished s id result =
          { s with
            operations := modify s.operations id fun op => { op with result := result, state := final }
            runningCount := s.runningCount - 1
            signals := s.signals ++ [sig]
            stack := .slots :: .finished id :: s.stack } := by
    unfold onOperationFinished
    simp only [hl]
    refine ⟨_, ?_, _, ?_, rfl⟩
    · split
      · exact .inl rfl
      · split
        · exact .inr (.inl rfl)
        · exact .inr (.inr rfl)
    · split <;> rfl
  have hst : states (modify s.operations id fun op => { op with result := result, state := final }) =
      Function.update (states s.operations) id (some final) :=
    states_modify (fun op _ => rfl) (by rw [h]; rfl)
  refine ⟨final, hfinal, ?_⟩
  rw [heq, ← hst]
  show Ledger.mk _ _ _ (List.filterMap ended (s.signals ++ [sig])) _ _ _ = _
  rw [List.filterMap_append, List.filterMap_cons, hsig]
  rfl

theorem ledger_deliver (s : State) (id : Nat) : LedgerStep .keep (ledger s) (ledger (deliver s id)) := by
  unfold deliver
  split
  · exact .skip _
  · rename_i result hpost
    obtain ⟨w, hw, -⟩ := Option.bind_eq_some_iff.1 hpost
    have hid : w.id = id := by simpa using List.find?_some hw
    have hf : id ∈ (ledger s).flight := hid ▸ List.mem_map_of_mem (List.mem_of_find?_eq_some hw)
    have hworkers : (s.workers.filter fun w => w.id != id).map (·.id) = (s.workers.map (·.id)).filter (· != id) := by
      rw [List.filter_map]
      rfl
    cases hst : states s.operations id with
    | none =>
      rw [onOperationFinished_none (s := { s with workers := s.workers.filter fun w => w.id != id }) result hst]
      show LedgerStep .keep (ledger s) { ledger s with flight := (s.workers.filter fun w => w.id != id).map (·.id) }
      rw [hworkers]
      exact .lose hf hst
    | some st =>
      obtain ⟨final, hfinal, heq⟩ := ledger_onOperationFinished
        (s := { s with workers := s.workers.filter fun w => w.id != id }) result hst
      rw [heq]
      show LedgerStep .keep (ledger s) (Ledger.mk _ ((s.workers.filter fun w => w.id != id).map (·.id)) _ _ _ _ _)
      rw [hworkers]
      exact .finish hf hst hfinal

theorem ledger_work (s : State) (id : Nat) (outcome : Except String QJsonObject) (flag : Bool) :
    ledger (work s id outcome flag) = ledger s := by
  have hids : ((work s id outcome flag).workers).map (·.id) = s.workers.map (·.id) := by
    unfold work
    rw [List.map_map]
    refine List.map_congr_left fun w _ => ?_
    rw [Function.comp_apply]
    split <;> rfl
  show Ledger.mk _ (((work s id outcome flag).workers).map (·.id)) _ _ _ _ _ = _
  rw [hids]
  rfl

/-- Eviction forgets operations of the list, and only these. -/
theorem evict_spec (operations : List (Nat × Operation)) (finishedOrder : List Nat) :
    (∀ id, states (evict operations finishedOrder).1 id = states operations id ∨
      id ∈ finishedOrder ∧ states (evict operations finishedOrder).1 id = none) ∧
    (∀ id ∈ (evict operations finishedOrder).2, id ∈ finishedOrder) ∧
    ((keys operations).Nodup → (keys (evict operations finishedOrder).1).Nodup) := by
  induction finishedOrder generalizing operations with
  | nil => exact ⟨fun id => .inl rfl, fun id hm => hm, fun h => h⟩
  | cons victim finishedOrder ih =>
    rw [evict]
    split
    · obtain ⟨hst, hsub, hkeys⟩ := ih (remove operations victim)
      refine ⟨?_, fun id hm => List.mem_cons_of_mem _ (hsub id hm), fun h => hkeys (keys_filter_nodup h _)⟩
      intro id
      rw [states_remove] at hst
      by_cases hid : id = victim
      · subst hid
        refine .inr ⟨List.mem_cons_self, ?_⟩
        rcases hst id with h | h
        · rw [h, Function.update_self]
        · exact h.2
      · rcases hst id with h | h
        · rw [h, Function.update_of_ne hid]
          exact .inl rfl
        · exact .inr ⟨List.mem_cons_of_mem _ h.1, h.2⟩
    · exact ⟨fun id => .inl rfl, fun id hm => hm, fun h => h⟩

theorem ledger_retain {s : State} (h : Tidy s) {id : Nat} {stack : List Frame} (hs : s.stack = .finished id :: stack) :
    LedgerStep .keep (ledger s) (ledger (retain s id stack)) := by
  obtain ⟨hst, -, -⟩ := evict_spec s.operations (s.finishedOrder ++ [id])
  refine .forget (k := ledger s) (f := states (evict s.operations (s.finishedOrder ++ [id])).1) ?_
  intro x
  refine (hst x).imp_right fun hx => ⟨?_, hx.2⟩
  rcases List.mem_append.1 hx.1 with hm | hm
  · exact h.finishedOrder x hm
  · rw [List.mem_singleton.1 hm]
    exact h.suspended id (hs ▸ List.mem_cons_self)

theorem live_of_pending {operations : List (Nat × Operation)} {id : Nat} (h : states operations id = some .pending) :
    ∃ op, live operations id = some op := by
  obtain ⟨op, hl, hp⟩ := Option.map_eq_some_iff.1 h
  refine ⟨op, ?_⟩
  rw [live, hl, Option.filter_some, hp]
  rfl

theorem ledger_processQueue {s : State} (h : Ok (ledger s)) : LedgerStep .keep (ledger s) (ledger (processQueue s)) := by
  unfold processQueue
  split
  · rename_i hrun
    split
    · -- everyone in the queue is live
      rename_i hpick
      obtain ⟨id, hid⟩ := List.exists_mem_of_ne_nil _ hrun.2
      obtain ⟨op, hlive⟩ := live_of_pending (h.queue id hid).1
      rw [(pick_eq_none hpick).2 id hid] at hlive
      cases hlive
    · rename_i best hpick
      obtain ⟨⟨before, after, hq, hi, -, -⟩, op, hlive, -⟩ := pick_picked hpick
      rw [Nat.zero_add] at hi
      have herase : s.queue.eraseIdx best.index = before ++ after := by
        rw [hq, hi, List.eraseIdx_append_of_length_le (Nat.le_refl _), Nat.sub_self]
        rfl
      have hsome : (states s.operations best.id).isSome = true := by
        obtain ⟨hl, -⟩ := Option.filter_eq_some_iff.1 hlive
        rw [states, hl]
        rfl
      have hstep (ghost : Start) :
          LedgerStep .keep (ledger s) (ledger (start { s with queue := before ++ after } best.id ghost)) := by
        rw [ledger_start (s := { s with queue := before ++ after }) ghost hsome]
        exact .start hrun.1 hq
      simp only [hlive, herase]
      -- the ledger has no ghost: any will do
      exact hstep ⟨0, 0, [], []⟩
  · exact .skip _

/-! ## Steps -/

/-- An operation that is still queued is cancelled or times out. -/
def DropsQueued (s : State) : Lbl → Prop
  | .cancel id => states s.operations id = some .pending
  | .timeout id => callable s = true ∧ id ∈ s.timers ∧ states s.operations id = some .pending
  | _ => False

/-- **Every step of the manager is one of its ledger**, and says who is
responsible for what it drops. -/
theorem step_ledger {s : State} (ht : Tidy s) (hk : Ok (ledger s)) (l : Lbl) :
    ∃ tag, LedgerStep tag (ledger s) (ledger (step s l)) ∧ (tag = .drop → DropsQueued s l) ∧
      (tag = .cancelAll → l = .cancelAll) := by
  have hkeep : ∀ {s'}, LedgerStep .keep (ledger s) (ledger s') → ∃ tag, LedgerStep tag (ledger s) (ledger s') ∧
      (tag = .drop → DropsQueued s l) ∧ (tag = .cancelAll → l = .cancelAll) :=
    fun h => ⟨.keep, h, (by intro h; cases h), (by intro h; cases h)⟩
  cases l with
  | execute priority timeoutMs => exact hkeep (ledger_execute s priority timeoutMs)
  | cancel id =>
    obtain ⟨tag, hs, hne, hdrop⟩ := ledger_cancel s id
    exact ⟨tag, hs, hdrop, fun he => absurd he hne⟩
  | timeout id =>
    simp only [step]
    split
    · rename_i hc
      obtain ⟨tag, hs, hne, hdrop⟩ := ledger_cancel { s with timers := s.timers.filter (· != id) } id
      exact ⟨tag, hs, fun he => ⟨hc.1, hc.2, hdrop he⟩, fun he => absurd he hne⟩
    · exact hkeep (.skip _)
  | cancelAll =>
    refine ⟨.cancelAll, ?_, (by intro h; cases h), fun _ => rfl⟩
    show LedgerStep _ _ (ledger (cancelAll s))
    rw [ledger_cancelAll ht]
    exact .cancelAll
  | deliver id =>
    simp only [step]
    split
    · exact hkeep (ledger_deliver s id)
    · exact hkeep (.skip _)
  | work id outcome flag =>
    refine hkeep ?_
    show LedgerStep .keep (ledger s) (ledger (work s id outcome flag))
    rw [ledger_work]
    exact .skip _
  | ret =>
    simp only [step]
    split <;> exact hkeep (.skip _)
  | tick =>
    simp only [step]
    split
    · rename_i hs
      exact hkeep (ledger_retain ht hs)
    · exact hkeep (ledger_processQueue hk)
    · exact hkeep (.skip _)

/-! ## Runs -/

/-- Reports are not taken back. -/
theorem reported_mono {tag : Tag} {k k' : Ledger} (h : LedgerStep tag k k') {id : Nat} (hm : id ∈ k.reported) :
    id ∈ k'.reported := by
  cases h with
  | finish hf hs he => exact List.mem_append_left _ hm
  | _ => exact hm

theorem keys_start (s : State) (id : Nat) (ghost : Start) : keys (start s id ghost).operations = keys s.operations := by
  simp [start]

theorem keys_execute {s : State} (h : (keys s.operations).Nodup) (hk : Ok (ledger s)) (priority : OperationPriority)
    (timeoutMs : Int) : (keys (execute s priority timeoutMs).operations).Nodup := by
  have hfresh : s.nextId ∉ keys s.operations := by
    intro hm
    obtain ⟨e, he, hid⟩ := List.mem_map.1 hm
    have hl : s.operations.lookup s.nextId = some e.2 := lookup_of_mem h (hid ▸ he)
    have hnone : states s.operations s.nextId = none := (nextId_fresh hk).1
    rw [states, hl] at hnone
    cases hnone
  have hacc : (keys (accept s priority timeoutMs).operations).Nodup := List.nodup_cons.2 ⟨hfresh, h⟩
  obtain ⟨timers, he⟩ := execute_eq s priority timeoutMs
  rw [he]
  show (keys (startOrQueue s priority timeoutMs).operations).Nodup
  unfold startOrQueue
  split
  · rw [keys_start]
    exact hacc
  · exact hacc

theorem keys_cancel {s : State} (h : (keys s.operations).Nodup) (id : Nat) : (keys (cancel s id).operations).Nodup := by
  unfold cancel
  split
  · exact h
  · split
    · exact keys_filter_nodup h _
    · dsimp only
      rw [keys_modify]
      exact h
    · dsimp only
      rw [keys_modify]
      exact h

theorem keys_cancelAll {s : State} (h : (keys s.operations).Nodup) : (keys (cancelAll s).operations).Nodup := by
  unfold cancelAll
  refine keys_filter_nodup ?_ _
  rw [keys, List.map_map]
  exact h

theorem keys_onOperationFinished {s : State} (h : (keys s.operations).Nodup) (id : Nat) (result : OperationResult) :
    (keys (onOperationFinished s id result).operations).Nodup := by
  unfold onOperationFinished
  split
  · exact h
  · dsimp only
    rw [keys_modify]
    exact h

theorem keys_processQueue {s : State} (h : (keys s.operations).Nodup) : (keys (processQueue s).operations).Nodup := by
  unfold processQueue
  split
  · split
    · exact h
    · dsimp only
      split
      · exact h
      · simp only [keys_start]
        exact h
  · exact h

/-- A step keeps the map tidy if it keeps its keys apart, lists for eviction
what is reported, and suspends `onOperationFinished` after its report. -/
theorem tidy_of {s s' : State} {tag : Tag} (h : Tidy s) (hs : LedgerStep tag (ledger s) (ledger s'))
    (hkeys : (keys s'.operations).Nodup)
    (hfin : ∀ id ∈ s'.finishedOrder, id ∈ s.finishedOrder ∨ .finished id ∈ s.stack)
    (hsus : ∀ id, .finished id ∈ s'.stack → .finished id ∈ s.stack ∨ id ∈ (ledger s').reported) : Tidy s' := by
  refine ⟨hkeys, ?_, ?_⟩
  · intro id hm
    rcases hfin id hm with hm | hm
    · exact reported_mono hs (h.finishedOrder id hm)
    · exact reported_mono hs (h.suspended id hm)
  · intro id hm
    rcases hsus id hm with hm | hm
    · exact reported_mono hs (h.suspended id hm)
    · exact hm

/-- The calls that neither finish an operation nor go on with `finished`. -/
theorem cancel_stack (s : State) (id : Nat) :
    (cancel s id).stack = s.stack ∧ (cancel s id).finishedOrder = s.finishedOrder := by
  unfold cancel
  split
  · exact ⟨rfl, rfl⟩
  · split <;> exact ⟨rfl, rfl⟩

theorem execute_stack (s : State) (priority : OperationPriority) (timeoutMs : Int) :
    (execute s priority timeoutMs).stack = s.stack ∧
      (execute s priority timeoutMs).finishedOrder = s.finishedOrder := by
  obtain ⟨timers, he⟩ := execute_eq s priority timeoutMs
  rw [he]
  show (startOrQueue s priority timeoutMs).stack = _ ∧ (startOrQueue s priority timeoutMs).finishedOrder = _
  unfold startOrQueue
  split <;> exact ⟨rfl, rfl⟩

theorem processQueue_stack (s : State) :
    (∀ f ∈ (processQueue s).stack, f ∈ s.stack ∨ f = .slots) ∧ (processQueue s).finishedOrder = s.finishedOrder := by
  have htail : ∀ f ∈ s.stack.tail, f ∈ s.stack ∨ f = .slots := fun f hm => .inl (List.mem_of_mem_tail hm)
  unfold processQueue
  split
  · split
    · exact ⟨htail, rfl⟩
    · dsimp only
      split
      · exact ⟨fun f hm => .inl hm, rfl⟩
      · refine ⟨?_, rfl⟩
        intro f hm
        exact (List.mem_cons.1 hm).symm
  · exact ⟨htail, rfl⟩

theorem deliver_stack (s : State) (id : Nat) :
    (∀ x, .finished x ∈ (deliver s id).stack → .finished x ∈ s.stack ∨ x ∈ (ledger (deliver s id)).reported) ∧
      (deliver s id).finishedOrder = s.finishedOrder ∧
      ((keys s.operations).Nodup → (keys (deliver s id).operations).Nodup) := by
  unfold deliver
  split
  · exact ⟨fun x hm => .inl hm, rfl, fun h => h⟩
  · rename_i result hpost
    refine ⟨?_, ?_, fun h =>
      keys_onOperationFinished (s := { s with workers := s.workers.filter fun w => w.id != id }) h id result⟩
    · cases hst : states s.operations id with
      | none =>
        rw [onOperationFinished_none (s := { s with workers := s.workers.filter fun w => w.id != id }) result hst]
        exact fun x hm => .inl hm
      | some st =>
        obtain ⟨final, -, heq⟩ := ledger_onOperationFinished
          (s := { s with workers := s.workers.filter fun w => w.id != id }) result hst
        obtain ⟨op, hl, -⟩ := Option.map_eq_some_iff.1 hst
        rw [heq]
        intro x hm
        unfold onOperationFinished at hm
        simp only [hl] at hm
        rcases List.mem_cons.1 hm with hm | hm
        · cases hm
        · rcases List.mem_cons.1 hm with hm | hm
          · cases hm
            exact .inr (List.mem_append_right _ List.mem_cons_self)
          · exact .inl hm
    · unfold onOperationFinished
      split <;> rfl

theorem tidy_step {s : State} (h : Tidy s) (hk : Ok (ledger s)) (l : Lbl) : Tidy (step s l) := by
  obtain ⟨tag, hs, -⟩ := step_ledger h hk l
  have hkeep : ∀ {s'}, LedgerStep tag (ledger s) (ledger s') → (keys s'.operations).Nodup →
      s'.stack = s.stack → s'.finishedOrder = s.finishedOrder → Tidy s' := by
    intro s' hs' hkeys hstack hfin
    refine tidy_of h hs' hkeys ?_ ?_
    · intro id hm
      exact .inl (hfin ▸ hm)
    · intro id hm
      exact .inl (hstack ▸ hm)
  cases l with
  | execute priority timeoutMs =>
    obtain ⟨h1, h2⟩ := execute_stack s priority timeoutMs
    exact hkeep hs (keys_execute h.keys hk priority timeoutMs) h1 h2
  | cancel id =>
    obtain ⟨h1, h2⟩ := cancel_stack s id
    exact hkeep hs (keys_cancel h.keys id) h1 h2
  | timeout id =>
    simp only [step] at hs ⊢
    split at hs <;> rename_i hc
    · rw [if_pos hc]
      obtain ⟨h1, h2⟩ := cancel_stack { s with timers := s.timers.filter (· != id) } id
      exact hkeep hs (keys_cancel (s := { s with timers := s.timers.filter (· != id) }) h.keys id) h1 h2
    · rw [if_neg hc]
      exact h
  | cancelAll => exact hkeep hs (keys_cancelAll h.keys) rfl rfl
  | deliver id =>
    simp only [step] at hs ⊢
    split at hs <;> rename_i hc
    · rw [if_pos hc]
      obtain ⟨h1, h2, h3⟩ := deliver_stack s id
      exact tidy_of h hs (h3 h.keys) (fun x hm => .inl (h2 ▸ hm)) h1
    · rw [if_neg hc]
      exact h
  | work id outcome flag => exact hkeep hs h.keys rfl rfl
  | ret =>
    simp only [step] at hs ⊢
    split
    · rename_i stack hstack
      refine tidy_of h (.skip (ledger s)) h.keys (fun x hm => .inl hm) ?_
      intro x hm
      rw [hstack]
      exact .inl (List.mem_cons_of_mem _ hm)
    · exact h
  | tick =>
    simp only [step] at hs ⊢
    split
    · rename_i id stack hstack
      obtain ⟨-, hsub, hkeys⟩ := evict_spec s.operations (s.finishedOrder ++ [id])
      refine tidy_of h (ledger_retain h hstack) (hkeys h.keys) ?_ ?_
      · intro x hm
        rcases List.mem_append.1 (hsub x hm) with hm | hm
        · exact .inl hm
        · rw [List.mem_singleton.1 hm, hstack]
          exact .inr List.mem_cons_self
      · intro x hm
        rw [hstack]
        rcases List.mem_cons.1 hm with hm | hm
        · cases hm
        · exact .inl (List.mem_cons_of_mem _ hm)
    · obtain ⟨h1, h2⟩ := processQueue_stack s
      refine tidy_of h (ledger_processQueue hk) (keys_processQueue h.keys) (fun x hm => .inl (h2 ▸ hm)) ?_
      intro x hm
      rcases h1 _ hm with hm | hm
      · exact .inl hm
      · cases hm
    · exact h

theorem ok_run_step {s : State} (h : Tidy s ∧ Ok (ledger s)) (l : Lbl) :
    Tidy (step s l) ∧ Ok (ledger (step s l)) := by
  obtain ⟨tag, hs, -⟩ := step_ledger h.1 h.2 l
  exact ⟨tidy_step h.1 h.2 l, ok_step h.2 hs⟩

/-- What holds in every state of every run. -/
theorem run_ok (maxConcurrent : Int) (σ : Nat → Lbl) (t : Nat) :
    Tidy (trace step (initial maxConcurrent) σ t) ∧ Ok (ledger (trace step (initial maxConcurrent) σ t)) := by
  refine trace_inv step (initial maxConcurrent) σ (I := fun s => Tidy s ∧ Ok (ledger s)) ⟨?_, ?_⟩
    (fun s l h => ok_run_step h l) t
  · exact ⟨List.nodup_nil, (fun id hm => by cases hm), fun id hm => by cases hm⟩
  · exact ⟨(fun id st hs => by cases hs), List.nodup_nil, (fun id hm => by cases hm), List.nodup_nil,
      (fun id hm => by cases hm), List.nodup_nil, fun id hm => by cases hm⟩

end NekoEcat.L4.AsyncRun
