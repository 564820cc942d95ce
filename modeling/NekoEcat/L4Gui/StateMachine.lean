import NekoEcat.Core.Newest
import NekoEcat.Core.QHash
import NekoEcat.Core.Trace

/-!
# Slave states that are asked for

The service checks a transition against the EtherCAT state diagram, hands it to the
client and at once takes the new state as the slave's: the outcome comes later, to
the client, and does not reach the service. A recovery asks for the state below.

* `requestState_cases`: what a request does, accepted or refused.
* `tracks_step`: one event, seen from one position.
* `tracked_requests`: after any events the state and the history of a position are
  those of the requests handed to the client.
* `rejected_tracked`: a state that was not acknowledged.
-/
namespace NekoEcat.L4.StateMachine
open NekoEcat.Newest NekoEcat.Trace

/-! ## The service -/

/-- mirrors apps/ecat-studio/services/StateMachineService.h:39-46 -/
structure StateTransition where
  position : Int
  fromState : Int
  toState : Int
  timestamp : Int
  success : Bool := false
  reason : String := ""
  deriving DecidableEq, Repr

inductive Signal where
  | stateChanged (position state : Int)
  | stateChangeRequested (position state : Int)
  | stateTransitionFailed (position fromState toState : Int) (reason : String)
  deriving DecidableEq, Repr

structure Service where
  currentStates : QHash Int Int
  history : QHash Int (List StateTransition)

def kMaxHistory : Nat := 500

def isValidState (state : Int) : Bool := decide (state = 1 ∨ state = 2 ∨ state = 4 ∨ state = 8)

/-- mirrors apps/ecat-studio/services/StateMachineService.cpp:104-117 -/
def stateToString : Int → String
  | 1 => "INIT"
  | 2 => "PREOP"
  | 4 => "SAFEOP"
  | 8 => "OP"
  | _ => "INIT"

/-- mirrors apps/ecat-studio/services/StateMachineService.cpp:119-130 -/
def recoveryTargetState : Int → Int
  | 8 => 4
  | 4 => 2
  | 2 => 1
  | current => current

/-- mirrors apps/ecat-studio/services/StateMachineService.cpp:56-77 -/
def validateTransition (fromState toState : Int) : Bool :=
  if isValidState toState = false then false
  else if fromState = 0 ∧ toState = 1 then true
  else if isValidState fromState = false then false
  else if fromState = toState then true
  else
    match fromState with
    | 1 => decide (toState = 2)
    | 2 => decide (toState = 4 ∨ toState = 1)
    | 4 => decide (toState = 8 ∨ toState = 2 ∨ toState = 1)
    | 8 => decide (toState = 4)
    | _ => false

def Service.currentState (s : Service) (position : Int) : Int := (s.currentStates.value position).getD 0

def Service.stateHistory (s : Service) (position : Int) : List StateTransition := (s.history.value position).getD []

/-- The entry and the new state.
mirrors apps/ecat-studio/services/StateMachineService.cpp:30-45 -/
def Service.record (s : Service) (tr : StateTransition) : Service where
  currentStates := s.currentStates.insert tr.position tr.toState
  history := s.history.insert tr.position (keep kMaxHistory (s.stateHistory tr.position) tr)

/-! ## The client -/

/-- What `EcatClient::setState` is called with. -/
structure Request where
  position : Int
  state : String
  deriving DecidableEq, Repr

inductive Outcome where
  | acknowledged
  | rejected
  | timedOut
  | notConnected
  deriving DecidableEq, Repr

/-- The client as far as `setState` goes: the calls so far, those without an
outcome, and the outcomes of the others. -/
structure Client where
  connected : Bool
  calls : List Request := []
  pending : List Request := []
  answered : List (Request × Outcome) := []
  deriving DecidableEq

/-- mirrors apps/ecat-studio/infra/EcatClient.cpp:290-298, 398-419 -/
def Client.setState (c : Client) (r : Request) : Client :=
  if c.connected then { c with calls := c.calls ++ [r], pending := c.pending ++ [r] }
  else { c with calls := c.calls ++ [r], answered := c.answered ++ [(r, .notConnected)] }

/-- The handler of a request runs; of the outcome it uses nothing the service reads. -/
def Client.finish (c : Client) (k : Nat) (outcome : Outcome) : Client :=
  match c.pending[k]? with
  | none => c
  | some r => { c with pending := c.pending.eraseIdx k, answered := c.answered ++ [(r, outcome)] }

/-- The connection is made or lost. -/
def Client.connection (c : Client) (up : Bool) : Client :=
  if up then { c with connected := true }
  else { c with connected := false, pending := [], answered := c.answered ++ c.pending.map fun r => (r, .notConnected) }

/-! ## Both -/

structure World where
  service : Service
  client : Client
  signals : List Signal

def World.emit (w : World) (signals : List Signal) : World := { w with signals := w.signals ++ signals }

/-- What `requestState` returns, at a time.
mirrors apps/ecat-studio/services/StateMachineService.cpp:14-50 -/
def requestState (w : World) (position state now : Int) : Bool × World :=
  let fromState := w.service.currentState position
  if isValidState state = false then
    (false, w.emit [.stateTransitionFailed position fromState state "Invalid target state"])
  else if validateTransition fromState state = false then
    (false, w.emit [.stateTransitionFailed position fromState state
      ("Transition from state " ++ toString fromState ++ " to " ++ toString state ++ " is not allowed")])
  else
    let client := w.client.setState ⟨position, stateToString state⟩
    let service := w.service.record { position, fromState, toState := state, timestamp := now, success := true }
    (true, { w with service, client }.emit [.stateChangeRequested position state, .stateChanged position state])

/-- mirrors apps/ecat-studio/services/StateMachineService.cpp:83-98 -/
def recoverState (w : World) (position now : Int) : Bool × World :=
  let current := w.service.currentState position
  if isValidState current = false then
    (false, w.emit [.stateTransitionFailed position current current "No known state to recover from"])
  else
    let target := recoveryTargetState current
    if target = current then (true, w.emit [.stateChanged position current])
    else requestState w position target now

inductive Event where
  | requestState (position state now : Int)
  | recoverState (position now : Int)
  /-- the outcome of the `k`-th request that has none yet -/
  | outcome (k : Nat) (outcome : Outcome)
  | connection (up : Bool)
  deriving DecidableEq, Repr

def step (w : World) : Event → World
  | .requestState position state now => (requestState w position state now).2
  | .recoverState position now => (recoverState w position now).2
  | .outcome k outcome => { w with client := w.client.finish k outcome }
  | .connection up => { w with client := w.client.connection up }

/-- The start, with or without a connection. -/
def start (connected : Bool) : World := ⟨⟨.empty, .empty⟩, { connected }, []⟩

/-! ## One event -/

@[simp] theorem setState_calls (c : Client) (r : Request) : (c.setState r).calls = c.calls ++ [r] := by
  unfold Client.setState
  split <;> rfl

@[simp] theorem finish_calls (c : Client) (k : Nat) (outcome : Outcome) : (c.finish k outcome).calls = c.calls := by
  unfold Client.finish
  split <;> rfl

@[simp] theorem connection_calls (c : Client) (up : Bool) : (c.connection up).calls = c.calls := by
  unfold Client.connection
  split <;> rfl

@[simp] theorem emit_service (w : World) (signals : List Signal) : (w.emit signals).service = w.service := rfl

@[simp] theorem emit_client (w : World) (signals : List Signal) : (w.emit signals).client = w.client := rfl

/-- A request that is allowed is recorded and handed to the client. -/
structure Accepted (w w' : World) (tr : StateTransition) : Prop where
  start : tr.fromState = w.service.currentState tr.position
  allowed : validateTransition tr.fromState tr.toState = true
  success : tr.success = true
  service : w'.service = w.service.record tr
  calls : w'.client.calls = w.client.calls ++ [⟨tr.position, stateToString tr.toState⟩]

/-- An event that is none has no effect on what is tracked. -/
structure Silent (w w' : World) : Prop where
  service : w'.service = w.service
  calls : w'.client.calls = w.client.calls

theorem requestState_cases (w : World) (position state now : Int) :
    Silent w (requestState w position state now).2 ∨ ∃ tr, Accepted w (requestState w position state now).2 tr := by
  unfold requestState
  dsimp only
  split
  · exact .inl ⟨rfl, rfl⟩
  · split
    · exact .inl ⟨rfl, rfl⟩
    · rename_i hallowed
      exact .inr ⟨⟨position, _, state, now, true, ""⟩, rfl, by simpa using hallowed, rfl, rfl, by simp⟩

theorem step_cases (w : World) (e : Event) : Silent w (step w e) ∨ ∃ tr, Accepted w (step w e) tr := by
  cases e with
  | requestState position state now => exact requestState_cases w position state now
  | recoverState position now =>
    unfold step recoverState
    dsimp only
    split
    · exact .inl ⟨rfl, rfl⟩
    · split
      · exact .inl ⟨rfl, rfl⟩
      · exact requestState_cases w position _ now
  | outcome k outcome => exact .inl ⟨rfl, finish_calls _ _ _⟩
  | connection up => exact .inl ⟨rfl, connection_calls _ _⟩

theorem currentState_record (s : Service) (tr : StateTransition) (position : Int) :
    (s.record tr).currentState position = if position = tr.position then tr.toState else s.currentState position := by
  unfold Service.currentState Service.record
  rw [QHash.value_insert]
  split <;> rfl

theorem stateHistory_record (s : Service) (tr : StateTransition) (position : Int) :
    (s.record tr).stateHistory position =
      if position = tr.position then keep kMaxHistory (s.stateHistory position) tr else s.stateHistory position := by
  unfold Service.stateHistory Service.record
  rw [QHash.value_insert]
  split
  · rename_i h
    rw [h]
    rfl
  · rfl

/-! ## Any events -/

/-- Each transition starts where the one before it has ended, and is allowed. -/
def Linked : Int → List StateTransition → Prop
  | _, [] => True
  | state, tr :: trs => tr.fromState = state ∧ validateTransition state tr.toState = true ∧ Linked tr.toState trs

/-- Where transitions end that start in a state. -/
def lastState (state : Int) (trs : List StateTransition) : Int := (trs.getLast?.map (·.toState)).getD state

/-- What is tracked of a position is what `trs` says, all the transitions of that
position that were handed to the client. -/
structure Tracks (w : World) (position : Int) (trs : List StateTransition) : Prop where
  handed : w.client.calls.filter (fun r => decide (r.position = position)) =
    trs.map fun tr => ⟨position, stateToString tr.toState⟩
  success : ∀ tr ∈ trs, tr.position = position ∧ tr.success = true
  linked : Linked 0 trs
  current : w.service.currentState position = lastState 0 trs
  history : w.service.stateHistory position = trs.rtake kMaxHistory

theorem linked_append {state : Int} {trs : List StateTransition} {tr : StateTransition} (h : Linked state trs)
    (hstart : tr.fromState = lastState state trs) (hallowed : validateTransition tr.fromState tr.toState = true) :
    Linked state (trs ++ [tr]) := by
  induction trs generalizing state with
  | nil =>
    have hfrom : tr.fromState = state := hstart
    exact ⟨hfrom, by rw [← hfrom]; exact hallowed, trivial⟩
  | cons first trs ih =>
    obtain ⟨hfrom, hfirst, hrest⟩ := h
    refine ⟨hfrom, hfirst, ih hrest ?_⟩
    rw [hstart]
    cases trs <;> rfl

/-- **One event**, seen from one position. -/
theorem tracks_step {w : World} {position : Int} {trs : List StateTransition} (h : Tracks w position trs) (e : Event) :
    ∃ trs', Tracks (step w e) position trs' := by
  rcases step_cases w e with hsilent | ⟨tr, haccepted⟩
  · refine ⟨trs, ?_, h.success, h.linked, ?_, ?_⟩
    · rw [hsilent.calls, h.handed]
    · rw [hsilent.service, h.current]
    · rw [hsilent.service, h.history]
  · by_cases hposition : position = tr.position
    · refine ⟨trs ++ [tr], ?_, ?_, linked_append h.linked ?_ haccepted.allowed, ?_, ?_⟩
      · rw [haccepted.calls, List.filter_append, h.handed, List.map_append]
        simp [hposition]
      · intro t ht
        rcases List.mem_append.1 ht with ht | ht
        · exact h.success t ht
        · rw [List.mem_singleton.1 ht]
          exact ⟨hposition.symm, haccepted.success⟩
      · rw [haccepted.start, ← hposition, h.current]
      · rw [haccepted.service, currentState_record, if_pos hposition]
        simp [lastState]
      · rw [haccepted.service, stateHistory_record, if_pos hposition, h.history, keep_rtake]
    · refine ⟨trs, ?_, h.success, h.linked, ?_, ?_⟩
      · have hother : ¬ tr.position = position := fun he => hposition he.symm
        rw [haccepted.calls, List.filter_append, h.handed]
        simp [hother]
      · rw [haccepted.service, currentState_record, if_neg hposition, h.current]
      · rw [haccepted.service, stateHistory_record, if_neg hposition, h.history]

theorem tracks_exec {w : World} {position : Int} {trs : List StateTransition} (h : Tracks w position trs)
    (events : List Event) : ∃ trs', Tracks (exec step w events) position trs' := by
  induction events generalizing w trs with
  | nil => exact ⟨trs, h⟩
  | cons e events ih =>
    obtain ⟨trs', h'⟩ := tracks_step h e
    exact ih h'

/-- A state that becomes another one was just handed to the client. -/
theorem changed_step {w : World} {e : Event} {position : Int}
    (h : (step w e).service.currentState position ≠ w.service.currentState position) :
    validateTransition (w.service.currentState position) ((step w e).service.currentState position) = true ∧
      (step w e).client.calls = w.client.calls ++ [⟨position, stateToString ((step w e).service.currentState position)⟩] := by
  rcases step_cases w e with hsilent | ⟨tr, haccepted⟩
  · rw [hsilent.service] at h
    exact absurd rfl h
  · rw [haccepted.service, currentState_record] at h ⊢
    split at h
    · rename_i hposition
      rw [if_pos hposition, hposition, ← haccepted.start]
      exact ⟨haccepted.allowed, haccepted.calls⟩
    · exact absurd rfl h

/-- **The tracked state is the one asked for last.** After any events, of each
position: all transitions that were handed to the client are allowed and linked, the
state is where the last one ends, and the history is the last 500 of them, in order
and marked successful. A state changes only when it is handed to the client. -/
theorem tracked_requests (connected : Bool) (events : List Event) :
    (∀ position, ∃ trs, Tracks (exec step (start connected) events) position trs) ∧
    ∀ pre e position, pre ++ [e] <+: events →
      let w := exec step (start connected) pre
      (step w e).service.currentState position ≠ w.service.currentState position →
        validateTransition (w.service.currentState position) ((step w e).service.currentState position) = true ∧
        (step w e).client.calls =
          w.client.calls ++ [⟨position, stateToString ((step w e).service.currentState position)⟩] := by
  refine ⟨fun position => ?_, fun _ _ _ _ => changed_step⟩
  have hstart : Tracks (start connected) position [] := ⟨rfl, nofun, trivial, rfl, rfl⟩
  exact tracks_exec hstart events

/-- A tracked state was acknowledged for its position. -/
def Acknowledged (w : World) : Prop :=
  ∀ position, w.service.currentState position ≠ 0 →
    (⟨position, stateToString (w.service.currentState position)⟩, .acknowledged) ∈ w.client.answered

/-- A request that the daemon rejects. -/
def rejectedRequest : List Event := [.requestState 0 1 0, .outcome 0 .rejected]

/-- **The rejected state is tracked.** -/
theorem rejected_tracked : ¬ ∀ events, Acknowledged (exec step (start true) events) := by
  intro h
  have hmem := h rejectedRequest 0 (by decide)
  exact absurd hmem (by decide)

end NekoEcat.L4.StateMachine
