import NekoEcat.Core.Assoc
import NekoEcat.Core.QJson

/-!
# `AsyncOperationManager`

The manager of the GUI's asynchronous operations as a machine. Each of its
critical sections, and each pass of the loop of `processQueue`, is one step.
`execute`, `cancel` and `cancelAll` are called from any thread between two
steps, and the workers of the thread pool go on at any time. Where the manager
emits a signal without holding its mutex, the connected code runs: a `slots`
frame is put on top of the stack, and under it stands what is left of the call
that emitted. The event loop makes queued calls and timeouts when the stack is
empty or connected code runs. `execute` emits `operationStarted` under the
mutex, so the code connected to it cannot call back.

Ids are numbers in the order they are handed out (the source's are UUIDs).
What an operation's function returns is chosen by the schedule. `starts` is a
ghost: who was queued when an operation was started.

* `execute`, `cancel`, `cancelAll`, `onOperationFinished`: the calls.
* `processQueue`, `pick`: the loop that starts queued operations.
* `pick_spec`: the scan picks the first of the highest priority.
-/
namespace NekoEcat.L4.AsyncOperation
open NekoEcat.Assoc

/-- mirrors apps/ecat-studio/services/AsyncOperationManager.h:47-52 -/
inductive OperationPriority where
  | low
  | normal
  | high
  | critical
  deriving DecidableEq, Repr

/-- `static_cast<int>(priority)` -/
def OperationPriority.toNat : OperationPriority → Nat
  | .low => 0
  | .normal => 1
  | .high => 2
  | .critical => 3

/-- mirrors apps/ecat-studio/services/AsyncOperationManager.h:55-61 -/
inductive OperationState where
  | pending
  | running
  | completed
  | failed
  | cancelled
  deriving DecidableEq, Repr

/-- mirrors apps/ecat-studio/services/AsyncOperationManager.h:64-68 -/
structure OperationResult where
  success : Bool
  data : QJsonObject
  error : String

/-- An operation, less its name, progress and function.
mirrors apps/ecat-studio/services/AsyncOperationManager.h:76-86 -/
structure Operation where
  priority : OperationPriority
  state : OperationState
  timeoutMs : Int
  result : OperationResult
  cancelled : Bool

/-- mirrors apps/ecat-studio/services/AsyncOperationManager.h:142-158 -/
inductive Signal where
  | operationStarted (id : Nat)
  | operationCompleted (id : Nat) (result : OperationResult)
  | operationFailed (id : Nat) (error : String)

/-- A function handed to the thread pool; `posted` is the result of the call
of `onOperationFinished` it has queued, if it has. -/
structure Worker where
  id : Nat
  posted : Option OperationResult

/-- An operation that is started, with the priorities of the live operations
that were queued before and after it. -/
structure Start where
  id : Nat
  priority : Nat
  before : List Nat
  after : List Nat
  deriving DecidableEq, Repr

inductive Frame where
  /-- the code connected to a signal -/
  | slots
  /-- the rest of `onOperationFinished` -/
  | finished (id : Nat)
  /-- the loop of `processQueue` -/
  | process
  deriving DecidableEq, Repr

structure State where
  maxConcurrent : Int
  runningCount : Int
  operations : List (Nat × Operation)
  queue : List Nat
  finishedOrder : List Nat
  stack : List Frame
  nextId : Nat
  workers : List Worker
  /-- the operations whose timeout has been started -/
  timers : List Nat
  signals : List Signal
  starts : List Start

/-- mirrors apps/ecat-studio/services/AsyncOperationManager.cpp:13-14 -/
def initial (maxConcurrent : Int) : State := ⟨maxConcurrent, 0, [], [], [], [], 0, [], [], [], []⟩

def kMaxRetainedOperations : Nat := 64

/-! ## The queue -/

/-- The operation is in the map and not cancelled. -/
def live (operations : List (Nat × Operation)) (id : Nat) : Option Operation :=
  (operations.lookup id).filter fun op => op.state != .cancelled

/-- The priorities of the live operations of a queue. -/
def priorities (operations : List (Nat × Operation)) (queue : List Nat) : List Nat :=
  queue.filterMap fun id => (live operations id).map (·.priority.toNat)

structure Best where
  index : Nat
  priority : Nat
  id : Nat
  deriving DecidableEq, Repr

/-- The scan for the best entry, from entry `i` on.
mirrors apps/ecat-studio/services/AsyncOperationManager.cpp:160-176 -/
def pick (operations : List (Nat × Operation)) : List Nat → Nat → Option Best → Option Best
  | [], _, best => best
  | id :: queue, i, best =>
    match live operations id with
    | none => pick operations queue (i + 1) best
    | some cand =>
      -- `bestPriority` is -1 before the first candidate
      if best.all fun b => b.priority < cand.priority.toNat then
        pick operations queue (i + 1) (some ⟨i, cand.priority.toNat, id⟩)
      else pick operations queue (i + 1) best

theorem priorities_cons (operations : List (Nat × Operation)) (id : Nat) (queue : List Nat) :
    priorities operations (id :: queue) =
      ((live operations id).map (·.priority.toNat)).toList ++ priorities operations queue := by
  unfold priorities
  rw [List.filterMap_cons]
  cases live operations id <;> rfl

/-- The entry `b` stands in the queue, is live, and beats those before it; none
after it beats it. -/
structure Picked (operations : List (Nat × Operation)) (queue : List Nat) (i : Nat) (b : Best) : Prop where
  split : ∃ before after, queue = before ++ b.id :: after ∧ b.index = i + before.length ∧
    (∀ p ∈ priorities operations before, p < b.priority) ∧ (∀ p ∈ priorities operations after, p ≤ b.priority)
  live : ∃ op, live operations b.id = some op ∧ op.priority.toNat = b.priority

/-- **The scan picks the first entry of the highest priority**, unless the one
it starts with is as good. -/
theorem pick_spec (operations : List (Nat × Operation)) (queue : List Nat) (i : Nat) (best : Option Best) {b : Best}
    (h : pick operations queue i best = some b) :
    best = some b ∧ (∀ p ∈ priorities operations queue, p ≤ b.priority) ∨
      Picked operations queue i b ∧ ∀ b' ∈ best, b'.priority < b.priority := by
  induction queue generalizing i best with
  | nil =>
    left
    refine ⟨h, ?_⟩
    intro p hp
    cases hp
  | cons id queue ih =>
    rw [pick] at h
    cases hl : live operations id with
    | none =>
      simp only [hl] at h
      rw [priorities_cons, hl]
      rcases ih (i + 1) best h with ⟨hb, hp⟩ | ⟨⟨⟨before, after, hq, hi, hbef, haft⟩, hlive⟩, hbest⟩
      · exact .inl ⟨hb, hp⟩
      · refine .inr ⟨⟨⟨id :: before, after, by rw [hq]; rfl, by rw [hi, List.length_cons]; omega, ?_, haft⟩, hlive⟩, hbest⟩
        rw [priorities_cons, hl]
        exact hbef
    | some cand =>
      simp only [hl] at h
      rw [priorities_cons, hl]
      split at h
      · rename_i hbeats
        have hbeats' : ∀ b' ∈ best, b'.priority < cand.priority.toNat := by
          intro b' hb'
          rw [Option.mem_def] at hb'
          rw [hb'] at hbeats
          simpa using hbeats
        rcases ih (i + 1) _ h with ⟨hb, hp⟩ | ⟨⟨⟨before, after, hq, hi, hbef, haft⟩, hlive⟩, hbest⟩
        · -- it is this entry
          obtain rfl := Option.some.inj hb
          exact .inr ⟨⟨⟨[], queue, rfl, rfl, (fun p hp' => by cases hp'), hp⟩, ⟨cand, hl, rfl⟩⟩, hbeats'⟩
        · have hlt : cand.priority.toNat < b.priority := hbest _ rfl
          refine .inr ⟨⟨⟨id :: before, after, by rw [hq]; rfl, by rw [hi, List.length_cons]; omega, ?_, haft⟩, hlive⟩, ?_⟩
          · intro p hp
            rw [priorities_cons, hl] at hp
            rcases List.mem_append.1 hp with hp | hp
            · obtain rfl : p = cand.priority.toNat := by simpa using hp
              exact hlt
            · exact hbef p hp
          · intro b' hb'
            exact Nat.lt_trans (hbeats' b' hb') hlt
      · rename_i hbeats
        obtain ⟨b₀, hb₀, hle⟩ : ∃ b₀, best = some b₀ ∧ cand.priority.toNat ≤ b₀.priority := by
          cases hbest : best with
          | none => rw [hbest] at hbeats; exact absurd rfl hbeats
          | some b₀ =>
            rw [hbest] at hbeats
            exact ⟨b₀, rfl, by simpa using hbeats⟩
        rcases ih (i + 1) best h with ⟨hb, hp⟩ | ⟨⟨⟨before, after, hq, hi, hbef, haft⟩, hlive⟩, hbest⟩
        · refine .inl ⟨hb, ?_⟩
          obtain rfl := Option.some.inj (hb₀.symm.trans hb)
          intro p hp'
          rcases List.mem_append.1 hp' with hp' | hp'
          · obtain rfl : p = cand.priority.toNat := by simpa using hp'
            exact hle
          · exact hp p hp'
        · refine .inr ⟨⟨⟨id :: before, after, by rw [hq]; rfl, by rw [hi, List.length_cons]; omega, ?_, haft⟩, hlive⟩, hbest⟩
          intro p hp
          rw [priorities_cons, hl] at hp
          rcases List.mem_append.1 hp with hp | hp
          · obtain rfl : p = cand.priority.toNat := by simpa using hp
            exact Nat.lt_of_le_of_lt hle (hbest b₀ hb₀)
          · exact hbef p hp

/-- What the whole scan picks. -/
theorem pick_picked {operations : List (Nat × Operation)} {queue : List Nat} {b : Best}
    (h : pick operations queue 0 none = some b) : Picked operations queue 0 b := by
  rcases pick_spec operations queue 0 none h with ⟨hb, -⟩ | ⟨hp, -⟩
  · cases hb
  · exact hp

/-- The scan finds nothing only if nothing is live. -/
theorem pick_eq_none {operations : List (Nat × Operation)} {queue : List Nat} {i : Nat} {best : Option Best}
    (h : pick operations queue i best = none) : best = none ∧ ∀ id ∈ queue, live operations id = none := by
  induction queue generalizing i best with
  | nil => exact ⟨h, fun id hm => by cases hm⟩
  | cons id queue ih =>
    rw [pick] at h
    cases hl : live operations id with
    | none =>
      simp only [hl] at h
      obtain ⟨hb, hq⟩ := ih h
      refine ⟨hb, ?_⟩
      intro id' hm
      rcases List.mem_cons.1 hm with rfl | hm
      · exact hl
      · exact hq id' hm
    | some cand =>
      simp only [hl] at h
      split at h
      · cases (ih h).1
      · rename_i hbeats
        rw [(ih h).1] at hbeats
        exact absurd rfl hbeats

/-! ## Calls -/

/-- Hand the operation to the thread pool. -/
def start (s : State) (id : Nat) (ghost : Start) : State :=
  { s with
    operations := modify s.operations id fun op => { op with state := .running }
    runningCount := s.runningCount + 1
    workers := s.workers ++ [⟨id, none⟩]
    signals := s.signals ++ [.operationStarted id]
    starts := s.starts ++ [ghost] }

/-- The new operation in the map. -/
def accept (s : State) (priority : OperationPriority) (timeoutMs : Int) : State :=
  { s with
    nextId := s.nextId + 1
    operations := (s.nextId, ⟨priority, .pending, timeoutMs, ⟨false, [], ""⟩, false⟩) :: s.operations }

/-- It is started or queued.
mirrors apps/ecat-studio/services/AsyncOperationManager.cpp:22-73 -/
def startOrQueue (s : State) (priority : OperationPriority) (timeoutMs : Int) : State :=
  if s.runningCount < s.maxConcurrent then
    start (accept s priority timeoutMs) s.nextId
      ⟨s.nextId, priority.toNat, priorities s.operations s.queue, []⟩
  else { accept s priority timeoutMs with queue := s.queue ++ [s.nextId] }

/-- mirrors apps/ecat-studio/services/AsyncOperationManager.cpp:22-83 -/
def execute (s : State) (priority : OperationPriority) (timeoutMs : Int) : State :=
  let s' := startOrQueue s priority timeoutMs
  if timeoutMs > 0 then { s' with timers := s'.timers ++ [s.nextId] } else s'

theorem execute_eq (s : State) (priority : OperationPriority) (timeoutMs : Int) :
    ∃ timers, execute s priority timeoutMs = { startOrQueue s priority timeoutMs with timers := timers } := by
  unfold execute
  dsimp only
  split
  · exact ⟨_, rfl⟩
  · exact ⟨(startOrQueue s priority timeoutMs).timers, rfl⟩

/-- mirrors apps/ecat-studio/services/AsyncOperationManager.cpp:85-111 -/
def cancel (s : State) (id : Nat) : State :=
  match s.operations.lookup id with
  | none => s
  | some op =>
    match op.state with
    | .pending => { s with operations := remove s.operations id, queue := s.queue.filter (· != id) }
    | .running =>
      { s with operations := modify s.operations id fun op => { op with cancelled := true, state := .cancelled } }
    | _ => { s with operations := modify s.operations id fun op => { op with cancelled := true } }

/-- mirrors apps/ecat-studio/services/AsyncOperationManager.cpp:135-140 -/
def mark (op : Operation) : Operation :=
  if op.state = .pending ∨ op.state = .running then { op with cancelled := true, state := .cancelled } else op

/-- mirrors apps/ecat-studio/services/AsyncOperationManager.cpp:131-153 -/
def cancelAll (s : State) : State :=
  let toRemove := s.operations.filterMap fun e =>
    if e.2.state ≠ .running ∧ (mark e.2).state = .cancelled then some e.1 else none
  { s with
    operations := (s.operations.map fun e => (e.1, mark e.2)).filter fun e => !toRemove.contains e.1
    queue := [] }

/-- One pass of the loop.
mirrors apps/ecat-studio/services/AsyncOperationManager.cpp:155-221 -/
def processQueue (s : State) : State :=
  if s.runningCount < s.maxConcurrent ∧ s.queue ≠ [] then
    match pick s.operations s.queue 0 none with
    | none => { s with queue := [], stack := s.stack.tail }
    | some best =>
      let ghost : Start :=
        ⟨best.id, best.priority, priorities s.operations (s.queue.take best.index),
          priorities s.operations (s.queue.drop (best.index + 1))⟩
      let s := { s with queue := s.queue.eraseIdx best.index }
      match live s.operations best.id with
      | none => s
      | some _ =>
        let s := start s best.id ghost
        { s with stack := .slots :: s.stack }
  else { s with stack := s.stack.tail }

/-- mirrors apps/ecat-studio/services/AsyncOperationManager.cpp:223-253 -/
def onOperationFinished (s : State) (id : Nat) (result : OperationResult) : State :=
  match s.operations.lookup id with
  | none => s
  | some op =>
    let finalState : OperationState :=
      if op.state = .cancelled then .cancelled else if result.success then .completed else .failed
    { s with
      operations := modify s.operations id fun op => { op with result := result, state := finalState }
      runningCount := s.runningCount - 1
      signals := s.signals ++
        [match finalState with
          | .cancelled => .operationFailed id "Cancelled"
          | .completed => .operationCompleted id result
          | _ => .operationFailed id result.error]
      stack := .slots :: .finished id :: s.stack }

/-- The eviction of the oldest finished operations.
mirrors apps/ecat-studio/services/AsyncOperationManager.cpp:262-269 -/
def evict (operations : List (Nat × Operation)) : List Nat → List (Nat × Operation) × List Nat
  | [] => (operations, [])
  | victim :: finishedOrder =>
    if kMaxRetainedOperations < operations.length then evict (remove operations victim) finishedOrder
    else (operations, victim :: finishedOrder)

/-- mirrors apps/ecat-studio/services/AsyncOperationManager.cpp:255-272, up to
the loop of `processQueue` -/
def retain (s : State) (id : Nat) (stack : List Frame) : State :=
  let (operations, finishedOrder) := evict s.operations (s.finishedOrder ++ [id])
  { s with operations, finishedOrder, stack := .process :: stack }

/-! ## Steps -/

inductive Lbl where
  | execute (priority : OperationPriority) (timeoutMs : Int)
  | cancel (id : Nat)
  | timeout (id : Nat)
  | cancelAll
  /-- the event loop makes the call a worker has queued -/
  | deliver (id : Nat)
  /-- a worker's function returns or throws; `flag` is what it reads of
  `cancelled` if the operation is gone -/
  | work (id : Nat) (outcome : Except String QJsonObject) (flag : Bool)
  /-- the connected code returns -/
  | ret
  /-- the call on top of the stack goes on -/
  | tick

/-- mirrors apps/ecat-studio/services/AsyncOperationManager.cpp:46-65 -/
def workerResult (outcome : Except String QJsonObject) (cancelled : Bool) : OperationResult :=
  match outcome with
  | .ok data => if cancelled then ⟨false, [], "Cancelled"⟩ else ⟨true, data, ""⟩
  | .error what => ⟨false, [], what⟩

def work (s : State) (id : Nat) (outcome : Except String QJsonObject) (flag : Bool) : State :=
  let cancelled := ((s.operations.lookup id).map (·.cancelled)).getD flag
  { s with
    workers := s.workers.map fun w =>
      if w.id = id ∧ w.posted.isNone then { w with posted := some (workerResult outcome cancelled) } else w }

def deliver (s : State) (id : Nat) : State :=
  match (s.workers.find? fun w => w.id == id).bind (·.posted) with
  | none => s
  | some result => onOperationFinished { s with workers := s.workers.filter fun w => w.id != id } id result

/-- The event loop runs: connected code does, or no call of the manager. -/
def callable (s : State) : Bool :=
  match s.stack with
  | [] | .slots :: _ => true
  | _ => false

/-- One step; a label that is not enabled changes nothing. -/
def step (s : State) : Lbl → State
  | .execute priority timeoutMs => execute s priority timeoutMs
  | .cancel id => cancel s id
  | .timeout id =>
    if callable s ∧ id ∈ s.timers then cancel { s with timers := s.timers.filter (· != id) } id else s
  | .cancelAll => cancelAll s
  | .deliver id => if callable s then deliver s id else s
  | .work id outcome flag => work s id outcome flag
  | .ret =>
    match s.stack with
    | .slots :: stack => { s with stack }
    | _ => s
  | .tick =>
    match s.stack with
    | .finished id :: stack => retain s id stack
    | .process :: _ => processQueue s
    | _ => s

end NekoEcat.L4.AsyncOperation
