import NekoEcat.L4Gui.EcatClient

/-!
# The connection of `EcatClient`: socket, timers, heartbeat

The same client as in `EcatClient`, seen from its connection: the socket's
state, the connection state, the two failure counters, and every timer with
the time it is due. Here an event runs to its end before the next one begins;
none of the slots the GUI connects to these signals calls back into the entry
points below.

The socket behaves as `QTcpSocket` does: `connectToHost` on a socket that is
not unconnected changes nothing and reports `errorOccurred`, `abort` on one
that is not emits `disconnected`. Timers run on the clock `elapsed`, request
timestamps are taken from `now`, which may jump. A timer may fire at any time
from when it is due. Of the handlers only the heartbeat's matters; what the
others send is a `send` of its own. `dials`, `connection`, `checked` are
ghosts.

* `attemptReconnect`, `connectTimeout`, `disconnectedSlot`, `errorSlot`: who
  changes the state and counts.
* `heartbeatTick`, `check`, `sweepTimedOutRequests`: who decides that the
  daemon is silent.
* `step_timer`, `timer_rule`: what a timer's label does.
-/
namespace NekoEcat.L4.Connection
open NekoEcat.L4.EcatClient (ConnectionState number)

inductive SocketState where
  | unconnected
  | connecting
  | connected
  deriving DecidableEq, Repr

inductive SocketError where
  | connectionRefused
  | socketTimeout
  | other (errorString : String)
  deriving DecidableEq, Repr

/-- The signals of the connection.
mirrors apps/ecat-studio/infra/EcatClient.h:426-437 -/
inductive Signal where
  | connected
  | connectionStateChanged (state : ConnectionState)
  | disconnected
  | connectionLost
  | errorMessage (message : String)
  | reconnecting (attempt : Nat) (intervalMs : Nat)
  | reconnected
  | reconnectFailed (maxAttempts : Nat)
  deriving DecidableEq, Repr

inductive Handler where
  /-- the lambda of the heartbeat's `ping` -/
  | heartbeat
  | other
  deriving DecidableEq, Repr

/-- A call of the socket's `connectToHost`, with the state it found. -/
structure Dial where
  found : SocketState
  host : String
  port : UInt16
  deriving DecidableEq, Repr

structure State where
  socket : SocketState
  connectionState : ConnectionState
  host : String
  port : UInt16
  autoReconnectEnabled : Bool
  consecutiveFailures : Nat
  connectFailures : Nat
  pendingPing : Bool
  reconnectIntervalMs : Nat
  /-- the timers: when each is due, if it is active -/
  connectTimeoutTimer : Option Nat
  reconnectTimer : Option Nat
  requestSweepTimer : Option Nat
  heartbeatTimer : Option Nat
  /-- the 5 s single shots of `attemptReconnect` -/
  rearms : List Nat
  /-- the 3.5 s single shots of the heartbeat, with the connection they were
  started on -/
  checks : List (Nat × Nat)
  nextId : Nat
  handlers : List (Nat × Handler)
  requestTimestamps : List (Nat × Int)
  requestTimeoutMs : Int
  elapsed : Nat
  now : Int
  signals : List Signal
  dials : List Dial
  /-- connections made so far -/
  connection : Nat
  /-- checks of this connection that have fired -/
  checked : Nat

/-- mirrors apps/ecat-studio/infra/EcatClient.h:504-536 -/
def initial (now : Int) : State where
  socket := .unconnected
  connectionState := .disconnected
  host := "127.0.0.1"
  port := 5877
  autoReconnectEnabled := true
  consecutiveFailures := 0
  connectFailures := 0
  pendingPing := false
  reconnectIntervalMs := 2000
  connectTimeoutTimer := none
  reconnectTimer := none
  requestSweepTimer := none
  heartbeatTimer := none
  rearms := []
  checks := []
  nextId := 1
  handlers := []
  requestTimestamps := []
  requestTimeoutMs := 10000
  elapsed := 0
  now := now
  signals := []
  dials := []
  connection := 0
  checked := 0

def kMaxReconnectMs : Nat := 30000
def kMaxConsecutiveFailures : Nat := 3
def kMaxConnectAttempts : Nat := 3
def kConnectTimeoutMs : Nat := 10000

def emitSignal (s : State) (sig : Signal) : State := { s with signals := s.signals ++ [sig] }

/-- mirrors apps/ecat-studio/infra/EcatClient.cpp:122-127 -/
def setConnectionState (s : State) (state : ConnectionState) : State :=
  if s.connectionState = state then s
  else emitSignal { s with connectionState := state } (.connectionStateChanged state)

/-- mirrors apps/ecat-studio/infra/EcatClient.cpp:764-772 -/
def scheduleReconnect (s : State) : State :=
  if !s.autoReconnectEnabled then s
  else if s.reconnectTimer.isSome then s
  else { s with reconnectTimer := some (s.elapsed + s.reconnectIntervalMs) }

/-! ## Requests -/

/-- mirrors apps/ecat-studio/infra/EcatClient.cpp:720-724, the heartbeat's -/
def runHandler (s : State) : Handler → State
  | .heartbeat => { s with pendingPing := false, consecutiveFailures := 0 }
  | .other => s

/-- mirrors apps/ecat-studio/infra/EcatClient.cpp:398-419 -/
def send (s : State) (handler : Handler) : State :=
  if s.connectionState = .connected then
    { s with
      nextId := s.nextId + 1
      handlers := (s.nextId, handler) :: s.handlers
      requestTimestamps := (s.nextId, s.now) :: s.requestTimestamps }
  else runHandler (emitSignal s (.errorMessage "ecatd is not connected")) handler

/-- `handlers_.take(id); requestTimestamps_.remove(id)` -/
def take (s : State) (id : Nat) : State :=
  { s with
    handlers := s.handlers.filter fun h => h.1 != id
    requestTimestamps := s.requestTimestamps.filter fun t => t.1 != id }

/-- The handler taken for `id` runs, if there is one. -/
def takeAndRun (s : State) (id : Nat) : State :=
  match s.handlers.lookup id with
  | some handler => runHandler (take s id) handler
  | none => take s id

/-- A response for `id`.
mirrors apps/ecat-studio/infra/EcatClient.cpp:424-454 -/
def handleLine (s : State) (id : Nat) (ok : Bool) (message : String) : State :=
  takeAndRun (if ok then s else emitSignal s (.errorMessage ("[" ++ number id ++ "] " ++ message))) id

/-- The ids that have timed out. -/
def timedOut (s : State) : List Nat :=
  (s.requestTimestamps.filter fun t => s.now - t.2 > s.requestTimeoutMs).map (·.1)

/-- The body of the sweep's loop. -/
def evict (s : State) (id : Nat) : State :=
  let errorMsg := "Request " ++ number id ++ " timed out after " ++ toString s.requestTimeoutMs ++ "ms"
  takeAndRun (emitSignal s (.errorMessage errorMsg)) id

/-- mirrors apps/ecat-studio/infra/EcatClient.cpp:457-484 -/
def sweepTimedOutRequests (s : State) : State := (timedOut s).foldl evict s

/-- mirrors apps/ecat-studio/infra/EcatClient.cpp:487-489 -/
def setRequestTimeout (s : State) (ms : Int) : State :=
  { s with requestTimeoutMs := if ms > 0 then ms else 10000 }

/-! ## The socket's slots -/

/-- mirrors apps/ecat-studio/infra/EcatClient.cpp:710-760, less the lambdas -/
def setupAutoReconnect (s : State) : State :=
  { s with heartbeatTimer := some (s.elapsed + 5000), consecutiveFailures := 0, reconnectIntervalMs := 2000 }

/-- mirrors apps/ecat-studio/infra/EcatClient.cpp:18-32 -/
def connectedSlot (s : State) : State :=
  let s := setConnectionState { s with connectTimeoutTimer := none } .connected
  let s := emitSignal
    (emitSignal
      { s with
        consecutiveFailures := 0
        connectFailures := 0
        pendingPing := false
        reconnectIntervalMs := 2000
        requestSweepTimer := some (s.elapsed + 2000)
        connection := s.connection + 1
        checked := 0 }
      .connected) .reconnected
  if s.autoReconnectEnabled then setupAutoReconnect s else s

/-- The handlers swapped out of `handlers_` run, each with the failure. -/
def flush (s : State) : State :=
  (s.handlers.map (·.2)).foldl runHandler { s with handlers := [], requestTimestamps := [] }

/-- mirrors apps/ecat-studio/infra/EcatClient.cpp:33-53 -/
def disconnectedSlot (s : State) : State :=
  let s := flush (setConnectionState s .disconnected)
  scheduleReconnect { emitSignal (emitSignal s .disconnected) .connectionLost with requestSweepTimer := none }

/-- `connectionState_` says that a connect is being attempted. -/
def attempting (s : State) : Bool :=
  s.connectionState == .connecting || s.connectionState == .reconnecting

/-- `reconnectFailed` or the next attempt.
mirrors apps/ecat-studio/infra/EcatClient.cpp:84-90,153-157 -/
def failOrSchedule (s : State) : State :=
  if kMaxConnectAttempts ≤ s.connectFailures then emitSignal s (.reconnectFailed kMaxConnectAttempts)
  else scheduleReconnect s

/-- mirrors apps/ecat-studio/infra/EcatClient.cpp:55-92 -/
def errorSlot (s : State) (error : SocketError) : State :=
  let s := { s with connectTimeoutTimer := none }
  let connectAttemptFailed := attempting s
  let s :=
    if connectAttemptFailed && s.connectionState != .disconnected then
      { s with connectFailures := s.connectFailures + 1 }
    else s
  let s := emitSignal s <| .errorMessage <|
    match error with
    | .connectionRefused => "Connection refused (attempt " ++ number s.connectFailures ++ ")"
    | .socketTimeout => "Connection timed out"
    | .other errorString => errorString
  if connectAttemptFailed then failOrSchedule (setConnectionState s .disconnected) else s

/-- `QTcpSocket::connectToHost(host_, port_)` -/
def socketConnectToHost (s : State) : State :=
  let s := { s with dials := s.dials ++ [Dial.mk s.socket s.host s.port] }
  match s.socket with
  | .unconnected => { s with socket := .connecting }
  | _ => errorSlot s (.other "Trying to connect while connection is in progress")

/-- `QTcpSocket::abort()` -/
def abort (s : State) : State :=
  match s.socket with
  | .unconnected => s
  | _ => disconnectedSlot { s with socket := .unconnected }

/-! ## Entry points -/

/-- mirrors apps/ecat-studio/infra/EcatClient.cpp:161 -/
def setupConnectTimeout (s : State) : State := { s with connectTimeoutTimer := some (s.elapsed + kConnectTimeoutMs) }

/-- mirrors apps/ecat-studio/infra/EcatClient.cpp:107-114 -/
def connectToDaemon (s : State) : State :=
  if s.connectionState = .connected ∨ s.connectionState = .connecting then s
  else socketConnectToHost (setupConnectTimeout (setConnectionState s .connecting))

/-- mirrors apps/ecat-studio/infra/EcatClient.cpp:130-140 -/
def connectToHost (s : State) (address : String) (port : UInt16) : State :=
  if s.connectionState = .connected ∨ s.connectionState = .connecting then s
  else socketConnectToHost (setupConnectTimeout (setConnectionState { s with host := address, port := port } .connecting))

/-- mirrors apps/ecat-studio/infra/EcatClient.cpp:691-703 -/
def enableAutoReconnect (s : State) (enable : Bool) : State :=
  let s := { s with autoReconnectEnabled := enable }
  if !enable then
    { s with reconnectTimer := none, heartbeatTimer := none, consecutiveFailures := 0, connectFailures := 0 }
  else if s.connectionState = .connected then setupAutoReconnect s
  else s

/-! ## The timers' slots -/

/-- mirrors apps/ecat-studio/infra/EcatClient.cpp:147-159 -/
def connectTimeout (s : State) : State :=
  if attempting s then
    let s := setConnectionState (abort s) .disconnected
    failOrSchedule
      (emitSignal { s with connectFailures := s.connectFailures + 1 }
        (.errorMessage ("Connection timed out after " ++ number kConnectTimeoutMs ++ "ms")))
  else s

/-- mirrors apps/ecat-studio/infra/EcatClient.cpp:775-803 -/
def attemptReconnect (s : State) : State :=
  if !s.autoReconnectEnabled then s
  else if s.connectionState = .connected then s
  else if kMaxConnectAttempts ≤ s.connectFailures then emitSignal s (.reconnectFailed kMaxConnectAttempts)
  else
    let s := setConnectionState (emitSignal s (.reconnecting (s.connectFailures + 1) s.reconnectIntervalMs)) .reconnecting
    let s := socketConnectToHost (setupConnectTimeout s)
    { s with rearms := s.rearms ++ [s.elapsed + 5000] }

/-- mirrors apps/ecat-studio/infra/EcatClient.cpp:795-802 -/
def rearm (s : State) : State :=
  if s.connectionState ≠ .connected ∧ s.autoReconnectEnabled = true ∧ s.connectFailures < kMaxConnectAttempts then
    scheduleReconnect { s with reconnectIntervalMs := min (s.reconnectIntervalMs * 2) kMaxReconnectMs }
  else s

/-- mirrors apps/ecat-studio/infra/EcatClient.cpp:714-726 -/
def heartbeatTick (s : State) : State :=
  if s.connectionState ≠ .connected then s
  else if s.pendingPing then s
  else
    let s := send { s with pendingPing := true } .heartbeat
    { s with checks := s.checks ++ [(s.elapsed + 3500, s.connection)] }

/-- mirrors apps/ecat-studio/infra/EcatClient.cpp:726-746 -/
def check (s : State) : State :=
  if s.connectionState ≠ .connected then s
  else if s.pendingPing then
    let s := { s with pendingPing := false, consecutiveFailures := s.consecutiveFailures + 1 }
    if kMaxConsecutiveFailures ≤ s.consecutiveFailures then
      scheduleReconnect (abort (setConnectionState s .disconnected))
    else s
  else s

/-! ## Events -/

inductive Lbl where
  | connectToDaemon
  | connectToHost (address : String) (port : UInt16)
  | enableAutoReconnect (enable : Bool)
  | setRequestTimeout (ms : Int)
  /-- a request of any other method -/
  | send
  | socketConnected
  | socketError (error : SocketError)
  | socketDisconnected
  /-- a response, `ok: true` or not -/
  | response (id : Nat) (ok : Bool) (message : String)
  | connectTimeout
  | reconnectTimeout
  | rearm (i : Nat)
  | heartbeatTick
  | check (i : Nat)
  | sweep
  /-- the clocks go on -/
  | time (ms : Nat) (now : Int)
  deriving Repr

/-- When a periodic timer that fires is due again. -/
def next (due interval elapsed : Nat) : Nat :=
  if due + interval < elapsed then elapsed + interval else due + interval

/-- When the timer a label fires was due, if the timer is active. -/
def due (s : State) : Lbl → Option Nat
  | .connectTimeout => s.connectTimeoutTimer
  | .reconnectTimeout => s.reconnectTimer
  | .rearm i => s.rearms[i]?
  | .heartbeatTick => s.heartbeatTimer
  | .check i => s.checks[i]?.map (·.1)
  | .sweep => s.requestSweepTimer
  | _ => none

/-- The slot of a timer that was due at `d`. -/
def fire (s : State) (d : Nat) : Lbl → State
  | .connectTimeout => connectTimeout { s with connectTimeoutTimer := none }
  | .reconnectTimeout => attemptReconnect { s with reconnectTimer := none }
  | .rearm i => rearm { s with rearms := s.rearms.eraseIdx i }
  | .heartbeatTick => heartbeatTick { s with heartbeatTimer := some (next d 5000 s.elapsed) }
  | .check i =>
    let own := s.checks[i]?.any fun c => c.2 == s.connection
    check { s with checks := s.checks.eraseIdx i, checked := if own then s.checked + 1 else s.checked }
  | .sweep => sweepTimedOutRequests { s with requestSweepTimer := some (next d 2000 s.elapsed) }
  | _ => s

/-- One event; one that cannot happen changes nothing. -/
def step (s : State) (l : Lbl) : State :=
  match l with
  | .connectToDaemon => connectToDaemon s
  | .connectToHost address port => connectToHost s address port
  | .enableAutoReconnect enable => enableAutoReconnect s enable
  | .setRequestTimeout ms => setRequestTimeout s ms
  | .send => send s .other
  | .socketConnected =>
    if s.socket = .connecting then connectedSlot { s with socket := .connected } else s
  -- a failed attempt; on an established connection `disconnected` follows
  | .socketError error =>
    match s.socket with
    | .unconnected => s
    | .connecting => errorSlot { s with socket := .unconnected } error
    | .connected => errorSlot s error
  | .socketDisconnected =>
    if s.socket = .connected then disconnectedSlot { s with socket := .unconnected } else s
  | .response id ok message => if s.socket = .connected then handleLine s id ok message else s
  | .time ms now => { s with elapsed := s.elapsed + ms, now := now }
  | l =>
    match due s l with
    | some d => if d ≤ s.elapsed then fire s d l else s
    | none => s

/-! ## Firing -/

def isTimer : Lbl → Bool
  | .connectTimeout | .reconnectTimeout | .rearm _ | .heartbeatTick | .check _ | .sweep => true
  | _ => false

/-- The label fires an active timer that is due. -/
def Fires (s : State) (l : Lbl) : Prop := ∃ d, due s l = some d ∧ d ≤ s.elapsed

/-- **A timer** runs its slot, or nothing happens. -/
theorem step_timer (s : State) {l : Lbl} (hl : isTimer l = true) :
    (∃ d, due s l = some d ∧ d ≤ s.elapsed ∧ step s l = fire s d l) ∨ ¬ Fires s l ∧ step s l = s := by
  have hstep : step s l =
      match due s l with
      | some d => if d ≤ s.elapsed then fire s d l else s
      | none => s := by
    cases l <;> first | rfl | cases hl
  rw [hstep]
  cases hd : due s l with
  | none =>
    right
    refine ⟨?_, rfl⟩
    rintro ⟨d, hd', -⟩
    rw [hd] at hd'
    cases hd'
  | some d =>
    by_cases hle : d ≤ s.elapsed
    · exact .inl ⟨d, rfl, hle, if_pos hle⟩
    · right
      refine ⟨?_, if_neg hle⟩
      rintro ⟨d', hd', hle'⟩
      rw [hd] at hd'
      exact hle (Option.some.inj hd' ▸ hle')

/-- **The rule for timers**: what holds if nothing happens and after the slot of
a timer that is due holds after the timer's label. -/
theorem timer_rule {s : State} {l : Lbl} (hl : isTimer l = true) {P : State → Prop} (idle : P s)
    (fires : ∀ d, due s l = some d → d ≤ s.elapsed → P (fire s d l)) : P (step s l) := by
  rcases step_timer s hl with ⟨d, hd, hle, he⟩ | ⟨-, he⟩
  · rw [he]
    exact fires d hd hle
  · rw [he]
    exact idle

end NekoEcat.L4.Connection
