import NekoEcat.Core.QString

/-!
# `EcatClient`: requests, handlers and re-entrant slots

The GUI's client as a machine with an explicit call stack. A C++ call that
emits a signal or runs a handler is suspended while foreign code runs, and
that code may call any public method again, or spin an event loop in which
the socket and the timers fire. So a frame of the stack holds what is left of
one call, `slots` on top of it stands for the code connected to a signal, and
every operation is open whenever foreign code runs or the stack is empty.

Handlers are values of a type `H` with a `body`: the signals and requests a
handler makes of a result. The hashes are lists of pairs; where the source
walks a `QHash`, the schedule chooses the order. `nextId_` is a `quint64` that
does not wrap. `log`, `emitted` and `refused` are ghosts: the invocations of
handlers, the signals with the invocation they come from, and the number of
sends made while not connected.

* `send`, `handleLine`, `sweepTimedOutRequests`: the calls.
* `execInstr`: the next instruction of the call on top of the stack.
-/
namespace NekoEcat.L4.EcatClient
open NekoEcat.QJson
open NekoEcat.QString (trimmed)

/-- mirrors apps/ecat-studio/infra/EcatClient.h:24-29 -/
inductive ConnectionState where
  | disconnected
  | connecting
  | connected
  | reconnecting
  deriving DecidableEq, Repr

/-- The signals, less those of the reconnect timers; `slavesChanged` carries
the array `slavesFromJson` reads, `foeReadResult` and `foeWriteResult` the
number before its cast to `qint64`.
mirrors apps/ecat-studio/infra/EcatClient.h:426-491 -/
inductive Signal where
  | connected
  | connectionStateChanged (state : ConnectionState)
  | disconnected
  | connectionLost
  | errorMessage (message : String)
  | reconnected
  | daemonInfo (text : String)
  | hostDiagnosticsReady (checks : List QJsonValue)
  | masterText (text : String)
  | slavesChanged (slaves : List QJsonValue)
  | slaveTextResult (title : String) (position : Int) (text : String)
  | sdoValue (position : Int) (index subIndex value : String)
  | startupSdoResults (results : List QJsonValue)
  | commandSucceeded (message : String)
  | freeRunChanged (running : Bool) (status : String)
  | freeRunTelemetry (telemetry : QJsonObject)
  | rtTestTelemetry (telemetry : QJsonObject)
  | dcSyncStatusResult (data : QJsonObject)
  | dcConfigureResult (data : QJsonObject)
  | dcActivateResult (data : QJsonObject)
  | dcDeactivateResult (data : QJsonObject)
  | alEventLogResult (data : QJsonObject)
  | adaptersListResult (data : QJsonObject)
  | backendModeChanged (backend mode : String)
  | foeReadResult (position : Int) (filePath : String) (fileSize : QJsonValue)
  | foeWriteResult (position : Int) (bytesWritten : QJsonValue)
  | soeReadResult (position : Int) (idn value : String)
  | soeWriteResult (position : Int) (idn : String)
  | eoeStatusResult (position : Int) (data : QJsonObject)
  | eoeIpConfigured (position : Int) (ip : String)
  | eoeIpResult (position : Int) (data : QJsonObject)
  | eoeStatsResult (position : Int) (data : QJsonObject)
  | redundancyStatusResult (data : QJsonObject)
  | redundancyCommandResult (command : String) (success : Bool) (message : String)
  | redundancyHistoryResult (data : QJsonObject)
  | onlineChangePreviewResult (data : QJsonObject)
  | onlineChangeApplyResult (data : QJsonObject)
  | onlineChangeStatusResult (data : QJsonObject)
  deriving Repr

/-- Why a handler runs. -/
inductive Cause where
  /-- the daemon answered `ok: true` -/
  | ok
  /-- the daemon answered, but not `ok: true` -/
  | rejected
  | timeout
  | notConnected
  | connectionLost
  deriving DecidableEq, Repr

/-- A request: by its id, or by its number among those made while not
connected. -/
inductive Key where
  | accepted (id : String)
  | refused (n : Nat)
  deriving DecidableEq, Repr

structure Invocation (H : Type) where
  key : Key
  cause : Cause
  handler : H
  result : QJsonObject

/-- What a handler does. -/
inductive Act (H : Type) where
  | emit (sig : Signal)
  | send (method : String) (params : QJsonObject) (handler : H)

/-- What is left to do in a suspended call. -/
inductive Instr (H : Type) where
  | emit (sig : Signal)
  | setConnectionState (state : ConnectionState)
  | send (method : String) (params : QJsonObject) (handler : H)
  | invoke (inv : Invocation H)
  /-- the loop over the ids that timed out -/
  | sweep (timedOut : List String)
  /-- `pending.swap(handlers_); requestTimestamps_.clear()` -/
  | swap
  /-- the loop over the handlers swapped out -/
  | flush (pending : List (String × H))

inductive Frame (H : Type) where
  /-- the code connected to a signal -/
  | slots
  /-- a call of the client, made by this handler invocation if by one -/
  | run (caller : Option (Invocation H)) (todo : List (Instr H))

structure State (H : Type) where
  connectionState : ConnectionState
  nextId : Nat
  masterTarget : String
  requestTimeoutMs : Int
  /-- `QDateTime::currentMSecsSinceEpoch()` -/
  now : Int
  handlers : List (String × H)
  requestTimestamps : List (String × Int)
  /-- the requests written to the socket -/
  wire : List QJsonObject
  stack : List (Frame H)
  refused : Nat
  log : List (Invocation H)
  emitted : List (Option (Invocation H) × Signal)

/-! ## Hashes -/

section
variable {α : Type}

def hashRemove (m : List (String × α)) (k : String) : List (String × α) := m.filter fun e => e.1 != k

def hashInsert (m : List (String × α)) (k : String) (v : α) : List (String × α) := (k, v) :: hashRemove m k

end

/-- `QString::number(n)` -/
def number (n : Nat) : String := String.ofList (Nat.toDigits 10 n)

/-! ## Results -/

/-- The object every failure but a lost connection hands to the handler. -/
def errorResult (message : String) (code : Int) : QJsonObject :=
  ofList [("error", .bool true), ("errorMessage", .string message), ("errorCode", .int code)]

/-- mirrors apps/ecat-studio/infra/EcatClient.cpp:38-40 -/
def lostResult : QJsonObject :=
  ofList [("code", .int (-1)), ("message", .string "Connection lost")]

/-- mirrors src/core/JsonProtocol.cpp:14-20 -/
def request (id method : String) (params : QJsonObject) : QJsonObject :=
  ofList [("id", .string id), ("method", .string method), ("params", .object params)]

/-! ## Calls -/

section
variable {H : Type}

def push (s : State H) (todo : List (Instr H)) : State H := { s with stack := .run none todo :: s.stack }

/-- `emit`: the connected code runs now. -/
def emitSignal (s : State H) (caller : Option (Invocation H)) (sig : Signal) : State H :=
  { s with emitted := s.emitted ++ [(caller, sig)], stack := .slots :: s.stack }

/-- mirrors apps/ecat-studio/infra/EcatClient.cpp:398-419 -/
def send (s : State H) (method : String) (params : QJsonObject) (handler : H) : State H :=
  if s.connectionState = .connected then
    let id := number s.nextId
    { s with
      nextId := s.nextId + 1
      handlers := hashInsert s.handlers id handler
      requestTimestamps := hashInsert s.requestTimestamps id s.now
      wire := s.wire ++ [request id method (insert "master" (.string s.masterTarget) params)] }
  else
    push { s with refused := s.refused + 1 }
      [.emit (.errorMessage "ecatd is not connected"),
       .invoke ⟨.refused s.refused, .notConnected, handler, errorResult "ecatd is not connected" (-1)⟩]

/-- `handlers_.take(id); requestTimestamps_.remove(id)`, less the value. -/
def take (s : State H) (id : String) : State H :=
  { s with handlers := hashRemove s.handlers id, requestTimestamps := hashRemove s.requestTimestamps id }

/-- The handler taken for `id`, called if there is one. -/
def invokeTaken (s : State H) (id : String) (cause : Cause) (result : QJsonObject) : List (Instr H) :=
  match s.handlers.lookup id with
  | some handler => [.invoke ⟨.accepted id, cause, handler, result⟩]
  | none => []

/-- `document` is `QJsonDocument::fromJson(line)`, if it is an object.
mirrors apps/ecat-studio/infra/EcatClient.cpp:424-454 -/
def handleLine (s : State H) (document : Option QJsonObject) : State H :=
  match document with
  | none => push s [.emit (.errorMessage "Invalid response from ecatd")]
  | some object =>
    let id := toStringD (value object "id") ""
    if toBool (value object "ok") then
      push (take s id) (invokeTaken s id .ok (toObject (value object "result")))
    else
      let errorObj := toObject (value object "error")
      let errorMsg := toStringD (value errorObj "message") "Unknown runtime error"
      push (take s id)
        (.emit (.errorMessage ("[" ++ id ++ "] " ++ errorMsg)) ::
          invokeTaken s id .rejected (errorResult errorMsg (toIntD (value errorObj "code") (-1))))

/-- mirrors apps/ecat-studio/infra/EcatClient.cpp:457-466 -/
def sweepTimedOutRequests (s : State H) : State H :=
  push s [.sweep ((s.requestTimestamps.filter fun t => s.now - t.2 > s.requestTimeoutMs).map (·.1))]

def kDefaultRequestTimeoutMs : Int := 10000

/-- mirrors apps/ecat-studio/infra/EcatClient.cpp:176-180 -/
def setMasterTarget (s : State H) (target : String) : State H :=
  { s with masterTarget := if trimmed target = "" then "0" else trimmed target }

/-- mirrors apps/ecat-studio/infra/EcatClient.cpp:487-489 -/
def setRequestTimeout (s : State H) (ms : Int) : State H :=
  { s with requestTimeoutMs := if ms > 0 then ms else kDefaultRequestTimeoutMs }

/-- The operations foreign code and the event loop have.
`setConnectionState` stands for the calls that do no more to what is modelled
here: `connectToDaemon`, `connectToHost`, `attemptReconnect`, the connect
timeout, the socket's errors and the heartbeat check. -/
inductive Op (H : Type) where
  | send (method : String) (params : QJsonObject) (handler : H)
  | line (document : Option QJsonObject)
  | sweep
  | socketConnected
  | socketDisconnected
  | setConnectionState (state : ConnectionState)
  | setMasterTarget (target : String)
  | setRequestTimeout (ms : Int)

def call (s : State H) : Op H → State H
  | .send method params handler => send s method params handler
  | .line document => handleLine s document
  | .sweep => sweepTimedOutRequests s
  -- mirrors apps/ecat-studio/infra/EcatClient.cpp:18-32
  | .socketConnected => push s [.setConnectionState .connected, .emit .connected, .emit .reconnected]
  -- mirrors apps/ecat-studio/infra/EcatClient.cpp:33-53
  | .socketDisconnected =>
    push s [.setConnectionState .disconnected, .swap, .emit .disconnected, .emit .connectionLost]
  | .setConnectionState state => push s [.setConnectionState state]
  | .setMasterTarget target => setMasterTarget s target
  | .setRequestTimeout ms => setRequestTimeout s ms

/-! ## Instructions -/

variable (body : H → QJsonObject → List (Act H))

def Act.instr : Act H → Instr H
  | .emit sig => .emit sig
  | .send method params handler => .send method params handler

/-- The handler is called: its body becomes the top of the stack. -/
def invoke (s : State H) (inv : Invocation H) : State H :=
  { s with
    log := s.log ++ [inv]
    stack := .run (some inv) ((body inv.handler inv.result).map Act.instr) :: s.stack }

/-- The instruction `instr` of the call on top of the stack, `rest` being what
follows it there; `i` chooses the element where the source walks a hash. -/
def execInstr (s : State H) (caller : Option (Invocation H)) (instr : Instr H) (rest : List (Instr H))
    (stack : List (Frame H)) (i : Nat) : State H :=
  let next (todo : List (Instr H)) : State H := { s with stack := .run caller (todo ++ rest) :: stack }
  match instr with
  | .emit sig => emitSignal (next []) caller sig
  -- mirrors apps/ecat-studio/infra/EcatClient.cpp:122-127
  | .setConnectionState state =>
    if s.connectionState = state then next []
    else emitSignal { next [] with connectionState := state } caller (.connectionStateChanged state)
  | .send method params handler => send (next []) method params handler
  | .invoke inv => invoke body (next []) inv
  -- mirrors apps/ecat-studio/infra/EcatClient.cpp:468-483
  | .sweep timedOut =>
    match timedOut[i]? with
    | some id =>
      let errorMsg := "Request " ++ id ++ " timed out after " ++ toString s.requestTimeoutMs ++ "ms"
      take (next (.emit (.errorMessage errorMsg) :: invokeTaken s id .timeout (errorResult errorMsg (-1)) ++
        [.sweep (timedOut.eraseIdx i)])) id
    | none => if timedOut.isEmpty then next [] else s
  | .swap => { next [.flush s.handlers] with handlers := [], requestTimestamps := [] }
  -- mirrors apps/ecat-studio/infra/EcatClient.cpp:41-43
  | .flush pending =>
    match pending[i]? with
    | some (id, handler) =>
      invoke body (next [.flush (pending.eraseIdx i)]) ⟨.accepted id, .connectionLost, handler, lostResult⟩
    | none => if pending.isEmpty then next [] else s

inductive Lbl (H : Type) where
  /-- foreign code or the event loop makes a call -/
  | call (op : Op H)
  /-- the code connected to a signal returns -/
  | ret
  /-- the call on top of the stack goes on -/
  | tick (i : Nat)
  | time (now : Int)

/-- One step; a label that is not enabled changes nothing. -/
def step (s : State H) : Lbl H → State H
  | .call op =>
    match s.stack with
    | [] => call s op
    | .slots :: _ => call s op
    | .run .. :: _ => s
  | .ret =>
    match s.stack with
    | .slots :: stack => { s with stack := stack }
    | _ => s
  | .tick i =>
    match s.stack with
    | .run _ [] :: stack => { s with stack := stack }
    | .run caller (instr :: rest) :: stack => execInstr body s caller instr rest stack i
    | _ => s
  | .time now => { s with now := now }

/-- A client just constructed. -/
def initial (now : Int) : State H where
  connectionState := .disconnected
  nextId := 1
  masterTarget := "0"
  requestTimeoutMs := kDefaultRequestTimeoutMs
  now := now
  handlers := []
  requestTimestamps := []
  wire := []
  stack := []
  refused := 0
  log := []
  emitted := []

end

end NekoEcat.L4.EcatClient
