import NekoEcat.Core.Regex
import NekoEcat.L4Gui.SdoReadBack
import NekoEcat.L4Gui.SdoValidation

/-!
# The bookkeeping of SDO writes

A manual write is entered in `pendingSdoWrites_` under the key of its object and
sent. Its acknowledgement reaches the window as a log message: the object is
read off the text, the entry is moved to `pendingSdoVerifications_` and the
object is read back. The next value of the object takes the entry out and
judges it. A lost connection fails what is left in both maps.

The requests of the window are the `Rpc`s of the client; an event hands a result
to the closure of one of them, and the signals the closure emits run the code
connected to them. What the window shows, and the records of reads, are left
out.
-/
namespace NekoEcat.L4.SdoWrites
open NekoEcat.QJson NekoEcat.QNumber NekoEcat.QString NekoEcat.Regex NekoEcat.L4.EcatClient

/-! ## Objects -/

/-- mirrors apps/ecat-studio/utils/TextHelpers.cpp:7-22 -/
def normalizeHexText (text : List Char) (minimumDigits : Nat) : List Char :=
  let text := trim text
  if text.isEmpty then text
  else
    let digits := if startsWith0x text then text.drop 2 else text
    match toULongLong 16 digits with
    | none => lower text
    | some parsed =>
      let ds := Nat.toDigits 16 parsed
      lower ("0x".toList ++ (List.replicate (minimumDigits - ds.length) '0' ++ ds))

/-- mirrors apps/ecat-studio/models/SdoEvidenceModel.cpp:7-9 -/
def sdoEvidenceKey (position : Int) (index subIndex : String) : String :=
  QString.number position ++ "|" ++ String.ofList (normalizeHexText index.toList 4) ++ "|" ++
    String.ofList (normalizeHexText subIndex.toList 2)

/-- `\s` and `\d`, which know ASCII only -/
def isBlank (c : Char) : Bool := c.toNat == 32 || (9 ≤ c.toNat && c.toNat ≤ 13)

def isInk (c : Char) : Bool := !isBlank c

/-- `SDO download complete(?:\s+#(\d+))?:\s*(\S+):(\S+)` -/
def completeRe : Re :=
  .seq [.lit "SDO download complete".toList,
    .alt (.seq [.plus isBlank, .lit ['#'], .group (.plus (isDigitOf 10))]) (.lit []),
    .lit [':'], .many isBlank, .group (.plus isInk), .lit [':'], .group (.plus isInk)]

/-! ## State -/

/-- The fields of the editor. -/
structure Editor where
  selectedPosition : Int32
  selectedSdoWritable : Bool
  sdoIndex : String
  sdoSubIndex : String
  sdoType : String
  sdoWriteValue : String

/-- `{position, index, subIndex, type, value}`; `write` is the number of the
write, which the source does not keep. -/
structure Pending where
  write : Option Nat
  position : String
  index : String
  subIndex : String
  type : String
  value : String

/-- The last row of a write in the history. -/
inductive Final where
  | verifiedOk
  | verificationFailed
  | writeFailed
  deriving DecidableEq, Repr

/-- A last row: whose it is, and the value it was judged against. -/
structure Outcome where
  write : Option Nat
  final : Final
  expected : String
  deriving DecidableEq, Repr

/-- A closure of the client that was not called yet; `write` as in `Pending`. -/
structure Request where
  rpc : Rpc
  write : Option Nat

structure Window where
  connected : Bool
  handlers : List Request
  /-- the handlers swapped out when the connection was lost, while they are called -/
  swapped : Option (List Request)
  editor : Editor
  pendingSdoWrites : List (String × Pending)
  pendingSdoVerifications : List (String × Pending)
  /-- the writes requested so far -/
  requested : List Pending
  outcomes : List Outcome

/-! ## Handlers -/

/-- `EcatClient::send`. Without a connection the closure gets an error at once,
and those of uploads and downloads then do nothing (`body_error`). -/
def send (s : Window) (rpc : Rpc) (write : Option Nat) : Window :=
  if s.connected then { s with handlers := s.handlers ++ [⟨rpc, write⟩] } else s

/-- mirrors apps/ecat-studio/workspaces/MainWindowSdoWrite.cpp:1143-1163 -/
def requestSdoRead (s : Window) (position : Int) (index subIndex : String) : Window :=
  let trimmedIndex := trimmed index
  let trimmedSub := trimmed subIndex
  if position < 0 ∨ trimmedIndex = "" ∨ trimmedSub = "" then s
  else send s (.upload position trimmedIndex trimmedSub) none

def captured (g : Groups) (i : Nat) : String := String.ofList ((g.getD i none).getD [])

/-- The position, index and subindex of an acknowledged download.
mirrors apps/ecat-studio/workspaces/MainWindowWiring.cpp:813-823 -/
def completedObject (editor : Editor) (message : String) : String × String × String :=
  match firstMatch completeRe message.toList with
  | some g =>
    (if captured g 0 = "" then QString.number editor.selectedPosition.toInt else captured g 0, captured g 1, captured g 2)
  | none => (QString.number editor.selectedPosition.toInt, editor.sdoIndex, editor.sdoSubIndex)

/-- The code connected to `commandSucceeded`, called for the download of `write`.
mirrors apps/ecat-studio/workspaces/MainWindowWiring.cpp:810-844 -/
def commandSucceeded (s : Window) (write : Option Nat) (message : String) : Window :=
  if "SDO download complete".toList.isPrefixOf message.toList then
    let (position, index, subIndex) := completedObject s.editor message
    let pos := (toInt 10 position.toList).getD 0
    let key := sdoEvidenceKey pos index subIndex
    let found := s.pendingSdoWrites.lookup key
    let rest := hashRemove s.pendingSdoWrites key
    let pending := found.or (rest.lookup (index ++ "|" ++ subIndex))
    let type := (pending.map (·.type)).getD s.editor.sdoType
    let expectedValue := (pending.map (·.value)).getD s.editor.sdoWriteValue
    requestSdoRead
      { s with
        pendingSdoWrites := if found.isNone then hashRemove rest (index ++ "|" ++ subIndex) else rest
        pendingSdoVerifications :=
          hashInsert s.pendingSdoVerifications key ⟨write, position, index, subIndex, type, expectedValue⟩ }
      pos index subIndex
  else s

/-- The code connected to `sdoValue`.
mirrors apps/ecat-studio/workspaces/MainWindowSdoWorkspace.cpp:430-466 -/
def handleSdoValueResponse (s : Window) (position : Int) (index subIndex value : String) : Window :=
  let key := sdoEvidenceKey position index subIndex
  match s.pendingSdoVerifications.lookup key with
  | none => s
  | some verification =>
    { s with
      pendingSdoVerifications := hashRemove s.pendingSdoVerifications key
      outcomes := s.outcomes ++
        [⟨verification.write,
          if SdoReadBack.verify verification.value.toList value.toList = .ok then .verifiedOk else .verificationFailed,
          verification.value⟩] }

/-- The code connected to `connectionLost`.
mirrors apps/ecat-studio/workspaces/MainWindowWiring.cpp:915-960 -/
def flushPendingSdoState (s : Window) : Window :=
  { s with
    pendingSdoWrites := []
    pendingSdoVerifications := []
    outcomes := s.outcomes ++ s.pendingSdoWrites.map (fun e => ⟨e.2.write, .writeFailed, e.2.value⟩) ++
      s.pendingSdoVerifications.map (fun e => ⟨e.2.write, .verificationFailed, e.2.value⟩) }

/-- What the closure of a request does, and the code connected to its signals. -/
def runAct (caller : Request) (s : Window) : Act Rpc → Window
  | .emit (.commandSucceeded message) => commandSucceeded s caller.write message
  | .emit (.sdoValue position index subIndex value) => handleSdoValueResponse s position index subIndex value
  | .emit _ => s
  | .send _ _ rpc => send s rpc none

def invoke (s : Window) (caller : Request) (result : QJsonObject) : Window :=
  (caller.rpc.body result).foldl (runAct caller) s

section
variable (uiText : String → String) (isDouble : List Char → Bool)

/-- The write passes the checks before it is confirmed. -/
def Passes (e : Editor) : Prop :=
  e.selectedSdoWritable = true ∧ ¬ e.selectedPosition < 0 ∧
    (SdoValidation.validate uiText isDouble e.sdoIndex.toList e.sdoSubIndex.toList e.sdoWriteValue.toList
      e.sdoType.toList).errors = []

instance (e : Editor) : Decidable (Passes uiText isDouble e) := inferInstanceAs (Decidable (_ ∧ _ ∧ _))

/-- mirrors apps/ecat-studio/workspaces/MainWindowSdoWrite.cpp:774-842 -/
def writeCurrentSdo (s : Window) : Window :=
  if Passes uiText isDouble s.editor then
    let e := s.editor
    let position := e.selectedPosition.toInt
    let pending : Pending :=
      ⟨some s.requested.length, QString.number position, e.sdoIndex, e.sdoSubIndex, e.sdoType, e.sdoWriteValue⟩
    send
      { s with
        pendingSdoWrites := hashInsert s.pendingSdoWrites (sdoEvidenceKey position e.sdoIndex e.sdoSubIndex) pending
        requested := s.requested ++ [pending] }
      (.download position e.sdoIndex e.sdoSubIndex e.sdoWriteValue e.sdoType) (some s.requested.length)
  else s

/-! ## Runs -/

inductive Event where
  /-- the user, or other code of the window, changes the editor -/
  | edit (editor : Editor)
  /-- a write is confirmed -/
  | write
  /-- another part of the window reads an object -/
  | read (position : Int) (index subIndex : String)
  /-- a request is answered, rejected or timed out: its closure gets the result -/
  | answer (i : Nat) (result : QJsonObject)
  | connect
  /-- the socket is disconnected: the handlers are swapped out -/
  | disconnect
  /-- one of them is called -/
  | lost (i : Nat)
  /-- `emit connectionLost()` -/
  | connectionLost

/-- One event; one that is not enabled changes nothing. While the handlers
swapped out are called, nothing else runs. -/
def step (s : Window) : Event → Window
  | .edit editor => { s with editor := editor }
  | .write => if s.swapped.isNone then writeCurrentSdo uiText isDouble s else s
  | .read position index subIndex => if s.swapped.isNone then requestSdoRead s position index subIndex else s
  | .answer i result =>
    match s.swapped, s.handlers[i]? with
    | none, some r => invoke { s with handlers := s.handlers.eraseIdx i } r result
    | _, _ => s
  | .connect => if s.swapped.isNone then { s with connected := true } else s
  -- mirrors apps/ecat-studio/infra/EcatClient.cpp:33-53
  | .disconnect =>
    if s.swapped.isNone then { s with connected := false, handlers := [], swapped := some s.handlers } else s
  | .lost i =>
    match s.swapped with
    | some q =>
      match q[i]? with
      | some r => invoke { s with swapped := some (q.eraseIdx i) } r lostResult
      | none => s
    | none => s
  | .connectionLost =>
    match s.swapped with
    | some [] => { flushPendingSdoState s with swapped := none }
    | _ => s

end

def initial (editor : Editor) : Window where
  connected := false
  handlers := []
  swapped := none
  editor := editor
  pendingSdoWrites := []
  pendingSdoVerifications := []
  requested := []
  outcomes := []

end NekoEcat.L4.SdoWrites
