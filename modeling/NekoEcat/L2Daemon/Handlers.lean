import Mathlib.Data.List.Dedup
import NekoEcat.L2Daemon.CliBackend
import NekoEcat.L2Daemon.FoE

/-!
# The request handlers that reach the slaves

The handlers of the daemon as programs over the command line: each takes its
target and its texts from the parameters by its own conversions and runs the
backend's commands, or its own. The values of the JSON numbers that are no
integers are a parameter, as are the files the FoE commands work on.

* `handlers`: the handlers by their method.
-/
namespace NekoEcat.L2.Handlers
open NekoEcat.Commands NekoEcat.QJson NekoEcat.QString NekoEcat.QNumber NekoEcat.L2.CliBackend
open NekoEcat.L2.FoE (success failure Files CliRun handleFoeRead validateFilePath rejectUnsafeExistingFile fileSizeBytes)

/-- mirrors apps/ecatd/EcatDaemon.cpp:15-20 -/
def subIndexFromJson (obj : QJsonObject) : QJsonValue :=
  let v := value obj "subIndex"
  if toStringD v "" = "" then value obj "subindex" else v

/-- mirrors apps/ecatd/EcatDaemon.cpp:26-28 -/
def requestedMaster (params : QJsonObject) : String := trimmed (toStringD (value params "master") "0")

def text (obj : QJsonObject) (key : String) : String := toStringD (value obj key) ""

def subIndexText (obj : QJsonObject) : String := toStringD (subIndexFromJson obj) ""

def position (obj : QJsonObject) : Int := toIntD (value obj "position") 0

/-! ## The handlers of `EcatDaemon` -/

abbrev Handler := String → QJsonObject → Cli QJsonObject

/-- A handler that answers with a text. -/
def textHandler (key : String) (query : QJsonObject → Cli (String × Option String)) : Handler := fun id params => do
  let (text, error) ← query params
  let error := error.getD ""
  return if error = "" then success id (ofList [(key, .string text)]) else failure id error

/-- mirrors apps/ecatd/EcatDaemon.cpp:158-163 -/
def master : Handler := textHandler "text" fun params => masterText (requestedMaster params)

/-- mirrors core/EthercatTypes.cpp:4-10 -/
def toJson (slave : SlaveInfo) : QJsonValue :=
  .object (ofList [("position", .int slave.position), ("state", .string slave.state), ("flags", .string slave.flags),
    ("name", .string slave.name), ("rawLine", .string slave.rawLine)])

/-- mirrors apps/ecatd/EcatDaemon.cpp:165-170 -/
def scan : Handler := fun id params => do
  let (slaves, error) ← scanSlaves (requestedMaster params)
  let error := error.getD ""
  return if error = "" then success id (ofList [("slaves", .array (slaves.map toJson))]) else failure id error

/-- mirrors apps/ecatd/EcatDaemon.cpp:185-190 -/
def slaveInfo : Handler :=
  textHandler "text" fun params => CliBackend.slaveInfo (requestedMaster params) (position params)

/-- mirrors apps/ecatd/EcatDaemon.cpp:192-197 -/
def pdos : Handler := textHandler "text" fun params => CliBackend.pdos (requestedMaster params) (position params)

/-- mirrors apps/ecatd/EcatDaemon.cpp:199-211 -/
def sdos : Handler := textHandler "text" fun params => CliBackend.sdos (requestedMaster params) (position params)

/-- mirrors apps/ecatd/EcatDaemon.cpp:213-225 -/
def xml : Handler := textHandler "text" fun params => slaveXml (requestedMaster params) (position params)

/-- mirrors apps/ecatd/EcatDaemon.cpp:227-234 -/
def upload : Handler :=
  textHandler "value" fun params =>
    CliBackend.upload (requestedMaster params) (position params) (text params "index") (subIndexText params)
      (text params "type")

/-- A handler that answers without a result. -/
def commandHandler (command : QJsonObject → Cli (Bool × Option String)) : Handler := fun id params => do
  let (ok, error) ← command params
  return if ok then success id [] else failure id (error.getD "")

/-- mirrors apps/ecatd/EcatDaemon.cpp:172-183 -/
def rescan : Handler := commandHandler fun params => CliBackend.rescan (requestedMaster params)

/-- The write that the parameters, or an item of a batch, ask for. -/
def downloadItem (master : String) (obj : QJsonObject) (subIndex : String) : Cli (Bool × Option String) :=
  CliBackend.download master (position obj) (text obj "index") subIndex (text obj "value") (text obj "type")

/-- mirrors apps/ecatd/EcatDaemon.cpp:236-243 -/
def download : Handler := commandHandler fun params => downloadItem (requestedMaster params) params (subIndexText params)

/-- mirrors apps/ecatd/EcatDaemon.cpp:280-292 -/
def setState : Handler :=
  commandHandler fun params => CliBackend.setState (requestedMaster params) (position params) (text params "state")

/-- mirrors apps/ecatd/EcatDaemon.cpp:294-305 -/
def setAllStates : Handler :=
  commandHandler fun params => CliBackend.setAllStates (requestedMaster params) (text params "state")

/-- The counters and lists of `applyStartupSdos`. -/
structure Applying where
  applied : Int := 0
  failed : Int := 0
  failures : List QJsonValue := []
  results : List QJsonValue := []
  row : Int := 0

/-- The entry of an item in `failures`. -/
def itemFailure (row : Int) (item : QJsonObject) (itemError : String) : QJsonObject :=
  ofList [("row", .int row), ("position", .int (position item)), ("index", .string (text item "index")),
    ("subIndex", .string (text item "subIndex")), ("error", .string itemError)]

/-- The entry of an item in `results`. -/
def itemResult (row : Int) (item : QJsonObject) (ok : Bool) (itemError : String) : QJsonObject :=
  if ok then
    ofList [("row", .int row), ("ok", .bool true), ("position", .int (position item)),
      ("index", .string (text item "index")), ("subIndex", .string (subIndexText item))]
  else insert "ok" (.bool false) (itemFailure row item itemError)

def Applying.add (s : Applying) (item : QJsonObject) (ok : Bool) (itemError : String) : Applying where
  applied := if ok then s.applied + 1 else s.applied
  failed := if ok then s.failed else s.failed + 1
  failures := if ok then s.failures else s.failures ++ [.object (itemFailure s.row item itemError)]
  results := s.results ++ [.object (itemResult s.row item ok itemError)]
  row := s.row + 1

def applyItem (master : String) (s : Applying) (value : QJsonValue) : Cli Applying := do
  let item := toObject value
  let (ok, itemError) ← downloadItem master item (subIndexText item)
  return s.add item ok (itemError.getD "")

/-- mirrors apps/ecatd/EcatDaemon.cpp:245-278 -/
def applyStartupSdos : Handler := fun id params => do
  let s ← Prog.each (applyItem (requestedMaster params)) {} (toArray (value params "items"))
  return success id (ofList [("applied", .int s.applied), ("failed", .int s.failed), ("failures", .array s.failures),
    ("results", .array s.results)])

/-! ## Servo over EtherCAT -/

/-- What `runEthercatCommand` returns and stores.
mirrors apps/ecatd/handlers/SoEHandler.cpp:124-142 -/
def runEthercatCommand (timeoutMs : Int) : Outcome → RunResult
  | .notStarted | .timedOut => ⟨"", -1, arg "ethercat command timed out after %1ms" (number timeoutMs)⟩
  | .exited exitCode stdOut stdErr => ⟨stdOut, exitCode, stdErr⟩

/-- `toUInt(&ok, 0)`: `0x`, `0b` and a leading zero name the base. -/
def toUIntAuto (cs : List Char) : Option Nat :=
  let (base, ds) := match skipPlus (trim cs) with
    | '0' :: c :: ds => if c = 'x' ∨ c = 'X' then (16, ds) else if c = 'b' ∨ c = 'B' then (2, ds) else (8, c :: ds)
    | ds => (10, ds)
  if ds ≠ [] ∧ ds.all (isDigitOf base) ∧ ofDigits base ds < 2 ^ 32 then some (ofDigits base ds) else none

/-- `^[SsPp]-[0-7]-\d{1,5}$` -/
def isIdnName : List Char → Bool
  | c :: '-' :: d :: '-' :: block =>
    "SsPp".toList.contains c && isDigitOf 8 d && block.all (isDigitOf 10) && 1 ≤ block.length && block.length ≤ 5
  | _ => false

/-- The error, if the IDN is refused.
mirrors apps/ecatd/handlers/SoEHandler.cpp:94-122 -/
def validateIdn (idn : String) : Option String :=
  if idn = "" then some "Missing 'idn' parameter."
  else if isIdnName idn.toList then none
  else
    let ok := if startsWith0x idn.toList then toUInt 16 (idn.toList.drop 2) else toUIntAuto idn.toList
    if ok.isSome then none
    else some (arg "Invalid IDN '%1'. Use S-x-yyyy, P-x-yyyy, or a numeric value." idn)

/-- The part of the two handlers that is the same: the error text of a failure. -/
def failureText (prefixed : String) (r : RunResult) : String :=
  if trimmed r.stdErr = "" then arg prefixed (number r.exitCode) else trimmed r.stdErr

def soePosition (params : QJsonObject) : Int := toIntD (value params "position") (-1)

def typeArgs (type : String) : Line := if type = "" then [] else ["--type", type]

/-- The checks of `handleSoeRead`. -/
def soeReadRefusal (params : QJsonObject) : Option String :=
  let drive := toIntD (value params "drive") 0
  if soePosition params < 0 then some "Missing or invalid 'position' parameter."
  else
    match validateIdn (trimmed (text params "idn")) with
    | some idnError => some idnError
    | none => if drive < 0 ∨ drive > 7 then some "Drive number must be 0-7." else none

def soeReadArgs (params : QJsonObject) : Line :=
  ["soe_read", "-p", number (soePosition params)] ++ typeArgs (trimmed (text params "type")) ++
    [number (toIntD (value params "drive") 0), trimmed (text params "idn")]

/-- mirrors apps/ecatd/handlers/SoEHandler.cpp:10-46 -/
def handleSoeRead : Handler := fun id params =>
  match soeReadRefusal params with
  | some message => .done (failure id message)
  | none => do
    let o ← Prog.exec (soeReadArgs params)
    let r := runEthercatCommand 10000 o
    return if r.exitCode ≠ 0 then failure id (failureText "SoE read failed with exit code %1" r)
      else
        success id (ofList [("value", .string (trimmed r.text)), ("idn", .string (trimmed (text params "idn"))),
          ("type", .string (trimmed (text params "type"))), ("drive", .int (toIntD (value params "drive") 0))])

/-- The checks of `handleSoeWrite`. -/
def soeWriteRefusal (params : QJsonObject) : Option String :=
  let drive := toIntD (value params "drive") 0
  if soePosition params < 0 then some "Missing or invalid 'position' parameter."
  else
    match validateIdn (trimmed (text params "idn")) with
    | some idnError => some idnError
    | none =>
      if text params "value" = "" then some "Missing 'value' parameter."
      else if drive < 0 ∨ drive > 7 then some "Drive number must be 0-7."
      else none

def soeWriteArgs (params : QJsonObject) : Line :=
  ["soe_write", "-p", number (soePosition params)] ++ typeArgs (trimmed (text params "type")) ++
    [number (toIntD (value params "drive") 0), trimmed (text params "idn"), text params "value"]

/-- mirrors apps/ecatd/handlers/SoEHandler.cpp:49-91 -/
def handleSoeWrite : Handler := fun id params =>
  match soeWriteRefusal params with
  | some message => .done (failure id message)
  | none => do
    let o ← Prog.exec (soeWriteArgs params)
    let r := runEthercatCommand 10000 o
    let idn := trimmed (text params "idn")
    let drive := toIntD (value params "drive") 0
    return if r.exitCode ≠ 0 then failure id (failureText "SoE write failed with exit code %1" r)
      else
        success id (ofList [("success", .bool true), ("idn", .string idn), ("drive", .int drive),
          ("message", .string (arg (arg (arg "IDN %1 written to slave %2 (drive %3)" idn)
            (number (soePosition params))) (number drive)))])

/-! ## File over EtherCAT -/

/-- What the handlers depend on besides the command line. -/
structure Host where
  firmwareBaseDirs : List String
  fs : Files
  /-- the files after an FoE command that ended so -/
  left : Outcome → Files
  isReadable : List Char → Bool
  /-- the integer part of a JSON number that is no integer -/
  integerPart : String → Int

/-- A host with two empty directories. -/
def bareHost : Host := ⟨["/tmp"], FoE.plain, fun _ => FoE.plain, fun _ => true, fun _ => 0⟩

/-- `handleFoeRead` is told how its command ended. Whether it runs one does not
depend on that.
mirrors apps/ecatd/handlers/FoEHandler.cpp:16-66 -/
def foeRead (host : Host) : Handler := fun id params =>
  let handled (o : Outcome) :=
    let r := runEthercatCommand 120000 o
    handleFoeRead (fun _ _ => ⟨r.exitCode, r.stdErr, host.left o⟩) host.firmwareBaseDirs host.fs id params
  match (handled .notStarted).ran with
  | none => .done (handled .notStarted).response
  | some args => do
    let o ← Prog.exec args
    return (handled o).response

/-- `static_cast<quint32>` of the number, or 0 if it is out of range. -/
def password (host : Host) (params : QJsonObject) : Int :=
  let pwd := match value params "password" with
    | .int n => n
    | .double text => host.integerPart text
    | _ => 0
  if 0 ≤ pwd ∧ pwd ≤ 0xFFFFFFFF then pwd else 0

/-- The checks of `handleFoeWrite`. -/
def foeWriteRefusal (host : Host) (params : QJsonObject) : Option String :=
  let filePath := trimmed (text params "filePath")
  if soePosition params < 0 then some "Missing or invalid 'position' parameter."
  else if filePath = "" then some "Missing 'filePath' parameter."
  else
    match validateFilePath host.fs host.firmwareBaseDirs filePath, rejectUnsafeExistingFile host.fs filePath with
    | .error pathError, _ => some pathError
    | .ok (), .error pathError => some pathError
    | .ok (), .ok () =>
      if fileSizeBytes host.fs filePath.toList < 0 then some (arg "Input file '%1' does not exist." filePath)
      else if !host.isReadable filePath.toList then some (arg "Input file '%1' is not readable." filePath)
      else none

def foeWriteArgs (host : Host) (params : QJsonObject) : Line :=
  ["foe_write", "-p", number (soePosition params), "--input", trimmed (text params "filePath")] ++
    if password host params = 0 then [] else ["--password", number (password host params)]

/-- mirrors apps/ecatd/handlers/FoEHandler.cpp:70-131 -/
def foeWrite (host : Host) : Handler := fun id params =>
  match foeWriteRefusal host params with
  | some message => .done (failure id message)
  | none => do
    let o ← Prog.exec (foeWriteArgs host params)
    let r := runEthercatCommand 120000 o
    let filePath := trimmed (text params "filePath")
    let fileSize := fileSizeBytes host.fs filePath.toList
    return if r.exitCode ≠ 0 then failure id (failureText "FoE write failed with exit code %1" r)
      else
        success id (ofList [("success", .bool true), ("bytesWritten", .int fileSize),
          ("message", .string (arg (arg (arg "Firmware '%1' written to slave %2 (%3 bytes)" filePath)
            (number (soePosition params))) (number fileSize)))])

/-! ## Ethernet over EtherCAT -/

/-- `^(\d{1,3})\.(\d{1,3})\.(\d{1,3})\.(\d{1,3})$`, each at most 255.
mirrors apps/ecatd/handlers/EoEHandler.cpp:216-230 -/
def parseIp (ip : String) : Option (List Nat) :=
  let octet (cs : List Char) : Option Nat :=
    if 1 ≤ cs.length ∧ cs.length ≤ 3 ∧ cs.all (isDigitOf 10) ∧ ofDigits 10 cs ≤ 255 then some (ofDigits 10 cs) else none
  match (trimmed ip).toList.splitOn '.' with
  | [a, b, c, d] => [a, b, c, d].mapM octet
  | _ => none

/-- Four bytes as a `uint32`, the first one lowest. -/
def ipValue (bytes : List Nat) : Nat := bytes.foldr (fun b n => b + 256 * n) 0

/-- mirrors apps/ecatd/handlers/EoEHandler.cpp:232-234 -/
def formatIp (value : Nat) : String :=
  number (value % 256) ++ "." ++ number (value / 256 % 256) ++ "." ++ number (value / 65536 % 256) ++ "." ++
    number (value / 16777216 % 256)

/-- The value, and the error text, which stays once it is set.
mirrors apps/ecatd/handlers/EoEHandler.cpp:238-259 -/
def readEoeSdo (master : String) (position : Int) (index subIndex : String) (error : String) :
    Cli (Option Nat × String) := do
  let (result, stored) ← CliBackend.upload master position index subIndex "uint32"
  let error := stored.getD error
  return if error ≠ "" then (none, error)
    else
      match toUInt 10 result.toList with
      | some val => (some val, error)
      | none => (none, arg "Failed to parse SDO value: '%1'" result)

/-- mirrors apps/ecatd/handlers/EoEHandler.cpp:261-270 -/
def writeEoeSdo (master : String) (position : Int) (index subIndex : String) (val : Nat) : Cli (Bool × Option String) :=
  CliBackend.download master position index subIndex (number val) "uint32"

/-- mirrors apps/ecatd/handlers/EoEHandler.cpp:274-289 -/
def slaveHasEoe (master : String) (position : Int) : Cli (Bool × String) := do
  let (xml, stored) ← slaveXml master position
  let error := stored.getD ""
  let declares (name : String) := decide (lower name.toList <:+: lower xml.toList)
  return (error = "" && (declares "EoE" || declares "Ethernet over EtherCAT"), error)

/-- mirrors apps/ecatd/handlers/EoEHandler.cpp:30-70 -/
def handleEoeStatus : Handler := fun id params =>
  let master := requestedMaster params
  let position := soePosition params
  if position < 0 then .done (failure id "Missing or invalid 'position' parameter.")
  else do
    let (hasEoe, error) ← slaveHasEoe master position
    if error ≠ "" ∧ hasEoe = false then return failure id error
    else
      let (ipValue, _) ← if hasEoe then readEoeSdo master position "0x8000" "0x01" "" else pure (none, "")
      let currentIp := match ipValue with
        | some ipValue => [("currentIp", QJsonValue.string (formatIp ipValue))]
        | none => []
      return success id (ofList ([("supported", .bool hasEoe), ("hasIpConfig", .bool ipValue.isSome)] ++ currentIp ++
        [("position", .int position)]))

/-- The checks of `handleEoeConfigureIp`. -/
def eoeConfigureIpRefusal (params : QJsonObject) : Option String :=
  let ip := trimmed (text params "ip")
  let subnet := trimmed (text params "subnet")
  if soePosition params < 0 then some "Missing or invalid 'position' parameter."
  else if ip = "" ∨ subnet = "" then some "Missing 'ip' or 'subnet' parameter."
  else if parseIp ip = none then some (arg "Invalid IP address: '%1'." ip)
  else if parseIp subnet = none then some (arg "Invalid subnet mask: '%1'." subnet)
  else none

/-- A write that is left out if the text is no address. Its failure is not looked at. -/
def writeOptional (master : String) (position : Int) (subIndex ip : String) : Cli Unit :=
  match if ip = "" then none else parseIp ip with
  | some bytes => do
    let _ ← writeEoeSdo master position "0x8000" subIndex (ipValue bytes)
    return ()
  | none => return ()

/-- mirrors apps/ecatd/handlers/EoEHandler.cpp:74-140 -/
def handleEoeConfigureIp : Handler := fun id params =>
  let master := requestedMaster params
  let position := soePosition params
  let address (key : String) := trimmed (text params key)
  let write (subIndex key : String) :=
    writeEoeSdo master position "0x8000" subIndex (ipValue ((parseIp (address key)).getD []))
  match eoeConfigureIpRefusal params with
  | some message => .done (failure id message)
  | none => do
    let (ok, error) ← write "0x01" "ip"
    if ok = false then return failure id (arg "Failed to set IP: %1" (error.getD ""))
    else
      let (ok, error) ← write "0x02" "subnet"
      if ok = false then return failure id (arg "Failed to set subnet: %1" (error.getD ""))
      else
        writeOptional master position "0x03" (address "gateway")
        writeOptional master position "0x04" (address "dns")
        let optional (key : String) := if address key = "" then [] else [(key, QJsonValue.string (address key))]
        return success id (ofList ([("success", .bool true), ("ip", .string (address "ip")),
          ("subnet", .string (address "subnet"))] ++ optional "gateway" ++ optional "dns" ++
          [("message", .string (arg (arg (arg "EoE IP configured for slave %1: %2/%3" (number position))
            (address "ip")) (address "subnet")))]))

/-- mirrors apps/ecatd/handlers/EoEHandler.cpp:144-180 -/
def handleEoeGetIp : Handler := fun id params =>
  let master := requestedMaster params
  let position := soePosition params
  if position < 0 then .done (failure id "Missing or invalid 'position' parameter.")
  else do
    let (ip, error) ← readEoeSdo master position "0x8000" "0x01" ""
    match ip with
    | none => return failure id (arg "Failed to read IP: %1" error)
    | some ip =>
      let (subnet, error) ← readEoeSdo master position "0x8000" "0x02" error
      let (gateway, error) ← readEoeSdo master position "0x8000" "0x03" error
      let (dns, _) ← readEoeSdo master position "0x8000" "0x04" error
      let field (key : String) (value : Nat) := (key, QJsonValue.string (formatIp value))
      return success id (ofList [field "ip" ip, field "subnet" (subnet.getD 0), field "gateway" (gateway.getD 0),
        field "dns" (dns.getD 0), ("position", .int position)])

/-- mirrors apps/ecatd/handlers/EoEHandler.cpp:184-212 -/
def handleEoeStats : Handler := fun id params =>
  let master := requestedMaster params
  let position := soePosition params
  if position < 0 then .done (failure id "Missing or invalid 'position' parameter.")
  else do
    let (txFrames, error) ← readEoeSdo master position "0x8000" "0x10" ""
    let (rxFrames, error) ← readEoeSdo master position "0x8000" "0x11" error
    let (txErrors, error) ← readEoeSdo master position "0x8000" "0x12" error
    let (rxErrors, _) ← readEoeSdo master position "0x8000" "0x13" error
    let field (key : String) (value : Option Nat) := (key, QJsonValue.int (value.getD 0))
    return success id (ofList [field "txFrames" txFrames, field "rxFrames" rxFrames, field "txErrors" txErrors,
      field "rxErrors" rxErrors, ("position", .int position)])

/-! ## Online change -/

/-- The positions, sorted.
mirrors apps/ecatd/handlers/OnlineChangeHandler.cpp:16-30 -/
def affectedSlaves (changes : List QJsonValue) : List Int :=
  (((changes.map toObject).filter fun obj => contains obj "position").map position).dedup.mergeSort (· ≤ ·)

/-- The change to `PREOP`: a failure is noted. -/
def toPreop (master : String) (results : List QJsonValue) (pos : Int) : Cli (List QJsonValue) := do
  let (ok, error) ← CliBackend.setState master pos "PREOP"
  return if ok then results
    else
      results ++ [.object (ofList [("position", .int pos), ("phase", .string "preop"), ("ok", .bool false),
        ("error", .string (error.getD ""))])]

/-- The counters and the list of the second phase. -/
structure Changing where
  applied : Int
  failed : Int
  results : List QJsonValue

def applyChange (master : String) (s : Changing) (change : QJsonValue) : Cli Changing := do
  let obj := toObject change
  let (ok, error) ← downloadItem master obj (text obj "subIndex")
  let outcome := [("position", QJsonValue.int (position obj)), ("phase", .string "sdo"), ("ok", .bool ok),
    ("index", .string (text obj "index")), ("subIndex", .string (text obj "subIndex"))]
  return if ok then { s with applied := s.applied + 1, results := s.results ++ [.object (ofList outcome)] }
    else
      { s with
        failed := s.failed + 1
        results := s.results ++ [.object (ofList (outcome ++ [("error", .string (error.getD ""))]))] }

/-- The change back: every result is noted. -/
def restore (master targetState : String) (results : List QJsonValue) (pos : Int) : Cli (List QJsonValue) := do
  let (ok, error) ← CliBackend.setState master pos targetState
  return results ++ [.object (ofList [("position", .int pos), ("targetState", .string targetState), ("ok", .bool ok),
    ("error", .string (if ok then "" else error.getD ""))])]

/-- Nothing else runs while a change is applied, so none is found in progress.
mirrors apps/ecatd/handlers/OnlineChangeHandler.cpp:71-150 -/
def handleApply : Handler := fun id params =>
  let master := requestedMaster params
  let changes := toArray (value params "changes")
  let targetState := toStringD (value params "targetState") "OP"
  if changes = [] then .done (failure id "No changes specified.")
  else do
    let affected := affectedSlaves changes
    let results ← Prog.each (toPreop master) [] affected
    let s ← Prog.each (applyChange master) ⟨0, 0, results⟩ changes
    let restoreResults ← Prog.each (restore master targetState) [] affected
    return success id (ofList [("success", .bool (s.failed = 0)), ("applied", .int s.applied), ("failed", .int s.failed),
      ("results", .array s.results), ("restoreResults", .array restoreResults),
      ("affectedSlaves", .array (affected.map .int))])

/-! ## The commands -/

/-- The commands that reach the slaves; the others are not looked at.
mirrors apps/ecatd/EcatDaemon.cpp:134-478 -/
def handlers (host : Host) : String → Option Handler
  | "master" => some master
  | "scan" => some scan
  | "rescan" => some rescan
  | "slaveInfo" => some slaveInfo
  | "pdos" => some pdos
  | "sdos" => some sdos
  | "xml" => some xml
  | "upload" => some upload
  | "download" => some download
  | "applyStartupSdos" => some applyStartupSdos
  | "setState" => some setState
  | "setAllStates" => some setAllStates
  | "foeRead" => some (foeRead host)
  | "foeWrite" => some (foeWrite host)
  | "soeRead" => some handleSoeRead
  | "soeWrite" => some handleSoeWrite
  | "eoeStatus" => some handleEoeStatus
  | "eoeConfigureIp" => some handleEoeConfigureIp
  | "eoeGetIp" => some handleEoeGetIp
  | "eoeStats" => some handleEoeStats
  | "onlineChangeApply" => some handleApply
  | _ => none

/-! ## The lines of the batches -/

section
variable (env : List Line → Line → Outcome) (h : List Line) (id : String) (params : QJsonObject)

def downloadLine (master : String) (obj : QJsonObject) (subIndex : String) : Line :=
  scopedArguments master (downloadArgs (position obj) (text obj "index") subIndex (text obj "value") (text obj "type"))

def stateLine (master state : String) (pos : Int) : Line := scopedArguments master ["states", "-p", number pos, state]

/-- Every item is written. -/
theorem lines_applyStartupSdos :
    ((applyStartupSdos id params).run env h).2 =
      (toArray (value params "items")).map fun item =>
        downloadLine (requestedMaster params) (toObject item) (subIndexText (toObject item)) := by
  unfold applyStartupSdos
  rw [Prog.bind_eq, Prog.run_bind, Prog.lines_each env h fun _ _ _ => rfl]
  exact List.append_nil _

/-- Every slave is changed to `PREOP` and back, and every change is written. -/
theorem lines_handleApply :
    ((handleApply id params).run env h).2 =
      (affectedSlaves (toArray (value params "changes"))).map (stateLine (requestedMaster params) "PREOP") ++
        ((toArray (value params "changes")).map fun change =>
          downloadLine (requestedMaster params) (toObject change) (text (toObject change) "subIndex")) ++
        (affectedSlaves (toArray (value params "changes"))).map
          (stateLine (requestedMaster params) (toStringD (value params "targetState") "OP")) := by
  unfold handleApply
  simp only
  split
  · rename_i hnil
    rw [hnil]
    simp [affectedSlaves]
  · simp only [Prog.bind_eq, Prog.run_bind]
    rw [Prog.lines_each env _ fun _ _ _ => rfl, Prog.lines_each env _ fun _ _ _ => rfl,
      Prog.lines_each env _ fun _ _ _ => rfl]
    simp only [Prog.pure_eq, Prog.run_done, List.append_nil, List.append_assoc]
    rfl

end

end NekoEcat.L2.Handlers
