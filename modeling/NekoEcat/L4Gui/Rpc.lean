import NekoEcat.L4Gui.EcatClient

/-!
# The request methods of `EcatClient`

Every public method builds parameters and calls `send` with a closure. An
`Rpc` is one call of such a method, and stands for its closure too, which
captures arguments of the call only.

* `Rpc.method`, `Rpc.params`: what is sent.
* `Rpc.body`: what the closure does with a result.
-/
namespace NekoEcat.L4.EcatClient
open NekoEcat.QJson

inductive Rpc where
  | ping
  | hostDiagnostics
  | master
  | scan
  | rescan
  | slaveInfo (position : Int)
  | pdos (position : Int)
  | sdos (position : Int)
  | xml (position : Int)
  | upload (position : Int) (index subIndex : String)
  | download (position : Int) (index subIndex value type : String)
  | applyStartupSdos (items : List QJsonValue)
  | setState (position : Int) (state : String)
  | setAllStates (state : String)
  | freeRunStart
  | freeRunStop
  | freeRunStatus
  | rtTestStart (cycleUsec : Int)
  | rtTestStop
  | rtTestStatus
  | dcSyncStatus
  | dcConfigure (position : Int)
  | dcActivate (refClockSlave : Int)
  | dcDeactivate
  | alEventLog (limit : Int)
  | alEventClear
  | listAdapters
  | setAdapter (name : String)
  | setBackendMode (mode : String)
  | foeRead (position : Int) (filePath : String)
  | foeWrite (position : Int) (filePath : String) (password : UInt32)
  | getBackendMode
  | soeRead (position : Int) (idn : String) (drive : Int) (type : String)
  | soeWrite (position : Int) (idn value : String) (drive : Int) (type : String)
  | eoeStatus (position : Int)
  | eoeConfigureIp (position : Int) (ip subnet gateway dns : String)
  | eoeGetIp (position : Int)
  | eoeStats (position : Int)
  | redundancyStatus
  | redundancyEnable
  | redundancyDisable
  | redundancyFailover
  | redundancyFailback
  | redundancyHistory (limit : Int)
  | onlineChangePreview (changes : List QJsonValue)
  | onlineChangeApply (changes : List QJsonValue) (targetState : String)
  | onlineChangeStatus
  deriving Repr

def Rpc.method : Rpc → String
  | .ping => "ping"
  | .hostDiagnostics => "hostDiagnostics"
  | .master => "master"
  | .scan => "scan"
  | .rescan => "rescan"
  | .slaveInfo _ => "slaveInfo"
  | .pdos _ => "pdos"
  | .sdos _ => "sdos"
  | .xml _ => "xml"
  | .upload .. => "upload"
  | .download .. => "download"
  | .applyStartupSdos _ => "applyStartupSdos"
  | .setState .. => "setState"
  | .setAllStates _ => "setAllStates"
  | .freeRunStart => "freeRunStart"
  | .freeRunStop => "freeRunStop"
  | .freeRunStatus => "freeRunStatus"
  | .rtTestStart _ => "rtTestStart"
  | .rtTestStop => "rtTestStop"
  | .rtTestStatus => "rtTestStatus"
  | .dcSyncStatus => "dcSyncStatus"
  | .dcConfigure _ => "dcConfigure"
  | .dcActivate _ => "dcActivate"
  | .dcDeactivate => "dcDeactivate"
  | .alEventLog _ => "alEventLog"
  | .alEventClear => "alEventClear"
  | .listAdapters => "listAdapters"
  | .setAdapter _ => "setAdapter"
  | .setBackendMode _ => "setBackend"
  | .foeRead .. => "foeRead"
  | .foeWrite .. => "foeWrite"
  | .getBackendMode => "getBackend"
  | .soeRead .. => "soeRead"
  | .soeWrite .. => "soeWrite"
  | .eoeStatus _ => "eoeStatus"
  | .eoeConfigureIp .. => "eoeConfigureIp"
  | .eoeGetIp _ => "eoeGetIp"
  | .eoeStats _ => "eoeStats"
  | .redundancyStatus => "redundancyStatus"
  | .redundancyEnable => "redundancyEnable"
  | .redundancyDisable => "redundancyDisable"
  | .redundancyFailover => "redundancyFailover"
  | .redundancyFailback => "redundancyFailback"
  | .redundancyHistory _ => "redundancyHistory"
  | .onlineChangePreview _ => "onlineChangePreview"
  | .onlineChangeApply .. => "onlineChangeApply"
  | .onlineChangeStatus => "onlineChangeStatus"

/-- A parameter that is left out when its text is empty. -/
def unlessEmpty (key text : String) : List (String × QJsonValue) :=
  if text.isEmpty then [] else [(key, .string text)]

def Rpc.params : Rpc → QJsonObject
  | .slaveInfo position | .pdos position | .sdos position | .xml position | .dcConfigure position
  | .eoeStatus position | .eoeGetIp position | .eoeStats position => ofList [("position", .int position)]
  | .upload position index subIndex =>
    ofList [("position", .int position), ("index", .string index), ("subIndex", .string subIndex)]
  | .download position index subIndex value type =>
    ofList [("position", .int position), ("index", .string index), ("subIndex", .string subIndex),
      ("value", .string value), ("type", .string type)]
  | .applyStartupSdos items => ofList [("items", .array items)]
  | .setState position state => ofList [("position", .int position), ("state", .string state)]
  | .setAllStates state => ofList [("state", .string state)]
  | .rtTestStart cycleUsec => ofList [("cycleUsec", .int cycleUsec)]
  | .dcActivate refClockSlave => ofList [("refClockSlave", .int refClockSlave)]
  | .alEventLog limit | .redundancyHistory limit => ofList [("limit", .int limit)]
  | .setAdapter name => ofList [("adapter", .string name)]
  | .setBackendMode mode => ofList [("mode", .string mode)]
  | .foeRead position filePath => ofList [("position", .int position), ("filePath", .string filePath)]
  | .foeWrite position filePath password =>
    ofList ([("position", .int position), ("filePath", .string filePath)] ++
      if password ≠ 0 then [("password", .int password.toNat)] else [])
  | .soeRead position idn drive type =>
    ofList ([("position", .int position), ("idn", .string idn), ("drive", .int drive)] ++
      unlessEmpty "type" type)
  | .soeWrite position idn value drive type =>
    ofList ([("position", .int position), ("idn", .string idn), ("value", .string value),
      ("drive", .int drive)] ++ unlessEmpty "type" type)
  | .eoeConfigureIp position ip subnet gateway dns =>
    ofList ([("position", .int position), ("ip", .string ip), ("subnet", .string subnet)] ++
      unlessEmpty "gateway" gateway ++ unlessEmpty "dns" dns)
  | .onlineChangePreview changes => ofList [("changes", .array changes)]
  | .onlineChangeApply changes targetState =>
    ofList [("changes", .array changes), ("targetState", .string targetState)]
  | _ => []

/-- A follow-up request, made from inside a closure. -/
def Rpc.act (r : Rpc) : Act Rpc := .send r.method r.params r

/-- What foreign code does when it calls the method. -/
def Rpc.op (r : Rpc) : Op Rpc := .send r.method r.params r

/-! ## The closures -/

/-- `result.value(key).toString()` -/
def text (result : QJsonObject) (key : String) : String := toStringD (value result key) ""

/-- `if (result.contains("error")) return;` -/
def unlessError (result : QJsonObject) (acts : List (Act Rpc)) : List (Act Rpc) :=
  if contains result "error" then [] else acts

/-- mirrors apps/ecat-studio/infra/EcatClient.cpp:215-241 -/
def slaveText (title : String) (position : Int) (result : QJsonObject) : List (Act Rpc) :=
  [.emit (.slaveTextResult title position (text result "text"))]

/-- mirrors apps/ecat-studio/infra/EcatClient.cpp:632-662 -/
def redundancyCommand (command : String) (result : QJsonObject) : List (Act Rpc) :=
  [.emit (.redundancyCommandResult command (toBool (value result "success")) (text result "message"))]

/-- mirrors apps/ecat-studio/infra/EcatClient.cpp:517-521, 550-554 -/
def backendMode (result : QJsonObject) : List (Act Rpc) :=
  [.emit (.backendModeChanged (text result "backend") (text result "mode"))]

/-- One line of the failures of a batch.
mirrors apps/ecat-studio/infra/EcatClient.cpp:278-284 -/
def failureText (failure : QJsonValue) : String :=
  let object := toObject failure
  "#" ++ toString (toIntD (value object "position") 0) ++ " " ++ text object "index" ++ ":" ++
    text object "subIndex" ++ " " ++ text object "error"

/-- mirrors apps/ecat-studio/infra/EcatClient.cpp:183-386, 494-687 -/
def Rpc.body (r : Rpc) (result : QJsonObject) : List (Act Rpc) :=
  match r with
  | .ping => [.emit (.daemonInfo (text result "name" ++ " " ++ text result "version"))]
  | .hostDiagnostics => [.emit (.hostDiagnosticsReady (toArray (value result "checks")))]
  | .master => [.emit (.masterText (text result "text"))]
  | .scan => [.emit (.slavesChanged (toArray (value result "slaves")))]
  | .rescan => [.emit (.commandSucceeded "Bus rescan requested"), Rpc.scan.act]
  | .slaveInfo position => slaveText "Info" position result
  | .pdos position => slaveText "PDO" position result
  | .sdos position => slaveText "SDO" position result
  | .xml position => slaveText "ESI XML" position result
  | .upload position index subIndex =>
    unlessError result [.emit (.sdoValue position index subIndex (text result "value"))]
  | .download position index subIndex _ _ =>
    unlessError result
      [.emit (.commandSucceeded ("SDO download complete #" ++ toString position ++ ": " ++ index ++ ":" ++ subIndex)),
       (Rpc.upload position index subIndex).act]
  | .applyStartupSdos _ =>
    let applied := toIntD (value result "applied") 0
    let failed := toIntD (value result "failed") 0
    [.emit (.startupSdoResults (toArray (value result "results"))),
     .emit (.commandSucceeded ("Startup SDO apply complete: " ++ toString applied ++ " applied, " ++
       toString failed ++ " failed"))] ++
      if failed > 0 then
        [.emit (.errorMessage (" | ".intercalate ((toArray (value result "failures")).map failureText)))]
      else []
  | .setState _ state =>
    unlessError result [.emit (.commandSucceeded ("State request sent: " ++ state)), Rpc.scan.act]
  | .setAllStates state =>
    unlessError result [.emit (.commandSucceeded ("All-state request sent: " ++ state)), Rpc.scan.act]
  | .freeRunStart =>
    [.emit (.freeRunChanged true (toStringD (value result "status") "Running")),
     .emit (.freeRunTelemetry result), .emit (.commandSucceeded "Free Run started")]
  | .freeRunStop =>
    [.emit (.freeRunChanged false (toStringD (value result "status") "Stopped")),
     .emit (.freeRunTelemetry result), .emit (.commandSucceeded "Free Run stopped")]
  | .freeRunStatus =>
    [.emit (.freeRunChanged (toBool (value result "running")) (text result "status")),
     .emit (.freeRunTelemetry result)]
  | .rtTestStart _ =>
    [.emit (.rtTestTelemetry result), .emit (.commandSucceeded "RT stability test started")]
  | .rtTestStop => [.emit (.rtTestTelemetry result), .emit (.commandSucceeded "RT stability test stopped")]
  | .rtTestStatus => [.emit (.rtTestTelemetry result)]
  | .dcSyncStatus => [.emit (.dcSyncStatusResult result)]
  | .dcConfigure _ => [.emit (.dcConfigureResult result), .emit (.commandSucceeded "DC configuration queried")]
  | .dcActivate _ => [.emit (.dcActivateResult result), .emit (.commandSucceeded "DC activation requested")]
  | .dcDeactivate => [.emit (.dcDeactivateResult result), .emit (.commandSucceeded "DC deactivated")]
  | .alEventLog _ => [.emit (.alEventLogResult result)]
  | .alEventClear => [.emit (.commandSucceeded "AL event log cleared")]
  | .listAdapters => [.emit (.adaptersListResult result)]
  | .setAdapter name => [.emit (.commandSucceeded ("Adapter set to " ++ name))]
  | .setBackendMode _ => backendMode result
  | .foeRead position filePath =>
    [.emit (.foeReadResult position filePath (value result "fileSize")),
     .emit (.commandSucceeded (text result "message"))]
  | .foeWrite position _ _ =>
    [.emit (.foeWriteResult position (value result "bytesWritten")),
     .emit (.commandSucceeded (text result "message"))]
  | .getBackendMode => backendMode result
  | .soeRead position idn _ _ => [.emit (.soeReadResult position idn (text result "value"))]
  | .soeWrite position idn _ _ _ =>
    [.emit (.soeWriteResult position idn), .emit (.commandSucceeded (text result "message"))]
  | .eoeStatus position => [.emit (.eoeStatusResult position result)]
  | .eoeConfigureIp position ip _ _ _ =>
    [.emit (.eoeIpConfigured position ip), .emit (.commandSucceeded (text result "message"))]
  | .eoeGetIp position => [.emit (.eoeIpResult position result)]
  | .eoeStats position => [.emit (.eoeStatsResult position result)]
  | .redundancyStatus => [.emit (.redundancyStatusResult result)]
  | .redundancyEnable => redundancyCommand "enable" result
  | .redundancyDisable => redundancyCommand "disable" result
  | .redundancyFailover => redundancyCommand "failover" result
  | .redundancyFailback => redundancyCommand "failback" result
  | .redundancyHistory _ => [.emit (.redundancyHistoryResult result)]
  | .onlineChangePreview _ => [.emit (.onlineChangePreviewResult result)]
  | .onlineChangeApply .. => [.emit (.onlineChangeApplyResult result)]
  | .onlineChangeStatus => [.emit (.onlineChangeStatusResult result)]

end NekoEcat.L4.EcatClient
