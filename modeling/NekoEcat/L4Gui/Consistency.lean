import NekoEcat.L4Gui.PdoListing
import NekoEcat.L4Gui.ProjectRoundTrip

/-!
# The consistency check

The check merges the Free Run, PDO, Watch and Startup tables into one table of
variables and lists what does not fit, each row with a level. The gate reads the
levels off the list of the last check, as long as a flag says that nothing has
changed since. Every operation clears the flag by itself.

The rows of the list are what they are about; their other texts are left out.

* `matrix`: the list the check makes.
* `gate`: the state of the gate.
* `step`: the operations.
-/
namespace NekoEcat.L4.Consistency
open NekoEcat.QNumber NekoEcat.QString NekoEcat.L4.SdoWrites NekoEcat.L4.ProjectFile
open NekoEcat.L4.PdoListing (PdoRow updatePdoTable)
open NekoEcat.L4.WatchTable (Watch Source addCurrentSdoToWatch addSelectedHistoryRowsToWatch
  addObjectBookmarkRowsToWatch updateWatchTableFromSdo)

/-! ## The evidence -/

/-- `contains(s)` -/
def contains (cs : List Char) (s : String) : Bool := decide (s.toList <:+: cs)

/-- The columns of the Startup table that are read. -/
structure StartupRow extends ProjectFile.StartupRow where
  watchDelta : String
  deriving DecidableEq, Repr

/-- The columns of the Free Run table that are read. -/
structure FreeRunRow where
  position : String
  index : String
  subIndex : String
  raw : String
  mapStatus : String
  deriving DecidableEq, Repr

structure Evidence where
  topologyBaseline : List SlaveInfo
  slaves : List SlaveInfo
  /-- The slave whose item is the current one of the tree. -/
  current : Option Nat
  loadedPdoPosition : Int
  pdoTable : List PdoRow
  freeRun : List FreeRunRow
  watch : Watch
  startup : List StartupRow
  ioVariableMetadata : QHash String Metadata
  deriving DecidableEq

def selectedPosition (e : Evidence) : Int := positionOf e.slaves e.current

/-! ## The topology -/

inductive TopologyBaselineIssueKind where
  | missingSlave
  | nameChanged
  | stateChanged
  | unexpectedSlave
  deriving DecidableEq, Repr

structure TopologyBaselineIssue where
  kind : TopologyBaselineIssueKind
  position : Int32
  deriving DecidableEq

/-- The slaves by their positions; the last one of a position counts. -/
def slaveAt (slaves : List SlaveInfo) (position : Int32) : Option SlaveInfo :=
  (slaves.filter fun slave => slave.position == position).getLast?

/-- mirrors apps/ecat-studio/models/TopologyModel.cpp:16-75 -/
def compareTopologyBaseline (baseline current : List SlaveInfo) : List TopologyBaselineIssue :=
  if baseline = [] then []
  else
    (baseline.flatMap fun expected =>
      match slaveAt current expected.position with
      | none => [⟨.missingSlave, expected.position⟩]
      | some actual =>
        (if actual.name ≠ expected.name then [⟨.nameChanged, expected.position⟩] else []) ++
          if expected.state ≠ "" ∧ actual.state ≠ "" ∧ actual.state ≠ expected.state then
            [⟨.stateChanged, expected.position⟩]
          else []) ++
      (current.filter fun slave => (slaveAt baseline slave.position).isNone).map fun slave =>
        ⟨.unexpectedSlave, slave.position⟩

inductive TopologyChangeKind where
  | added
  | nameChanged
  | stateChanged
  | flagsChanged
  | removed
  deriving DecidableEq, Repr

structure TopologyChange where
  kind : TopologyChangeKind
  position : Int32
  deriving DecidableEq

/-- mirrors apps/ecat-studio/models/TopologyModel.cpp:83-150 -/
def detectTopologyChanges (previous current : List SlaveInfo) : List TopologyChange :=
  if previous = [] then []
  else
    (current.flatMap fun slave =>
      match slaveAt previous slave.position with
      | none => [⟨.added, slave.position⟩]
      | some before =>
        (if before.name ≠ slave.name then [⟨.nameChanged, slave.position⟩] else []) ++
          (if before.state ≠ slave.state then [⟨.stateChanged, slave.position⟩] else []) ++
          if before.flags ≠ slave.flags then [⟨.flagsChanged, slave.position⟩] else []) ++
      (previous.filter fun slave => (slaveAt current slave.position).isNone).map fun slave =>
        ⟨.removed, slave.position⟩

/-! ## The table of variables -/

/-- Which table a row of the table of variables is from. -/
inductive SignalSource where
  | process
  | pdo
  | watch
  deriving DecidableEq, Repr

/-- What `appendRow` is given, the address in its normal form. -/
structure Signal where
  position : Int
  index : String
  subIndex : String
  source : SignalSource
  raw : String
  mapStatus : String
  deriving DecidableEq, Repr

def Signal.key (s : Signal) : String := ioVariableTableObjectKey s.position s.index s.subIndex

/-- `coveredObjects.contains(key)` -/
def covered (rows : List Signal) (key : String) : Bool := rows.any fun s => s.key == key

def appendRow (rows : List Signal) (position : Int) (index subIndex : String) (source : SignalSource)
    (raw mapStatus : String) : List Signal :=
  if position < 0 ∨ trimmed index = "" ∨ trimmed subIndex = "" then rows
  else rows ++ [⟨position, normalized index 4, normalized subIndex 2, source, raw, trimmed mapStatus⟩]

/-- The object of a row of the Watch or the Startup table. -/
def rowKey (position index subIndex : String) : Option String :=
  match toInt 10 (trimmed position).toList with
  | none => none
  | some position =>
    if position < 0 ∨ trimmed index = "" ∨ trimmed subIndex = "" then none
    else some (ioVariableTableObjectKey position (trimmed index) (trimmed subIndex))

def watchEntry (r : WatchTable.Row) : Option (String × String) :=
  (rowKey r.position r.index r.subIndex).map fun key => (key, trimmed r.value)

def watchByObject (rows : List WatchTable.Row) : QHash String String := QHash.insertEach watchEntry QHash.empty rows

def startupEntry (r : StartupRow) : Option (String × String × String) :=
  (rowKey r.position r.index r.subIndex).map fun key => (key, trimmed r.value, trimmed r.watchDelta)

def startupByObject (rows : List StartupRow) : QHash String (String × String) :=
  QHash.insertEach startupEntry QHash.empty rows

def appendFreeRunRow (rows : List Signal) (r : FreeRunRow) : List Signal :=
  match toInt 10 (trimmed r.position).toList with
  | none => rows
  | some position =>
    appendRow rows position (trimmed r.index) (trimmed r.subIndex) .process (trimmed r.raw) (trimmed r.mapStatus)

def appendWatchRow (rows : List Signal) (entry : String × String) : List Signal :=
  match parts entry.1 with
  | [position, index, subIndex] =>
    if covered rows entry.1 = true then rows
    else
      match toInt 10 position.toList with
      | none => rows
      | some position => appendRow rows position index subIndex .watch entry.2 ""
  | _ => rows

/-- A row of the table of variables, as it is read. -/
structure Variable where
  key : String
  raw : String
  watch : String
  startup : String
  mapStatus : String
  aliasName : String
  tags : String
  deriving DecidableEq, Repr

def startupText (startup : Option (String × String)) : String :=
  match startup with
  | none => ""
  | some (value, delta) => trimmed (if delta = "" then value else value ++ " | " ++ delta)

def variableOf (e : Evidence) (s : Signal) : Variable :=
  let watch := ((watchByObject e.watch.rows).value s.key).getD ""
  let metadata := e.ioVariableMetadata.value s.key
  { key := s.key
    raw := trimmed (if trimmed s.raw = "" ∧ s.source = .watch then watch else s.raw)
    watch := watch
    startup := startupText ((startupByObject e.startup).value s.key)
    mapStatus := s.mapStatus
    aliasName := trimmed ((metadata.map (·.aliasName)).getD "")
    tags := trimmed ((metadata.map (·.tags)).getD "") }

/-- The texts, whether a row of the table has a symbol of another quality than
ready, and two laws that hold in each language. -/
structure Language extends ProjectFile.Locale where
  plcIssue : List Variable → Variable → Bool
  lower_nil : toLower [] = []
  /-- A missing comparison does not read like a match. -/
  noWatch : toLower (trimmed (uiText "no watch")).toList ≠ "match".toList ∧ trimmed (uiText "no watch") ≠ "匹配"

section
variable (t : Language)

def appendPdoRow (position : Int) (rows : List Signal) (r : PdoRow) : List Signal :=
  let index := trimmed (String.ofList r.index)
  let subIndex := trimmed (String.ofList r.sub)
  if covered rows (ioVariableTableObjectKey position index subIndex) = true then rows
  else appendRow rows position index subIndex .pdo "" (t.uiText "PDO loaded")

/-- The rows of the Free Run table and, of the slave that is loaded, of the PDO
table. -/
def processSignals (e : Evidence) : List Signal :=
  let rows := e.freeRun.foldl appendFreeRunRow []
  if e.loadedPdoPosition = selectedPosition e then e.pdoTable.foldl (appendPdoRow t (selectedPosition e)) rows else rows

def signals (e : Evidence) : List Signal :=
  (watchByObject e.watch.rows).entries.foldl appendWatchRow (processSignals t e)

/-- mirrors apps/ecat-studio/workspaces/MainWindowIoVariableTable.cpp:4-185 -/
def ioVariableTable (e : Evidence) : List Variable := (signals t e).map (variableOf e)

/-! ## The list -/

inductive ConsistencyIssueLevel where
  | error
  | warning
  | ready
  | info
  | empty
  deriving DecidableEq, Repr

/-- A row of the list; objects are given by their keys. -/
inductive Issue where
  | noBaseline
  | topology (issue : TopologyBaselineIssue)
  | startupDiff (key : String)
  | mapIssue (key : String)
  | missingValue (key : String)
  | noAlias (key : String)
  | plcIssue (key : String)
  | offlineMetadata (key : String)
  | invalidStartupRow (row : Nat)
  | startupRowDiffers (key : String)
  | startupRowPending (key : String)
  | consistent
  deriving DecidableEq

def Issue.level : Issue → ConsistencyIssueLevel
  | .noBaseline => .warning
  | .topology issue => if issue.kind = .missingSlave then .error else .warning
  | .startupDiff _ => .error
  | .mapIssue _ => .warning
  | .missingValue _ => .warning
  | .noAlias _ => .info
  | .plcIssue _ => .info
  | .offlineMetadata _ => .warning
  | .invalidStartupRow _ => .error
  | .startupRowDiffers _ => .error
  | .startupRowPending _ => .warning
  | .consistent => .ready

/-- mirrors apps/ecat-studio/models/EvidenceModel.cpp:9-13 -/
def hasStartupDiffEvidence (status : String) : Bool :=
  let normalized := t.toLower (trimmed status).toList
  contains normalized "diff" || normalized == "不一致".toList || contains normalized "mismatch" ||
    contains normalized "不匹配" || contains normalized "偏差"

/-- mirrors apps/ecat-studio/models/EvidenceModel.cpp:16-20 -/
def hasPdoMapIssueEvidence (status : String) : Bool :=
  let normalized := t.toLower status.toList
  contains normalized "warning" || contains normalized "missing" || contains normalized "no pdo map" ||
    contains normalized "警告" || contains normalized "缺失" || contains normalized "无 pdo 映射"

def variableIssues (table : List Variable) (v : Variable) : List Issue :=
  (if hasStartupDiffEvidence t v.startup = true then [.startupDiff v.key] else []) ++
    (if hasPdoMapIssueEvidence t v.mapStatus = true then [.mapIssue v.key] else []) ++
    (if v.raw = "" ∧ v.watch = "" then [.missingValue v.key] else []) ++
    (if v.aliasName = "" ∧ contains (lower v.tags.toList) "ignore" = false then [.noAlias v.key] else []) ++
    if t.plcIssue table v = true then [.plcIssue v.key] else []

def metadataIssues (table : List Variable) (metadata : QHash String Metadata) : List Issue :=
  ((metadata.sorted keyLe).filter fun e => !table.any fun v => v.key == e.1).map fun e => .offlineMetadata e.1

/-- The texts of a match and of a comparison to come. -/
def isMatch (delta : String) : Prop := t.toLower delta.toList = "match".toList ∨ delta = "匹配"

def isPending (delta : String) : Prop := t.toLower delta.toList = "pending".toList ∨ delta = "待比较"

instance (delta : String) : Decidable (isMatch t delta) := inferInstanceAs (Decidable (_ ∨ _))

instance (delta : String) : Decidable (isPending t delta) := inferInstanceAs (Decidable (_ ∨ _))

def startupIssues (row : StartupRow × Nat) : List Issue :=
  match rowKey row.1.position row.1.index row.1.subIndex with
  | none => [.invalidStartupRow (row.2 + 1)]
  | some key =>
    let delta := trimmed row.1.watchDelta
    if delta ≠ "" ∧ ¬ isMatch t delta ∧ ¬ isPending t delta then [.startupRowDiffers key]
    else if delta = "" ∨ isPending t delta then [.startupRowPending key]
    else []

def topologyIssues (e : Evidence) : List Issue :=
  if e.topologyBaseline = [] then [.noBaseline]
  else (compareTopologyBaseline e.topologyBaseline e.slaves).map .topology

def issues (e : Evidence) : List Issue :=
  topologyIssues e ++ (ioVariableTable t e).flatMap (variableIssues t (ioVariableTable t e)) ++
    metadataIssues (ioVariableTable t e) e.ioVariableMetadata ++ e.startup.zipIdx.flatMap (startupIssues t)

/-- mirrors apps/ecat-studio/workspaces/MainWindowConsistency.cpp:11-244 -/
def matrix (e : Evidence) : List Issue := if issues t e = [] then [.consistent] else issues t e

/-! ## The gate -/

def levelText : ConsistencyIssueLevel → String
  | .error => t.uiText "Error"
  | .warning => t.uiText "Warning"
  | .ready => t.uiText "Ready"
  | .info => t.uiText "Info"
  | .empty => ""

/-- mirrors apps/ecat-studio/models/ConsistencyModel.cpp:9-24 -/
def consistencyIssueLevelFromText (level : String) : ConsistencyIssueLevel :=
  let normalized := t.toLower level.toList
  if contains normalized "error" = true ∨ contains normalized "错误" = true then .error
  else if contains normalized "warning" = true ∨ contains normalized "警告" = true then .warning
  else if contains normalized "ready" = true ∨ contains normalized "就绪" = true then .ready
  else if (trim normalized).isEmpty = true then .empty
  else .info

structure ConsistencyIssueCounts where
  errors : Nat
  warnings : Nat
  infos : Nat
  ready : Nat
  deriving DecidableEq, Repr

def addConsistencyIssueLevel (counts : ConsistencyIssueCounts) : ConsistencyIssueLevel → ConsistencyIssueCounts
  | .error => { counts with errors := counts.errors + 1 }
  | .warning => { counts with warnings := counts.warnings + 1 }
  | .ready => { counts with ready := counts.ready + 1 }
  | .info => { counts with infos := counts.infos + 1 }
  | .empty => counts

def consistencyTableIssueCounts (table : List String) : ConsistencyIssueCounts :=
  table.foldl (fun counts level => addConsistencyIssueLevel counts (consistencyIssueLevelFromText t (trimmed level)))
    ⟨0, 0, 0, 0⟩

def consistencyHasBlockingIssues (counts : ConsistencyIssueCounts) : Bool :=
  decide (0 < counts.errors) || decide (0 < counts.warnings)

inductive ConsistencyGateState where
  | notRun
  | stale
  | blocking
  | passed
  deriving DecidableEq, Repr

/-- mirrors apps/ecat-studio/models/ConsistencyModel.cpp:55-66 -/
def consistencyGateState (available fresh : Bool) (counts : ConsistencyIssueCounts) : ConsistencyGateState :=
  if available = false then .notRun
  else if fresh = false then .stale
  else if consistencyHasBlockingIssues counts = true then .blocking
  else .passed

structure Window where
  evidence : Evidence
  /-- The texts of the levels, its first column. -/
  consistencyTable : List String
  consistencyFresh : Bool
  deriving DecidableEq

def gate (s : Window) : ConsistencyGateState :=
  consistencyGateState (!s.consistencyTable.isEmpty) s.consistencyFresh
    (consistencyTableIssueCounts t s.consistencyTable)

/-! ## Operations -/

def updateConsistencyView (s : Window) : Window :=
  { s with consistencyTable := (matrix t s.evidence).map fun issue => levelText t issue.level, consistencyFresh := true }

/-- `updateIoVariableTable`, which clears the flag. -/
def changed (s : Window) (e : Evidence) : Window := { s with evidence := e, consistencyFresh := false }

def startupDelta (watch : List WatchTable.Row) (r : StartupRow) : String :=
  match rowKey r.position r.index r.subIndex with
  | none => ""
  | some key =>
    match (watchByObject watch).value key with
    | none => t.uiText "no watch"
    | some value =>
      if trimmed value = "" ∨ trimmed r.value = "" then deltaText t.toLocale .pending
      else if sdoValuesComparableEqual t.toLocale value (trimmed r.value) = true then deltaText t.toLocale .match_
      else deltaText t.toLocale .diff

/-- mirrors apps/ecat-studio/workspaces/MainWindowStartupSdoWorkspace.cpp:29-84 -/
def updateStartupSdoWatchEvidence (e : Evidence) : Evidence :=
  { e with startup := e.startup.map fun r => { r with watchDelta := startupDelta t e.watch.rows r } }

/-- `updateWatchAutoRefresh`, after the Watch table has changed. -/
def updateWatchAutoRefresh (s : Window) (watch : Watch) : Window :=
  changed s (updateStartupSdoWatchEvidence t { s.evidence with watch := watch })

/-- A new current item empties the PDO table.
mirrors apps/ecat-studio/workspaces/MainWindowTopologyUi.cpp:135-189 -/
def updateSlaves (s : Window) (slaves : List SlaveInfo) : Window :=
  let e := s.evidence
  let fresh := if detectTopologyChanges e.slaves slaves = [] then s.consistencyFresh else false
  if slaves = e.slaves then { s with consistencyFresh := fresh }
  else if slaves = [] then changed s { e with slaves := slaves, current := none }
  else
    changed s { e with
      slaves := slaves
      current := some ((itemOf slaves (selectedPosition e)).getD 0)
      loadedPdoPosition := -1
      pdoTable := [] }

/-- An entry of the telemetry. -/
structure TelemetryEntry where
  slave : Int32
  direction : String
  index : String
  subIndex : String
  bits : Int32
  rawValue : String
  deriving DecidableEq

def directionClass (text : String) : String :=
  let normalized := t.toLower (trimmed text).toList
  if contains normalized "rx" = true ∨ contains normalized "output" = true ∨ normalized = "out".toList then "rx"
  else if contains normalized "tx" = true ∨ contains normalized "input" = true ∨ normalized = "in".toList then "tx"
  else ""

def pdoMapEvidence (e : Evidence) (entry : TelemetryEntry) : String :=
  if e.pdoTable = [] then t.uiText "No PDO map"
  else if entry.slave.toInt ≠ selectedPosition e then t.uiText "Map not loaded for slave"
  else
    match e.pdoTable.find? fun r =>
      normalized (trimmed (String.ofList r.index)) 4 == normalized entry.index 4 &&
        normalized (trimmed (String.ofList r.sub)) 2 == normalized entry.subIndex 2 with
    | none => t.uiText "Missing in PDO map"
    | some r =>
      let mapPdo := trimmed (String.ofList r.pdo)
      let mapBits := intOf (trimmed (String.ofList r.bits))
      let runtimeDirection := directionClass t entry.direction
      let mapDirection := directionClass t mapPdo
      let mismatches :=
        (if runtimeDirection ≠ "" ∧ mapDirection ≠ "" ∧ runtimeDirection ≠ mapDirection then
          [t.uiText "direction mismatch"]
        else []) ++
          if 0 < entry.bits.toInt ∧ 0 < mapBits ∧ entry.bits.toInt ≠ mapBits then
            [arg (arg (t.uiText "bit mismatch %1/%2") (QString.number entry.bits.toInt)) (QString.number mapBits)]
          else []
      if mismatches = [] then t.uiText "Mapped" else arg (t.uiText "Mapped warning: %1") ("; ".intercalate mismatches)

/-- mirrors apps/ecat-studio/workspaces/MainWindowTopologyUi.cpp:486-617 -/
def freeRunRow (e : Evidence) (entry : TelemetryEntry) : FreeRunRow where
  position := QString.number entry.slave.toInt
  index := entry.index
  subIndex := entry.subIndex
  raw := entry.rawValue
  mapStatus := pdoMapEvidence t e entry

inductive Op where
  | check
  | scan (slaves : List SlaveInfo)
  | captureBaseline
  | clearBaseline
  | pdoListing (position : Int32) (text : List Char)
  | freeRun (entries : List TelemetryEntry)
  | sdoValue (position : Int32) (index subIndex value : String)
  | addCurrent (sdoIndex sdoSubIndex sdoValue : String)
  | addHistory (rows : List Source)
  | addBookmarks (rows : List Source)
  /-- The rows after an edit, whose queued update is delivered. -/
  | editStartup (rows : List ProjectFile.StartupRow)
  deriving DecidableEq

/-- History rows are added without `updateWatchAutoRefresh`. -/
def step (s : Window) : Op → Window
  | .check => updateConsistencyView t s
  | .scan slaves => updateSlaves s slaves
  | .captureBaseline =>
    if s.evidence.slaves = [] then s else changed s { s.evidence with topologyBaseline := s.evidence.slaves }
  | .clearBaseline => changed s { s.evidence with topologyBaseline := [] }
  | .pdoListing position text =>
    if position.toInt ≠ selectedPosition s.evidence then s
    else changed s { s.evidence with loadedPdoPosition := position.toInt, pdoTable := updatePdoTable text }
  | .freeRun entries => changed s { s.evidence with freeRun := entries.map (freeRunRow t s.evidence) }
  | .sdoValue position index subIndex value =>
    updateWatchAutoRefresh t s (updateWatchTableFromSdo s.evidence.watch position.toInt index subIndex value)
  | .addCurrent sdoIndex sdoSubIndex sdoValue =>
    if selectedPosition s.evidence < 0 ∨ trimmed sdoIndex = "" ∨ trimmed sdoSubIndex = "" then s
    else
      updateWatchAutoRefresh t s
        (addCurrentSdoToWatch s.evidence.watch (selectedPosition s.evidence) sdoIndex sdoSubIndex sdoValue)
  | .addHistory rows =>
    { s with evidence := { s.evidence with watch := addSelectedHistoryRowsToWatch s.evidence.watch rows } }
  | .addBookmarks rows =>
    if rows = [] then s else updateWatchAutoRefresh t s (addObjectBookmarkRowsToWatch s.evidence.watch rows)
  | .editStartup rows =>
    changed s (updateStartupSdoWatchEvidence t { s.evidence with startup := rows.map fun r => ⟨r, ""⟩ })

/-- A window in which nothing has been checked; its Startup rows are compared. -/
def opened (e : Evidence) : Window := ⟨updateStartupSdoWatchEvidence t e, [], false⟩

end

end NekoEcat.L4.Consistency
