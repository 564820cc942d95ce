import NekoEcat.Core.QHash
import NekoEcat.L4Gui.WatchTable

/-!
# Project files

`writeProjectFile` puts the tables of the main window into one JSON object and
`readProjectFile` takes them out again, section by section. Most sections are
emptied first. The Watch and the Startup table are replaced by a list of the file
that has rows, and stay as they are otherwise; the profiles of the masters too.

A window is what the file keeps of it, and the selected slave. The text of a
file and its object are the work of `QJsonDocument`.

* `selectedPosition_saved`, `selectedPosition_kept`: the slave selected after
  opening is that of the file, if it has it, and that of before, if the slaves
  are those of before.
* `openSlaves_eq`: the tables are read apart from the slaves.
-/
namespace NekoEcat.L4.ProjectFile
open NekoEcat.QJson NekoEcat.QNumber NekoEcat.QString NekoEcat.L4.SdoWrites
open NekoEcat.L4.WatchTable (tableObjectAddressMatches)

/-! ## The window -/

/-- The translated texts, Qt's case tables, and the difference of two numbers as
printed, which is computed in floating point. -/
structure Locale where
  uiText : String → String
  /-- A text without a translation stands for itself. -/
  project : trimmed (uiText "Project") = uiText "Project" ∧ uiText "Project" ≠ ""
  toLower : List Char → List Char
  /-- `compare(b, Qt::CaseInsensitive) == 0` -/
  sameFolded : String → String → Bool
  /-- `none`: one of the texts is no number. -/
  difference : String → String → Option String

structure SlaveInfo where
  position : Int32
  state : String
  flags : String
  name : String
  rawLine : String
  deriving DecidableEq

structure MasterProfile where
  name : String
  target : String
  deriving DecidableEq

/-- The columns of the Watch table. -/
structure WatchRow where
  time : String
  position : String
  index : String
  subIndex : String
  value : String
  decoded : String
  type : String
  mode : String
  baseline : String
  baselineDelta : String
  startup : String
  startupDelta : String
  deriving DecidableEq, Repr

/-- The columns of the Startup SDO table that are kept. -/
structure StartupRow where
  position : String
  index : String
  subIndex : String
  value : String
  type : String
  deriving DecidableEq, Repr

structure BookmarkRow where
  position : String
  slaveName : String
  index : String
  subIndex : String
  access : String
  type : String
  bits : String
  name : String
  lastValue : String
  source : String
  deriving DecidableEq, Repr

structure TrailRow where
  time : String
  position : String
  index : String
  subIndex : String
  type : String
  source : String
  value : String
  writeValue : String
  detail : String
  deriving DecidableEq, Repr

structure Evidence where
  value : String
  status : String
  detail : String
  time : String
  deriving DecidableEq

structure Metadata where
  aliasName : String
  tags : String
  note : String
  deriving DecidableEq

/-- The last answers, and the slaves whose answers are loaded. -/
structure Snapshots where
  master : String
  slaveInfo : String
  slaveInfoPosition : Int
  pdo : String
  pdoPosition : Int
  sdo : String
  sdoPosition : Int
  xml : String
  xmlPosition : Int
  deriving DecidableEq

structure Window where
  masters : List MasterProfile
  activeMaster : String
  slaves : List SlaveInfo
  /-- The slave whose item is the current one of the tree. -/
  current : Option Nat
  topologyBaseline : List SlaveInfo
  snapshots : Snapshots
  sdoEvidence : QHash String Evidence
  ioVariableMetadata : QHash String Metadata
  objectBookmarks : List BookmarkRow
  sdoTargetTrail : List TrailRow
  watch : List WatchRow
  startup : List StartupRow
  notes : String
  sdoIndex : String
  sdoSubIndex : String
  deriving DecidableEq

def positionOf (slaves : List SlaveInfo) (current : Option Nat) : Int :=
  match current.bind fun i => slaves[i]? with
  | some slave => slave.position.toInt
  | none => -1

/-- The item of the master has position `-1`. -/
def selectedPosition (w : Window) : Int := positionOf w.slaves w.current

theorem positionOf_cases (slaves : List SlaveInfo) (current : Option Nat) :
    positionOf slaves current = -1 ∨ ∃ slave ∈ slaves, positionOf slaves current = slave.position.toInt := by
  unfold positionOf
  cases h : current.bind fun i => slaves[i]? with
  | none => exact Or.inl rfl
  | some slave =>
    obtain ⟨i, -, hi⟩ := Option.bind_eq_some_iff.1 h
    exact Or.inr ⟨slave, List.mem_of_getElem? hi, rfl⟩

theorem selectedPosition_cases (w : Window) :
    selectedPosition w = -1 ∨ ∃ slave ∈ w.slaves, selectedPosition w = slave.position.toInt :=
  positionOf_cases w.slaves w.current

/-- `normalizeHexText(text, minimumDigits)` -/
def normalized (text : String) (minimumDigits : Nat) : String :=
  String.ofList (normalizeHexText text.toList minimumDigits)

/-- `text.toInt()` -/
def intOf (text : String) : Int := (toInt 10 text.toList).getD 0

/-- `value(key).toString()` -/
def text (o : QJsonObject) (key : String) : String := toStringD (value o key) ""

/-- mirrors apps/ecat-studio/models/ProcessDataRowModel.cpp:217-222 -/
def ioVariableTableObjectKey (position : Int) (index subIndex : String) : String :=
  if position < 0 ∨ trimmed index = "" ∨ trimmed subIndex = "" then ""
  else sdoEvidenceKey position index subIndex

/-! ## Writing -/

def slaveObject (slave : SlaveInfo) : QJsonValue :=
  .object (ofList [("position", .int slave.position.toInt), ("state", .string slave.state),
    ("flags", .string slave.flags), ("name", .string slave.name), ("rawLine", .string slave.rawLine)])

def WatchRow.cells (r : WatchRow) : List String :=
  [r.time, r.position, r.index, r.subIndex, r.value, r.decoded, r.type, r.mode, r.baseline, r.baselineDelta,
    r.startup, r.startupDelta]

def watchArray (r : WatchRow) : QJsonValue := .array (r.cells.map .string)

def startupObject (r : StartupRow) : QJsonValue :=
  .object (ofList [("position", .int (intOf r.position)), ("index", .string r.index),
    ("subIndex", .string r.subIndex), ("value", .string r.value), ("type", .string r.type)])

/-- The cells are read trimmed, the addresses in their normal form.
mirrors apps/ecat-studio/adapters/SdoEvidenceTableAdapter.cpp:201-219 -/
def trailObject (r : TrailRow) : Option QJsonValue :=
  let index := normalized (trimmed r.index) 4
  let subIndex := normalized (trimmed r.subIndex) 2
  if trimmed index = "" ∨ trimmed subIndex = "" then none
  else
    some (.object (ofList [("time", .string (trimmed r.time)), ("position", .int (intOf (trimmed r.position))),
      ("index", .string index), ("subIndex", .string subIndex), ("type", .string (trimmed r.type)),
      ("source", .string (trimmed r.source)), ("value", .string (trimmed r.value)),
      ("writeValue", .string (trimmed r.writeValue)), ("detail", .string (trimmed r.detail))]))

/-- mirrors apps/ecat-studio/adapters/SdoEvidenceTableAdapter.cpp:269-293 -/
def bookmarkObject (r : BookmarkRow) : Option QJsonValue :=
  let index := normalized (trimmed r.index) 4
  let subIndex := normalized (trimmed r.subIndex) 2
  if trimmed index = "" ∨ trimmed subIndex = "" then none
  else
    some (.object (ofList [("position", .int (intOf (trimmed r.position))), ("slave", .string (trimmed r.slaveName)),
      ("index", .string index), ("subIndex", .string subIndex), ("access", .string (trimmed r.access)),
      ("type", .string (trimmed r.type)), ("bits", .string (trimmed r.bits)), ("name", .string (trimmed r.name)),
      ("lastValue", .string (trimmed r.lastValue)), ("source", .string (trimmed r.source))]))

def masterObject (profile : MasterProfile) : QJsonValue :=
  .object (ofList [("name", .string profile.name), ("target", .string profile.target)])

/-- The UTF-16 code units, by which `QString`s are ordered. -/
def utf16 (s : String) : List Nat :=
  s.toList.flatMap fun c =>
    if c.toNat < 0x10000 then [c.toNat]
    else [0xd800 + (c.toNat - 0x10000) / 0x400, 0xdc00 + (c.toNat - 0x10000) % 0x400]

def keyLe (a b : String) : Bool := decide (utf16 a ≤ utf16 b)

def evidenceObject (e : String × Evidence) : QJsonValue :=
  .object (ofList [("key", .string e.1), ("value", .string e.2.value), ("status", .string e.2.status),
    ("detail", .string e.2.detail), ("time", .string e.2.time)])

/-- `key.split('|')` -/
def parts (key : String) : List String := (key.toList.splitOn '|').map String.ofList

def metadataObject (e : String × Metadata) : Option QJsonValue :=
  match parts e.1 with
  | [position, index, subIndex] =>
    if trimmed e.2.aliasName = "" ∧ trimmed e.2.tags = "" ∧ trimmed e.2.note = "" then none
    else
      some (.object (ofList [("position", .int (intOf position)), ("index", .string index),
        ("subIndex", .string subIndex), ("alias", .string e.2.aliasName), ("tags", .string e.2.tags),
        ("note", .string e.2.note)]))
  | _ => none

def snapshotsObject (s : Snapshots) : QJsonValue :=
  .object (ofList [("master", .string s.master), ("slaveInfo", .string s.slaveInfo),
    ("slaveInfoPosition", .int s.slaveInfoPosition), ("pdo", .string s.pdo), ("pdoPosition", .int s.pdoPosition),
    ("sdo", .string s.sdo), ("sdoPosition", .int s.sdoPosition), ("xml", .string s.xml),
    ("xmlPosition", .int s.xmlPosition)])

/-- `name` is that of the file and `savedAt` the time.
mirrors apps/ecat-studio/workspaces/MainWindowProjectIo.cpp:77-263 -/
def writeProjectFile (w : Window) (name savedAt : String) : QJsonObject :=
  ofList [("format", .string "NekoEcatStudioProject"),
    ("version", .int 1),
    ("name", .string name),
    ("savedAt", .string savedAt),
    ("selectedPosition", .int (selectedPosition w)),
    ("activeMaster", .string w.activeMaster),
    ("masters", .array (w.masters.map masterObject)),
    ("sdoIndex", .string w.sdoIndex),
    ("sdoSubIndex", .string w.sdoSubIndex),
    ("sdoEvidence", .array ((w.sdoEvidence.sorted keyLe).map evidenceObject)),
    ("slaves", .array (w.slaves.map slaveObject)),
    ("topologyBaseline", .array (w.topologyBaseline.map slaveObject)),
    ("watch", .array (w.watch.map watchArray)),
    ("sdoTargetTrail", .array (w.sdoTargetTrail.filterMap trailObject)),
    ("objectBookmarks", .array (w.objectBookmarks.filterMap bookmarkObject)),
    ("ioVariables", .array ((w.ioVariableMetadata.sorted keyLe).filterMap metadataObject)),
    ("startupSdos", .array (w.startup.map startupObject)),
    ("notes", .string w.notes),
    ("snapshots", snapshotsObject w.snapshots)]

/-! ## Reading -/

def readMaster (v : QJsonValue) : Option MasterProfile :=
  let object := toObject v
  let name := text object "name"
  let target := trimmed (text object "target")
  if target = "" then none
  else some ⟨if name = "" then arg "Master %1" target else name, target⟩

def readMasters (root : QJsonObject) : List MasterProfile := (toArray (value root "masters")).filterMap readMaster

def readActiveMaster (root : QJsonObject) (activeMaster : String) : String :=
  if contains root "activeMaster" = true then
    let read := trimmed (toStringD (value root "activeMaster") activeMaster)
    if read = "" then "0" else read
  else activeMaster

def readSlave (v : QJsonValue) : SlaveInfo :=
  let object := toObject v
  ⟨Int32.ofInt (toIntD (value object "position") 0), text object "state", text object "flags", text object "name",
    text object "rawLine"⟩

def readSlaves (root : QJsonObject) (key : String) : List SlaveInfo := (toArray (value root key)).map readSlave

/-- mirrors apps/ecat-studio/workspaces/MainWindowStateMachine.cpp:588-596 -/
def beginSelectedSlaveOnlineLoad (s : Snapshots) : Snapshots :=
  { s with
    slaveInfo := "", slaveInfoPosition := -1, pdo := "", pdoPosition := -1
    sdo := "", sdoPosition := -1, xml := "", xmlPosition := -1 }

/-- A new current item selects its slave. -/
def setCurrentItem (w : Window) (child : Nat) : Window :=
  if w.current = some child then w
  else { w with current := some child, snapshots := beginSelectedSlaveOnlineLoad w.snapshots }

/-- The first item with the position. -/
def itemOf (slaves : List SlaveInfo) (position : Int) : Option Nat :=
  slaves.findIdx? fun slave => slave.position.toInt == position

/-- mirrors apps/ecat-studio/workspaces/MainWindowTopologyUi.cpp:135-189 -/
def updateSlaves (w : Window) (slaves : List SlaveInfo) : Window :=
  if slaves = w.slaves then w
  else
    let w' := { w with slaves := slaves, current := none }
    if slaves = [] then w' else setCurrentItem w' ((itemOf slaves (selectedPosition w)).getD 0)

def savedPosition (root : QJsonObject) : Int := toIntD (value root "selectedPosition") (-1)

def restoreSelection (w : Window) (saved : Int) : Window :=
  if 0 ≤ saved then
    match itemOf w.slaves saved with
    | some child => setCurrentItem w child
    | none => w
  else w

/-- The slave whose answer is kept under `key`; files of older versions have one
position for all. -/
def snapshotPosition (root : QJsonObject) (key : String) : Int :=
  let snapshots := toObject (value root "snapshots")
  if contains snapshots key = true then toIntD (value snapshots key) (-1) else savedPosition root

def snapshotText (root : QJsonObject) (key : String) : String := text (toObject (value root "snapshots")) key

def loadedPosition (root : QJsonObject) (selected : Int) (key positionKey : String) : Int :=
  if snapshotText root key ≠ "" ∧ snapshotPosition root positionKey = selected then snapshotPosition root positionKey
  else -1

def readSnapshots (root : QJsonObject) (selected : Int) : Snapshots where
  master := snapshotText root "master"
  slaveInfo := snapshotText root "slaveInfo"
  slaveInfoPosition := loadedPosition root selected "slaveInfo" "slaveInfoPosition"
  pdo := snapshotText root "pdo"
  pdoPosition := loadedPosition root selected "pdo" "pdoPosition"
  sdo := snapshotText root "sdo"
  sdoPosition := loadedPosition root selected "sdo" "sdoPosition"
  xml := snapshotText root "xml"
  xmlPosition := loadedPosition root selected "xml" "xmlPosition"

def readEvidence (v : QJsonValue) : Option (String × Evidence) :=
  let object := toObject v
  let key := trimmed (text object "key")
  if key = "" then none
  else some (key, ⟨text object "value", text object "status", text object "detail", text object "time"⟩)

def readMetadata (v : QJsonValue) : Option (String × Metadata) :=
  let object := toObject v
  let position := toIntD (value object "position") (-1)
  let key := ioVariableTableObjectKey position (text object "index") (text object "subIndex")
  let aliasName := trimmed (text object "alias")
  let tags := trimmed (text object "tags")
  let note := trimmed (text object "note")
  if 0 ≤ position ∧ key ≠ "" ∧ (aliasName ≠ "" ∨ tags ≠ "" ∨ note ≠ "") then some (key, ⟨aliasName, tags, note⟩)
  else none

section
variable (t : Locale)

def slaveNameAt (slaves : List SlaveInfo) (position : Int) : String :=
  match slaves.find? fun slave => slave.position.toInt == position with
  | some slave => slave.name
  | none => ""

/-- The row takes the place of the first one of its address. -/
def placeBookmark (rows : List BookmarkRow) (position : Int) (values : BookmarkRow) : List BookmarkRow :=
  match rows.findIdx? fun r =>
    tableObjectAddressMatches ⟨r.position, r.index, r.subIndex, r.lastValue⟩ position values.index values.subIndex with
  | some row => rows.set row values
  | none => rows ++ [values]

/-- mirrors apps/ecat-studio/workspaces/MainWindowSdoBookmarks.cpp:196-243 -/
def addObjectBookmark (slaves : List SlaveInfo) (rows : List BookmarkRow) (position : Int)
    (index subIndex access type bits name lastValue source : String) : List BookmarkRow :=
  if position < 0 ∨ trimmed index = "" ∨ trimmed subIndex = "" then rows
  else
    placeBookmark rows position {
      position := QString.number position
      slaveName := slaveNameAt slaves position
      index := normalized index 4
      subIndex := normalized subIndex 2
      access := access
      type := type
      bits := bits
      name := name
      lastValue := lastValue
      source := if trimmed source = "" then t.uiText "Project" else source }

def readBookmark (slaves : List SlaveInfo) (rows : List BookmarkRow) (v : QJsonValue) : List BookmarkRow :=
  let object := toObject v
  let index := trimmed (text object "index")
  let subIndex := trimmed (text object "subIndex")
  if index = "" ∨ subIndex = "" then rows
  else
    addObjectBookmark t slaves rows (toIntD (value object "position") (-1)) index subIndex (text object "access")
      (text object "type") (text object "bits") (text object "name") (text object "lastValue") (text object "source")

def readBookmarks (root : QJsonObject) (slaves : List SlaveInfo) : List BookmarkRow :=
  (toArray (value root "objectBookmarks")).foldl (readBookmark t slaves) []

def readTrailRow (v : QJsonValue) : Option TrailRow :=
  let object := toObject v
  let index := trimmed (text object "index")
  let subIndex := trimmed (text object "subIndex")
  if index = "" ∨ subIndex = "" then none
  else
    some {
      time := text object "time"
      position := QString.number (toIntD (value object "position") (-1))
      index := normalized index 4
      subIndex := normalized subIndex 2
      type := text object "type"
      source := text object "source"
      value := text object "value"
      writeValue := text object "writeValue"
      detail := text object "detail" }

def readTrail (root : QJsonObject) : List TrailRow := (toArray (value root "sdoTargetTrail")).filterMap readTrailRow

/-- Rows of six and of seven columns are of older versions. -/
def migrated : List String → List String
  | [c0, c1, c2, c3, c4, c5] => [c0, c1, c2, c3, c4, "", "", c5, "", ""]
  | [c0, c1, c2, c3, c4, c5, c6] => [c0, c1, c2, c3, c4, "", c5, c6, "", ""]
  | cells => cells

def watchRowOf (cells : List String) : WatchRow :=
  let cell := fun column => cells.getD column ""
  ⟨cell 0, cell 1, cell 2, cell 3, cell 4, cell 5, cell 6, cell 7, cell 8, cell 9, cell 10, cell 11⟩

def readWatchRow (v : QJsonValue) : WatchRow := watchRowOf (migrated ((toArray v).map fun cell => toStringD cell ""))

def readWatch (root : QJsonObject) : List WatchRow := (toArray (value root "watch")).map readWatchRow

/-- mirrors apps/ecat-studio/workspaces/MainWindowWatchWorkspace.cpp:550-627 -/
def updateWatchBaselineDelta (r : WatchRow) : WatchRow :=
  let current := trimmed r.value
  let baseline := trimmed r.baseline
  let delta :=
    if current = "" ∨ baseline = "" then ""
    else
      match t.difference current baseline with
      | some delta => delta
      | none => if t.sameFolded current baseline = true then t.uiText "match" else t.uiText "changed"
  { r with baselineDelta := delta }

inductive WatchStartupDeltaState where
  | noTarget
  | noStartup
  | pending
  | match_
  | diff
  deriving DecidableEq, Repr

structure WatchStartupWatchMatch where
  state : WatchStartupDeltaState
  expectedValue : String
  matchingStartupRows : Nat

def parsedPosition (text : String) : Int := (toInt 10 (trimmed text).toList).getD (-1)

def watchStartupHasTarget (position : Int) (index subIndex : String) : Bool :=
  decide (0 ≤ position) && trimmed index != "" && trimmed subIndex != ""

def watchStartupTargetKey (position : Int) (index subIndex : String) : String :=
  sdoEvidenceKey position (normalized index 4) (normalized subIndex 2)

/-- mirrors apps/ecat-studio/utils/TextHelpers.cpp:25-27 -/
def normalizeComparableValue (value : String) : List Char := t.toLower ((trimmed value).toList.filter (· != ' '))

/-- mirrors apps/ecat-studio/models/SdoEvidenceModel.cpp:39-43 -/
def sdoValuesComparableEqual (left right : String) : Bool :=
  !(normalizeComparableValue t left).isEmpty && normalizeComparableValue t left == normalizeComparableValue t right

/-- The Startup rows of the object of a Watch row; the last one gives the value.
mirrors apps/ecat-studio/models/WatchStartupModel.cpp:20-49 -/
def watchStartupMatchForWatchRow (startup : List StartupRow) (r : WatchRow) : WatchStartupWatchMatch :=
  let position := parsedPosition r.position
  if watchStartupHasTarget position (trimmed r.index) (trimmed r.subIndex) = true then
    let key := watchStartupTargetKey position (trimmed r.index) (trimmed r.subIndex)
    let rows := startup.filter fun s =>
      watchStartupHasTarget (parsedPosition s.position) (trimmed s.index) (trimmed s.subIndex) &&
        watchStartupTargetKey (parsedPosition s.position) (trimmed s.index) (trimmed s.subIndex) == key
    match rows.getLast? with
    | none => ⟨.noStartup, "", 0⟩
    | some row =>
      let expected := trimmed row.value
      let state :=
        if trimmed r.value = "" ∨ expected = "" then .pending
        else if sdoValuesComparableEqual t (trimmed r.value) expected = true then .match_
        else .diff
      ⟨state, expected, rows.length⟩
  else ⟨.noTarget, "", 0⟩

def deltaText : WatchStartupDeltaState → String
  | .pending => t.uiText "pending"
  | .match_ => t.uiText "match"
  | _ => t.uiText "diff"

/-- mirrors apps/ecat-studio/workspaces/MainWindowWatchWorkspace.cpp:643-676 -/
def updateWatchStartupDelta (startup : List StartupRow) (r : WatchRow) : WatchRow :=
  let found := watchStartupMatchForWatchRow t startup r
  if found.state = .noTarget ∨ found.state = .noStartup then { r with startup := "", startupDelta := "" }
  else
    { r with
      startup :=
        if 1 < found.matchingStartupRows then
          arg (arg (t.uiText "%1 (%2 startup rows)") found.expectedValue) (QString.number found.matchingStartupRows)
        else found.expectedValue
      startupDelta := deltaText t found.state }

def readStartupRow (v : QJsonValue) : StartupRow :=
  let object := toObject v
  ⟨QString.number (toIntD (value object "position") 0), text object "index", text object "subIndex",
    text object "value", text object "type"⟩

def readStartup (root : QJsonObject) : List StartupRow := (toArray (value root "startupSdos")).map readStartupRow

def openedStartup (root : QJsonObject) (startup : List StartupRow) : List StartupRow :=
  if readStartup root = [] then startup else readStartup root

/-- The Watch table is read before the Startup table and compared with the one
that is there; with a Startup table that is read it is compared again. -/
def openedWatch (root : QJsonObject) (watch : List WatchRow) (startup : List StartupRow) : List WatchRow :=
  let rows :=
    if readWatch root = [] then watch
    else (readWatch root).map fun r => updateWatchStartupDelta t startup (updateWatchBaselineDelta t r)
  if readStartup root = [] then rows else rows.map (updateWatchStartupDelta t (readStartup root))

def Accepted (root : QJsonObject) : Prop :=
  text root "format" = "NekoEcatStudioProject" ∨ text root "format" = "EtherCATStudioProject"

instance (root : QJsonObject) : Decidable (Accepted root) := inferInstanceAs (Decidable (_ ∨ _))

/-- The window with the masters, the slaves and the selection of the file. -/
def openSlaves (w : Window) (root : QJsonObject) : Window :=
  let w := { w with
    masters := if readMasters root = [] then w.masters else readMasters root
    activeMaster := readActiveMaster root w.activeMaster }
  restoreSelection (updateSlaves w (readSlaves root "slaves")) (savedPosition root)

/-- The window after the rest of the file. -/
def openSections (w : Window) (root : QJsonObject) : Window :=
  { w with
    topologyBaseline := readSlaves root "topologyBaseline"
    snapshots := readSnapshots root (selectedPosition w)
    sdoEvidence := QHash.insertEach readEvidence QHash.empty (toArray (value root "sdoEvidence"))
    ioVariableMetadata := QHash.insertEach readMetadata QHash.empty (toArray (value root "ioVariables"))
    objectBookmarks := readBookmarks t root w.slaves
    sdoTargetTrail := readTrail root
    watch := openedWatch t root w.watch w.startup
    startup := openedStartup root w.startup
    notes := text root "notes"
    sdoIndex := toStringD (value root "sdoIndex") "0x1000"
    sdoSubIndex := toStringD (value root "sdoSubIndex") "0x00" }

/-- A text that is no JSON object is no document.
mirrors apps/ecat-studio/workspaces/MainWindowProjectIo.cpp:267-567 -/
def readProjectFile (w : Window) (document : Option QJsonObject) : Option Window :=
  match document with
  | none => none
  | some root => if Accepted root then some (openSections t (openSlaves w root) root) else none

end

/-! ## Slaves and selection -/

section
variable {w : Window} {root : QJsonObject}

theorem setCurrentItem_eq (w : Window) (child : Nat) :
    ∃ snapshots, setCurrentItem w child = { w with current := some child, snapshots := snapshots } := by
  unfold setCurrentItem
  split
  · rename_i h
    exact ⟨w.snapshots, by rw [← h]⟩
  · exact ⟨_, rfl⟩

theorem updateSlaves_eq (w : Window) (slaves : List SlaveInfo) :
    ∃ current snapshots,
      updateSlaves w slaves = { w with slaves := slaves, current := current, snapshots := snapshots } := by
  unfold updateSlaves
  split
  · rename_i h
    exact ⟨w.current, w.snapshots, by rw [h]⟩
  · dsimp only
    split
    · exact ⟨none, w.snapshots, rfl⟩
    · obtain ⟨snapshots, h⟩ := setCurrentItem_eq { w with slaves := slaves, current := none }
        ((itemOf slaves (selectedPosition w)).getD 0)
      exact ⟨_, snapshots, h⟩

theorem restoreSelection_eq (w : Window) (saved : Int) :
    ∃ current snapshots, restoreSelection w saved = { w with current := current, snapshots := snapshots } := by
  unfold restoreSelection
  split
  · split
    · rename_i child _
      obtain ⟨snapshots, h⟩ := setCurrentItem_eq w child
      exact ⟨some child, snapshots, h⟩
    · exact ⟨w.current, w.snapshots, rfl⟩
  · exact ⟨w.current, w.snapshots, rfl⟩

/-- Opening the slaves of a file leaves the tables alone. -/
theorem openSlaves_eq (w : Window) (root : QJsonObject) :
    ∃ current snapshots, openSlaves w root = { w with
      masters := if readMasters root = [] then w.masters else readMasters root
      activeMaster := readActiveMaster root w.activeMaster
      slaves := readSlaves root "slaves"
      current := current
      snapshots := snapshots } := by
  unfold openSlaves
  dsimp only
  obtain ⟨c, ss, hu⟩ := updateSlaves_eq { w with
    masters := if readMasters root = [] then w.masters else readMasters root
    activeMaster := readActiveMaster root w.activeMaster } (readSlaves root "slaves")
  rw [hu]
  obtain ⟨c', ss', hr⟩ := restoreSelection_eq _ (savedPosition root)
  exact ⟨c', ss', hr⟩

theorem openSlaves_slaves (w : Window) (root : QJsonObject) : (openSlaves w root).slaves = readSlaves root "slaves" := by
  obtain ⟨c, ss, h⟩ := openSlaves_eq w root
  rw [h]

theorem selectedPosition_restored {saved : Int} (hs : 0 ≤ saved)
    (h : ∃ slave ∈ w.slaves, slave.position.toInt = saved) : selectedPosition (restoreSelection w saved) = saved := by
  cases hi : itemOf w.slaves saved with
  | none =>
    obtain ⟨slave, hmem, hp⟩ := h
    have hno := List.findIdx?_eq_none_iff.1 hi slave hmem
    simp [hp] at hno
  | some child =>
    obtain ⟨hlt, hp, -⟩ := List.findIdx?_eq_some_iff_getElem.1 hi
    obtain ⟨snapshots, hc⟩ := setCurrentItem_eq w child
    simp only [restoreSelection, if_pos hs, hi, hc, selectedPosition, positionOf, Option.bind_some,
      List.getElem?_eq_getElem hlt]
    exact beq_iff_eq.1 hp

/-- The saved slave is selected if it is there. -/
theorem selectedPosition_saved (hs : 0 ≤ savedPosition root)
    (h : ∃ slave ∈ readSlaves root "slaves", slave.position.toInt = savedPosition root) (w : Window) :
    selectedPosition (openSlaves w root) = savedPosition root := by
  unfold openSlaves
  dsimp only
  obtain ⟨c, ss, hu⟩ := updateSlaves_eq { w with
    masters := if readMasters root = [] then w.masters else readMasters root
    activeMaster := readActiveMaster root w.activeMaster } (readSlaves root "slaves")
  rw [hu]
  exact selectedPosition_restored hs h

/-- A window that has the slaves already keeps its selection, if the saved slave
is not there. -/
theorem selectedPosition_kept (hw : w.slaves = readSlaves root "slaves")
    (h : savedPosition root < 0 ∨ ∀ slave ∈ readSlaves root "slaves", slave.position.toInt ≠ savedPosition root) :
    selectedPosition (openSlaves w root) = selectedPosition w := by
  unfold openSlaves updateSlaves
  dsimp only
  rw [if_pos hw.symm, restoreSelection]
  split
  · rename_i hs
    have hnone : itemOf w.slaves (savedPosition root) = none := by
      rw [itemOf, List.findIdx?_eq_none_iff]
      intro slave hmem
      rw [hw] at hmem
      rcases h with h | h
      · omega
      · simpa using h slave hmem
    simp only [hnone]
    rfl
  · rfl

end

end NekoEcat.L4.ProjectFile
