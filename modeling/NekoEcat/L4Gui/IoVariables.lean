import NekoEcat.L4Gui.ConsistencyGate

/-!
# The table of I/O variables

The rows of the Free Run table come first, then those of the PDO map and of the
Watch table whose object no row has yet. Objects are told apart by a key, the
position and the normal forms of index and subindex with `|` between them. The
rows of the PDO map count while it is the map of the slave that is selected.

* `updateIoVariableTable`: the rows.
* `tableArgs_signal`, `variable_cells`: the consistency check reads off these
  rows.

Limitations: the quality of the PLC symbol and the colours, which are set when
the rows stand, are left out.
-/
namespace NekoEcat.L4.IoVariables
open NekoEcat.QNumber NekoEcat.QString NekoEcat.L4.SdoWrites NekoEcat.L4.ProjectFile
open NekoEcat.L4.Consistency (Language SignalSource Signal Variable contains rowKey)
open NekoEcat.L4.PdoListing (PdoRow)

/-! ## The tables -/

/-- The columns of the Free Run table, and the mark of a row that has changed. -/
structure FreeRunRow extends Consistency.FreeRunRow where
  direction : String
  pdo : String
  bits : String
  symbol : String
  decoded : String
  meaning : String
  changed : Bool
  deriving DecidableEq, Repr

structure Tables where
  loadedPdoPosition : Int32
  selectedPosition : Int32
  freeRun : List FreeRunRow
  pdoTable : List PdoRow
  watch : List WatchRow
  watchChangedKeys : List String
  startup : List Consistency.StartupRow
  ioVariableMetadata : QHash String Metadata
  deriving DecidableEq

/-- A row of the table of I/O variables. The column `plc` is filled in later. -/
structure Row where
  position : String
  direction : String
  symbol : String
  index : String
  subIndex : String
  bits : String
  pdo : String
  source : String
  raw : String
  decoded : String
  meaning : String
  watch : String
  startup : String
  mapStatus : String
  changed : String
  plc : String
  aliasName : String
  tags : String
  note : String
  deriving DecidableEq, Repr

/-- What is kept of a Watch row; `meaning` is the text of its mode. -/
structure WatchEvidence where
  value : String
  decoded : String
  type : String
  meaning : String
  changed : String
  deriving DecidableEq, Repr

/-- What `appendRow` is given. -/
structure Args where
  position : Int
  direction : String
  symbol : String
  index : String
  subIndex : String
  bits : String
  pdo : String
  source : SignalSource
  raw : String
  decoded : String
  meaning : String
  mapStatus : String
  changed : Bool
  deriving DecidableEq, Repr

def Args.key (a : Args) : String :=
  ioVariableTableObjectKey a.position (normalized a.index 4) (normalized a.subIndex 2)

/-- The rows that `appendRow` takes. -/
def Args.Targeted (a : Args) : Prop := 0 ≤ a.position ∧ trimmed a.index ≠ "" ∧ trimmed a.subIndex ≠ ""

instance (a : Args) : Decidable a.Targeted := inferInstanceAs (Decidable (_ ∧ _))

/-- `coveredObjects.contains(key)` -/
def covered (rows : List Args) (key : String) : Bool := rows.any fun a => a.key == key

def appendRow (rows : List Args) (a : Args) : List Args :=
  if a.position < 0 ∨ trimmed a.index = "" ∨ trimmed a.subIndex = "" then rows else rows ++ [a]

section
variable (t : Language)

def directionText (text : String) : String :=
  let normalized := t.toLower (trimmed text).toList
  if contains normalized "rx" = true ∨ contains normalized "output" = true ∨ normalized = "out".toList then
    t.uiText "Rx Output"
  else if contains normalized "tx" = true ∨ contains normalized "input" = true ∨ normalized = "in".toList then
    t.uiText "Tx Input"
  else if trimmed text = "" then t.uiText "SDO"
  else trimmed text

def inferredType (bitsText : String) : String :=
  match toInt 10 (trimmed bitsText).toList with
  | none => ""
  | some bits =>
    if bits ≤ 0 then ""
    else if bits = 1 then "bool"
    else if bits ≤ 8 then "uint8"
    else if bits ≤ 16 then "uint16"
    else if bits ≤ 32 then "uint32"
    else "uint64"

def sourceText : SignalSource → String
  | .process => t.uiText "Process"
  | .pdo => t.uiText "PDO"
  | .watch => t.uiText "Watch"

def yes (changed : Bool) : String := if changed = true then t.uiText "Yes" else ""

/-! ## The hash maps -/

def watchEntry (tables : Tables) (r : WatchRow) : Option (String × WatchEvidence) :=
  (rowKey r.position r.index r.subIndex).map fun key =>
    (key, { value := trimmed r.value
            decoded := trimmed r.decoded
            type := trimmed r.type
            meaning := trimmed r.mode
            changed := yes t (decide (key ∈ tables.watchChangedKeys)) })

def watchByObject (tables : Tables) : QHash String WatchEvidence :=
  QHash.insertEach (watchEntry t tables) QHash.empty tables.watch

def startupByObject (tables : Tables) : QHash String (String × String) := Consistency.startupByObject tables.startup

/-! ## The rows -/

/-- The cells of a row that is appended. -/
def cells (tables : Tables) (a : Args) : Row :=
  let watch := ((watchByObject t tables).value a.key).getD ⟨"", "", "", "", ""⟩
  let metadata := (tables.ioVariableMetadata.value a.key).getD ⟨"", "", ""⟩
  let raw := if trimmed a.raw = "" ∧ a.source = .watch then watch.value else a.raw
  let decoded := if trimmed a.decoded = "" then watch.decoded else a.decoded
  let meaning := if trimmed a.meaning = "" then decoded else a.meaning
  let type := if watch.type = "" then inferredType a.bits else watch.type
  let index := normalized a.index 4
  let subIndex := normalized a.subIndex 2
  { position := QString.number a.position
    direction := directionText t a.direction
    symbol := if trimmed a.symbol = "" then index ++ ":" ++ subIndex else trimmed a.symbol
    index := index
    subIndex := subIndex
    bits := trimmed a.bits
    pdo := trimmed a.pdo
    source := if type = "" then sourceText t a.source else sourceText t a.source ++ " | " ++ type
    raw := trimmed raw
    decoded := trimmed decoded
    meaning := trimmed meaning
    watch := watch.value
    startup :=
      match (startupByObject tables).value a.key with
      | none => ""
      | some (value, delta) => if delta = "" then value else value ++ " | " ++ delta
    mapStatus := trimmed a.mapStatus
    changed := yes t (a.changed || watch.changed != "")
    plc := ""
    aliasName := metadata.aliasName
    tags := metadata.tags
    note := metadata.note }

def freeRunArgs (r : FreeRunRow) : Option Args :=
  (toInt 10 (trimmed r.position).toList).map fun position =>
    { position := position
      direction := trimmed r.direction
      symbol := trimmed r.symbol
      index := trimmed r.index
      subIndex := trimmed r.subIndex
      bits := trimmed r.bits
      pdo := trimmed r.pdo
      source := .process
      raw := trimmed r.raw
      decoded := trimmed r.decoded
      meaning := trimmed r.meaning
      mapStatus := trimmed r.mapStatus
      changed := r.changed }

def appendFreeRunRow (rows : List Args) (r : FreeRunRow) : List Args :=
  match freeRunArgs r with
  | none => rows
  | some a => appendRow rows a

/-- A text of the listing, as `tableText` reads it. -/
def listed (cs : List Char) : String := trimmed (String.ofList cs)

def pdoArgs (position : Int) (r : PdoRow) : Args where
  position := position
  direction := listed r.pdo
  symbol := listed r.name
  index := listed r.index
  subIndex := listed r.sub
  bits := listed r.bits
  pdo := listed r.pdo
  source := .pdo
  raw := ""
  decoded := ""
  meaning := ""
  mapStatus := t.uiText "PDO loaded"
  changed := false

def appendPdoRow (position : Int) (rows : List Args) (r : PdoRow) : List Args :=
  if covered rows (ioVariableTableObjectKey position (listed r.index) (listed r.sub)) = true then rows
  else appendRow rows (pdoArgs t position r)

/-- The object is read off the key. -/
def watchArgs (entry : String × WatchEvidence) : Option Args :=
  match parts entry.1 with
  | [position, index, subIndex] =>
    (toInt 10 position.toList).map fun position =>
      { position := position
        direction := t.uiText "SDO"
        symbol := ""
        index := index
        subIndex := subIndex
        bits := ""
        pdo := ""
        source := .watch
        raw := entry.2.value
        decoded := entry.2.decoded
        meaning := entry.2.meaning
        mapStatus := ""
        changed := entry.2.changed != "" }
  | _ => none

def appendWatchRow (rows : List Args) (entry : String × WatchEvidence) : List Args :=
  match watchArgs t entry with
  | none => rows
  | some a => if covered rows entry.1 = true then rows else appendRow rows a

/-- The rows of the Free Run table and, of the slave that is selected, of the PDO map. -/
def processArgs (tables : Tables) : List Args :=
  let rows := tables.freeRun.foldl appendFreeRunRow []
  if tables.loadedPdoPosition = tables.selectedPosition then
    tables.pdoTable.foldl (appendPdoRow t tables.selectedPosition.toInt) rows
  else rows

def tableArgs (tables : Tables) : List Args :=
  (watchByObject t tables).entries.foldl (appendWatchRow t) (processArgs t tables)

/-- mirrors apps/ecat-studio/workspaces/MainWindowIoVariableTable.cpp:4-187 -/
def updateIoVariableTable (tables : Tables) : List Row := (tableArgs t tables).map (cells t tables)

end

/-! ## What the consistency check reads -/

/-- The tables of the check are these tables. -/
structure Reads (e : Consistency.Evidence) (tables : Tables) : Prop where
  loaded : e.loadedPdoPosition = tables.loadedPdoPosition.toInt
  selected : Consistency.selectedPosition e = tables.selectedPosition.toInt
  freeRun : e.freeRun = tables.freeRun.map (·.toFreeRunRow)
  pdoTable : e.pdoTable = tables.pdoTable
  watch : e.watch.rows = tables.watch.map fun r => ⟨r.position, r.index, r.subIndex, r.value⟩
  startup : e.startup = tables.startup
  ioVariableMetadata : e.ioVariableMetadata = tables.ioVariableMetadata

/-- mirrors apps/ecat-studio/adapters/ProcessDataTableAdapter.cpp:56-83 -/
def Row.variable (row : Row) : Variable where
  key := (rowKey row.position row.index row.subIndex).getD ""
  raw := trimmed row.raw
  watch := trimmed row.watch
  startup := trimmed row.startup
  mapStatus := trimmed row.mapStatus
  aliasName := trimmed row.aliasName
  tags := trimmed row.tags

def Args.signal (a : Args) : Signal where
  position := a.position
  index := normalized a.index 4
  subIndex := normalized a.subIndex 2
  source := a.source
  raw := a.raw
  mapStatus := trimmed a.mapStatus

/-- The address of a row that is taken, its position an `int`. -/
structure Args.InTable (a : Args) : Prop where
  targeted : a.Targeted
  high : a.position < 2 ^ 31

section
variable {t : Language} {tables : Tables} {a : Args} {rows : List Args}

theorem key_signal : a.signal.key = a.key := rfl

theorem covered_signal (rows : List Args) (key : String) :
    Consistency.covered (rows.map Args.signal) key = covered rows key := by
  unfold Consistency.covered covered
  rw [List.any_map]
  rfl

theorem appendRow_signal (rows : List Args) (a : Args) :
    (appendRow rows a).map Args.signal =
      Consistency.appendRow (rows.map Args.signal) a.position a.index a.subIndex a.source a.raw a.mapStatus := by
  unfold appendRow Consistency.appendRow
  split
  · rfl
  · rw [List.map_append]
    rfl

theorem appendFreeRunRow_signal (rows : List Args) (r : FreeRunRow) :
    (appendFreeRunRow rows r).map Args.signal =
      Consistency.appendFreeRunRow (rows.map Args.signal) r.toFreeRunRow := by
  unfold appendFreeRunRow Consistency.appendFreeRunRow freeRunArgs
  cases toInt 10 (trimmed r.position).toList with
  | none => rfl
  | some position => exact appendRow_signal _ _

theorem appendPdoRow_signal (position : Int) (rows : List Args) (r : PdoRow) :
    (appendPdoRow t position rows r).map Args.signal =
      Consistency.appendPdoRow t position (rows.map Args.signal) r := by
  unfold appendPdoRow Consistency.appendPdoRow
  dsimp only
  rw [covered_signal]
  unfold listed
  split
  · rfl
  · exact appendRow_signal _ _

theorem appendWatchRow_signal (rows : List Args) (entry : String × WatchEvidence) :
    (appendWatchRow t rows entry).map Args.signal =
      Consistency.appendWatchRow (rows.map Args.signal) (entry.1, entry.2.value) := by
  unfold appendWatchRow Consistency.appendWatchRow watchArgs
  dsimp only
  rw [covered_signal]
  rcases parts entry.1 with - | ⟨position, - | ⟨index, - | ⟨subIndex, - | ⟨_, _⟩⟩⟩⟩
  · rfl
  · rfl
  · rfl
  · cases hn : toInt 10 position.toList with
    | none => simp [hn]
    | some n =>
      cases hc : covered rows entry.1 with
      | true => simp [hn]
      | false => simpa [hn] using appendRow_signal rows _
  · rfl

theorem foldl_signal {β γ : Type} {f : List Args → β → List Args} {g : List Signal → γ → List Signal}
    {h : β → γ} (hstep : ∀ rows b, (f rows b).map Args.signal = g (rows.map Args.signal) (h b)) (bs : List β) (rows : List Args) :
    (bs.foldl f rows).map Args.signal = (bs.map h).foldl g (rows.map Args.signal) := by
  induction bs generalizing rows with
  | nil => rfl
  | cons b bs ih => rw [List.foldl_cons, ih, hstep, List.map_cons, List.foldl_cons]

theorem entries_watchByObject {e : Consistency.Evidence} (h : Reads e tables) :
    (Consistency.watchByObject e.watch.rows).entries =
      (watchByObject t tables).entries.map fun entry => (entry.1, entry.2.value) := by
  rw [h.watch, Consistency.watchByObject, QHash.insertEach_map, watchByObject]
  refine QHash.entries_insertEach_map WatchEvidence.value tables.watch ?_ rfl
  intro r _
  unfold Consistency.watchEntry watchEntry
  rw [Option.map_map]
  rfl

theorem tableArgs_signal {e : Consistency.Evidence} (h : Reads e tables) :
    (tableArgs t tables).map Args.signal = Consistency.signals t e := by
  have hfree : (tables.freeRun.foldl appendFreeRunRow []).map Args.signal =
      e.freeRun.foldl Consistency.appendFreeRunRow [] := by
    rw [foldl_signal appendFreeRunRow_signal, h.freeRun]
    rfl
  have hprocess : (processArgs t tables).map Args.signal = Consistency.processSignals t e := by
    unfold processArgs Consistency.processSignals
    dsimp only
    rw [h.loaded, h.selected, h.pdoTable]
    by_cases hp : tables.loadedPdoPosition = tables.selectedPosition
    · rw [if_pos hp, if_pos (congrArg _ hp), foldl_signal (h := id) (appendPdoRow_signal _), hfree, List.map_id]
    · rw [if_neg hp, if_neg (mt Int32.toInt_inj.1 hp), hfree]
  unfold tableArgs Consistency.signals
  rw [foldl_signal appendWatchRow_signal, hprocess, entries_watchByObject h]

theorem trimmed_value {key : String} {watch : WatchEvidence} (h : (watchByObject t tables).value key = some watch) :
    trimmed watch.value = watch.value := by
  rcases QHash.mem_of_insertEach h with hnone | ⟨r, -, hr⟩
  · cases hnone
  · obtain ⟨key', -, heq⟩ := Option.map_eq_some_iff.1 hr
    have hwatch := (Prod.ext_iff.1 heq).2
    dsimp only at hwatch
    subst hwatch
    exact trimmed_trimmed _

theorem value_watchByObject {e : Consistency.Evidence} (h : Reads e tables) (key : String) :
    (Consistency.watchByObject e.watch.rows).value key = ((watchByObject t tables).value key).map (·.value) := by
  rw [QHash.value, entries_watchByObject h (t := t)]
  exact Assoc.lookup_map (fun _ watch => WatchEvidence.value watch) _ key

theorem variable_cells {e : Consistency.Evidence} (h : Reads e tables) (ha : a.InTable) :
    (cells t tables a).variable = Consistency.variableOf e a.signal := by
  have hindex : trimmed (normalized a.index 4) ≠ "" := trimmed_normalized_ne ha.targeted.2.1
  have hsub : trimmed (normalized a.subIndex 2) ≠ "" := trimmed_normalized_ne ha.targeted.2.2
  have hkey : rowKey (QString.number a.position) (normalized a.index 4) (normalized a.subIndex 2) = some a.key := by
    rw [Consistency.rowKey_number ha.targeted.1 ha.high hindex hsub, trimmed_normalized, trimmed_normalized, Args.key]
  have hvalue : (((watchByObject t tables).value a.key).getD ⟨"", "", "", "", ""⟩).value =
      (((watchByObject t tables).value a.key).map (·.value)).getD "" := by
    cases (watchByObject t tables).value a.key <;> rfl
  have hwatch : trimmed (((watchByObject t tables).value a.key).getD ⟨"", "", "", "", ""⟩).value =
      (((watchByObject t tables).value a.key).map (·.value)).getD "" := by
    rw [← hvalue]
    cases hv : (watchByObject t tables).value a.key with
    | none => rfl
    | some watch => exact trimmed_value hv
  have hraw : trimmed (trimmed (if trimmed a.raw = "" ∧ a.source = .watch then
      (((watchByObject t tables).value a.key).getD ⟨"", "", "", "", ""⟩).value else a.raw)) =
        trimmed (if trimmed a.raw = "" ∧ a.source = .watch then
          (((watchByObject t tables).value a.key).map (·.value)).getD "" else a.raw) := by
    rw [trimmed_trimmed, hvalue]
  unfold Row.variable cells Consistency.variableOf
  dsimp only
  rw [key_signal, value_watchByObject h, hkey, hwatch]
  simp only [Args.signal, Variable.mk.injEq]
  refine ⟨rfl, hraw, rfl, ?_, trimmed_trimmed _, ?_, ?_⟩
  · unfold startupByObject Consistency.startupText
    rw [h.startup]
    rcases (Consistency.startupByObject tables.startup).value a.key with - | ⟨value, delta⟩ <;> rfl
  · rw [h.ioVariableMetadata]
    cases tables.ioVariableMetadata.value a.key <;> rfl
  · rw [h.ioVariableMetadata]
    cases tables.ioVariableMetadata.value a.key <;> rfl

end

end NekoEcat.L4.IoVariables
