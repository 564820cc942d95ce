import NekoEcat.L4Gui.ProjectFile

/-!
# What an opened project takes from the window before

A file is opened in two windows, and the sections it keeps are compared. A Watch
or a Startup table without rows is not read, so the rows that were there stay.
The answers of a snapshot count as loaded if they are those of the selected slave,
and where the file does not select one the selection is that of before.

* `Settled`: both tables have rows, and no snapshot depends on the selection.
* `independent_iff`: these are the files that are opened alike in all windows.
-/
namespace NekoEcat.L4.ProjectFile
open NekoEcat.QJson

/-- The sections of the file are the same; the masters if the file has any. -/
structure Same (root : QJsonObject) (a b : Window) : Prop where
  slaves : a.slaves = b.slaves
  topologyBaseline : a.topologyBaseline = b.topologyBaseline
  watch : a.watch = b.watch
  startup : a.startup = b.startup
  sdoEvidence : a.sdoEvidence = b.sdoEvidence
  ioVariableMetadata : a.ioVariableMetadata = b.ioVariableMetadata
  objectBookmarks : a.objectBookmarks = b.objectBookmarks
  sdoTargetTrail : a.sdoTargetTrail = b.sdoTargetTrail
  notes : a.notes = b.notes
  snapshots : a.snapshots = b.snapshots
  masters : readMasters root ≠ [] → a.masters = b.masters

/-- What was open before makes no difference. -/
def Independent (t : Locale) (root : QJsonObject) : Prop :=
  ∀ w v w' v', readProjectFile t w (some root) = some w' → readProjectFile t v (some root) = some v' → Same root w' v'

/-- The file selects one of its slaves. -/
def SelectionSaved (root : QJsonObject) : Prop :=
  0 ≤ savedPosition root ∧ ∃ slave ∈ readSlaves root "slaves", slave.position.toInt = savedPosition root

/-- The snapshot has no text, or is of no slave of the file, or the file selects
a slave. -/
def SettledSnapshot (root : QJsonObject) (key positionKey : String) : Prop :=
  snapshotText root key = "" ∨ snapshotPosition root positionKey = -1 ∨
    (∀ slave ∈ readSlaves root "slaves", slave.position.toInt ≠ snapshotPosition root positionKey) ∨
      SelectionSaved root

structure Settled (root : QJsonObject) : Prop where
  watch : toArray (value root "watch") ≠ []
  startup : toArray (value root "startupSdos") ≠ []
  slaveInfo : SettledSnapshot root "slaveInfo" "slaveInfoPosition"
  pdo : SettledSnapshot root "pdo" "pdoPosition"
  sdo : SettledSnapshot root "sdo" "sdoPosition"
  xml : SettledSnapshot root "xml" "xmlPosition"

/-- The window when the program has started. -/
def started : Window where
  masters := [⟨"Master 0", "0"⟩]
  activeMaster := "0"
  slaves := []
  current := none
  topologyBaseline := []
  snapshots := ⟨"", "", -1, "", -1, "", -1, "", -1⟩
  sdoEvidence := QHash.empty
  ioVariableMetadata := QHash.empty
  objectBookmarks := []
  sdoTargetTrail := []
  watch := []
  startup := []
  notes := ""
  sdoIndex := "0x1000"
  sdoSubIndex := "0x00"

section
variable {t : Locale} {root : QJsonObject}

theorem readProjectFile_accepted (h : Accepted root) (w : Window) :
    readProjectFile t w (some root) = some (openSections t (openSlaves w root) root) := if_pos h

theorem eq_of_readProjectFile {w w' : Window} (h : readProjectFile t w (some root) = some w') :
    w' = openSections t (openSlaves w root) root := by
  unfold readProjectFile at h
  split at h
  · cases h
  · rename_i root' hroot
    cases hroot
    split at h
    · exact (Option.some.inj h).symm
    · cases h

theorem opened_watch (w : Window) :
    (openSections t (openSlaves w root) root).watch = openedWatch t root w.watch w.startup := by
  obtain ⟨c, ss, h⟩ := openSlaves_eq w root
  rw [h]
  rfl

theorem opened_startup (w : Window) :
    (openSections t (openSlaves w root) root).startup = openedStartup root w.startup := by
  obtain ⟨c, ss, h⟩ := openSlaves_eq w root
  rw [h]
  rfl

theorem opened_snapshots (w : Window) :
    (openSections t (openSlaves w root) root).snapshots = readSnapshots root (selectedPosition (openSlaves w root)) := rfl

theorem opened_bookmarks (w : Window) :
    (openSections t (openSlaves w root) root).objectBookmarks = readBookmarks t root (readSlaves root "slaves") := by
  rw [← openSlaves_slaves w root]
  rfl

theorem openSections_trail (w : Window) : (openSections t w root).sdoTargetTrail = readTrail root := rfl

theorem openSections_evidence (w : Window) : (openSections t w root).sdoEvidence =
    QHash.insertEach readEvidence QHash.empty (toArray (value root "sdoEvidence")) := rfl

theorem openSections_metadata (w : Window) : (openSections t w root).ioVariableMetadata =
    QHash.insertEach readMetadata QHash.empty (toArray (value root "ioVariables")) := rfl

/-! ## A settled file -/

theorem updateWatchStartupDelta_eq (startup : List StartupRow) (r : WatchRow) :
    ∃ expected delta, updateWatchStartupDelta t startup r = { r with startup := expected, startupDelta := delta } := by
  unfold updateWatchStartupDelta
  dsimp only
  split
  · exact ⟨_, _, rfl⟩
  · exact ⟨_, _, rfl⟩

/-- The two cells are not compared. -/
theorem match_cells (startup : List StartupRow) (r : WatchRow) (expected delta : String) :
    watchStartupMatchForWatchRow t startup { r with startup := expected, startupDelta := delta } =
      watchStartupMatchForWatchRow t startup r := rfl

/-- Only the last comparison is seen. -/
theorem updateWatchStartupDelta_twice (startup before : List StartupRow) (r : WatchRow) :
    updateWatchStartupDelta t startup (updateWatchStartupDelta t before r) = updateWatchStartupDelta t startup r := by
  obtain ⟨expected, delta, h⟩ := updateWatchStartupDelta_eq (t := t) before r
  rw [h]
  unfold updateWatchStartupDelta
  dsimp only
  rw [match_cells]

/-- With rows in the file the tables before make no difference. -/
theorem openedWatch_of_rows (hw : readWatch root ≠ []) (hs : readStartup root ≠ []) (watch : List WatchRow)
    (startup : List StartupRow) :
    openedWatch t root watch startup =
      (readWatch root).map fun r => updateWatchStartupDelta t (readStartup root) (updateWatchBaselineDelta t r) := by
  simp only [openedWatch, if_neg hw, if_neg hs, List.map_map, Function.comp_def, updateWatchStartupDelta_twice]

/-- Where the file selects a slave that is the selected one; otherwise the
position of a slave, or none. -/
theorem loadedPosition_eq {key positionKey : String} (h : SettledSnapshot root key positionKey) (w v : Window) :
    loadedPosition root (selectedPosition (openSlaves w root)) key positionKey =
      loadedPosition root (selectedPosition (openSlaves v root)) key positionKey := by
  rcases h with h | h | h | h
  · simp [loadedPosition, h]
  · simp [loadedPosition, h]
  · have hother : ∀ w : Window, snapshotPosition root positionKey = -1 ∨
        snapshotPosition root positionKey ≠ selectedPosition (openSlaves w root) := by
      intro w
      rcases selectedPosition_cases (openSlaves w root) with hp | ⟨slave, hmem, hp⟩
      · rw [hp]
        exact em _
      · rw [openSlaves_slaves] at hmem
        rw [hp]
        exact Or.inr (Ne.symm (h slave hmem))
    have hnone : ∀ w : Window, loadedPosition root (selectedPosition (openSlaves w root)) key positionKey = -1 := by
      intro w
      unfold loadedPosition
      split
      · rename_i hc
        exact (hother w).resolve_right fun hne => hne hc.2
      · rfl
    rw [hnone w, hnone v]
  · rw [selectedPosition_saved h.1 h.2 w, selectedPosition_saved h.1 h.2 v]

theorem readWatch_eq_nil : readWatch root = [] ↔ toArray (value root "watch") = [] := List.map_eq_nil_iff

theorem readStartup_eq_nil : readStartup root = [] ↔ toArray (value root "startupSdos") = [] := List.map_eq_nil_iff

theorem same_of_settled (h : Settled root) (w v : Window) :
    Same root (openSections t (openSlaves w root) root) (openSections t (openSlaves v root) root) := by
  have hwatch : readWatch root ≠ [] := fun hnil => h.watch (readWatch_eq_nil.1 hnil)
  have hstartup : readStartup root ≠ [] := fun hnil => h.startup (readStartup_eq_nil.1 hnil)
  have hslaves : (openSlaves w root).slaves = (openSlaves v root).slaves := by rw [openSlaves_slaves, openSlaves_slaves]
  exact {
    slaves := hslaves
    topologyBaseline := rfl
    watch := by
      rw [opened_watch, opened_watch, openedWatch_of_rows hwatch hstartup, openedWatch_of_rows hwatch hstartup]
    startup := by
      rw [opened_startup, opened_startup, openedStartup, openedStartup, if_neg hstartup, if_neg hstartup]
    sdoEvidence := rfl
    ioVariableMetadata := rfl
    objectBookmarks := by rw [opened_bookmarks, opened_bookmarks]
    sdoTargetTrail := rfl
    notes := rfl
    snapshots := by
      rw [opened_snapshots, opened_snapshots, readSnapshots, readSnapshots, loadedPosition_eq h.slaveInfo w v,
        loadedPosition_eq h.pdo w v, loadedPosition_eq h.sdo w v, loadedPosition_eq h.xml w v]
    masters := by
      intro hmasters
      obtain ⟨c, ss, hw⟩ := openSlaves_eq w root
      obtain ⟨c', ss', hv⟩ := openSlaves_eq v root
      rw [hw, hv]
      simp only [openSections, if_neg hmasters] }

/-! ## Files that are not -/

/-- Rows of Watch that were there before. -/
theorem watch_stays (h : readWatch root = []) (rows : List WatchRow) :
    (openSections t (openSlaves { started with watch := rows } root) root).watch.length = rows.length := by
  rw [opened_watch, openedWatch]
  simp only [if_pos h]
  split <;> simp

theorem startup_stays (h : readStartup root = []) (rows : List StartupRow) :
    (openSections t (openSlaves { started with startup := rows } root) root).startup = rows := by
  rw [opened_startup, openedStartup]
  exact if_pos h

/-- The slaves are there, and one of them or none is selected. -/
def selecting (root : QJsonObject) (current : Option Nat) : Window :=
  { started with slaves := readSlaves root "slaves", current := current }

theorem settledSnapshot {key positionKey : String}
    (h : ∀ w v, loadedPosition root (selectedPosition (openSlaves w root)) key positionKey =
      loadedPosition root (selectedPosition (openSlaves v root)) key positionKey) :
    SettledSnapshot root key positionKey := by
  by_contra hno
  simp only [SettledSnapshot, SelectionSaved, not_or, not_and, not_forall, not_exists, not_not] at hno
  obtain ⟨htext, hnone, ⟨slave, hmem, hp⟩, hsaved⟩ := hno
  have hkept : savedPosition root < 0 ∨ ∀ slave ∈ readSlaves root "slaves", slave.position.toInt ≠ savedPosition root := by
    rcases lt_or_ge (savedPosition root) 0 with hlt | hge
    · exact Or.inl hlt
    · exact Or.inr (hsaved hge)
  obtain ⟨i, hi, hslave⟩ := List.getElem_of_mem hmem
  have hone : selectedPosition (openSlaves (selecting root (some i)) root) = snapshotPosition root positionKey := by
    rw [selectedPosition_kept rfl hkept]
    simp [selectedPosition, selecting, positionOf, List.getElem?_eq_getElem hi, hslave, hp]
  have hother : selectedPosition (openSlaves (selecting root none) root) = -1 := selectedPosition_kept rfl hkept
  have heq := h (selecting root (some i)) (selecting root none)
  rw [hone, hother, loadedPosition, loadedPosition, if_pos ⟨htext, rfl⟩, if_neg fun hc => hnone hc.2] at heq
  exact hnone heq

theorem settled_of_same
    (h : ∀ w v, Same root (openSections t (openSlaves w root) root) (openSections t (openSlaves v root) root)) :
    Settled root := by
  have hsnapshots : ∀ w v, readSnapshots root (selectedPosition (openSlaves w root)) =
      readSnapshots root (selectedPosition (openSlaves v root)) := fun w v => (h w v).snapshots
  exact {
    watch := by
      intro hnil
      have hlen := congrArg List.length (h { started with watch := [] } { started with watch := [watchRowOf []] }).watch
      rw [watch_stays (readWatch_eq_nil.2 hnil), watch_stays (readWatch_eq_nil.2 hnil)] at hlen
      simp at hlen
    startup := by
      intro hnil
      have heq := (h { started with startup := [] } { started with startup := [⟨"0", "", "", "", ""⟩] }).startup
      rw [startup_stays (readStartup_eq_nil.2 hnil), startup_stays (readStartup_eq_nil.2 hnil)] at heq
      simp at heq
    slaveInfo := settledSnapshot fun w v => congrArg Snapshots.slaveInfoPosition (hsnapshots w v)
    pdo := settledSnapshot fun w v => congrArg Snapshots.pdoPosition (hsnapshots w v)
    sdo := settledSnapshot fun w v => congrArg Snapshots.sdoPosition (hsnapshots w v)
    xml := settledSnapshot fun w v => congrArg Snapshots.xmlPosition (hsnapshots w v) }

/-- The files that are opened alike in all windows. -/
theorem independent_iff (h : Accepted root) : Independent t root ↔ Settled root := by
  constructor
  · intro hind
    exact settled_of_same fun w v => hind w v _ _ (readProjectFile_accepted h w) (readProjectFile_accepted h v)
  · intro hs w v w' v' hw hv
    rw [eq_of_readProjectFile hw, eq_of_readProjectFile hv]
    exact same_of_settled hs w v

end

end NekoEcat.L4.ProjectFile
