import NekoEcat.Core.JsonReread
import NekoEcat.L4Gui.ProjectManager

/-!
# Saving a project

`ProjectManagerService::saveProject` stamps the project, computes its checksum and
writes it; saving does not ask whether the project is valid, reading it does.

* `reopened_iff`: the projects that come back as they were saved.

Limitations: how deep the parser follows arrays and objects is a parameter.
-/
namespace NekoEcat.L4.ProjectManager
open NekoEcat.Bytes NekoEcat.QJson NekoEcat.QNumber NekoEcat.QString
open NekoEcat.L2.NativeSdo (toLatin1 fromLatin1)

/-- What becomes of a file that is written. -/
inductive Written where
  /-- it cannot be opened -/
  | denied
  /-- it is cut off or not flushed -/
  | short (left : Content)
  | done

def Files.put (files : Files) (path : String) (content : Content) : Files := fun p => if p = path then some content else files p

/-- What is read of the text of an object. -/
def reading (nestingLimit : Nat) (root : QJsonObject) : Content :=
  if depth (.object root) ≤ nestingLimit then .json (.object (rereadFields root)) else .text

/-- mirrors apps/ecat-studio/services/ProjectManagerService.cpp:340-345 -/
def ProjectData.updateTimestamps (now : Int64) (data : ProjectData) : ProjectData :=
  { data with
    modifiedTimestamp := now
    createdTimestamp := if data.createdTimestamp = 0 then now else data.createdTimestamp
    fileVersion := kCurrentVersion }

/-- The project with its checksum. -/
def ProjectData.withChecksum (lib : Library) (data : ProjectData) : ProjectData :=
  { data with checksum := data.computeChecksum lib }

section
variable (lib : Library) (nestingLimit : Nat) (written : Written)

/-- mirrors apps/ecat-studio/services/ProjectManagerService.cpp:245-267 -/
def writeProjectFile (path : String) (s : Service) (files : Files) : Bool × Service × Files :=
  if path = "" then
    let (ok, s) := s.error "Project path is empty"
    (ok, s, files)
  else
    let root := s.data.toJson
    let data := s.data.withChecksum lib
    let root := QJson.insert "checksum" (.string (String.ofList (fromLatin1 data.checksum))) root
    let s := { s with data := data }
    match written with
    | .denied =>
      let (ok, s) := s.error (arg "Cannot write file: %1" path)
      (ok, s, files)
    | .short left =>
      let (ok, s) := s.error (arg "Cannot write file: %1" path)
      (ok, s, files.put path left)
    | .done => (true, s, files.put path (reading nestingLimit root))

/-- mirrors apps/ecat-studio/services/ProjectManagerService.cpp:130-139 -/
def saveProject (now : Int64) (s : Service) (files : Files) : Bool × Service × Files :=
  if s.filePath = "" then (false, s, files)
  else
    let s := { s with data := s.data.updateTimestamps now }
    match writeProjectFile lib nestingLimit written s.filePath s files with
    | (false, s, files) => (false, s, files)
    | (true, s, files) =>
      let s := { s with modified := false }
      (true, s.signal (.projectSaved s.data.name), files)

end

/-! ## What a project is read back as -/

/-- The sections of a project. -/
def ProjectData.sections (data : ProjectData) : List QJsonValue :=
  [.object data.topologyBaseline, .array data.sdoConfigurations, .array data.watchList, .array data.startupSdoList,
    .array data.ioVariableDefinitions, .object data.notes, .array data.esiRepository, .array data.alarmHistory,
    .array data.dashboardConfigs, .object data.pluginStates, .object data.annotations]

/-- The project with its sections read back. -/
def ProjectData.reread (data : ProjectData) : ProjectData :=
  { data with
    topologyBaseline := rereadFields data.topologyBaseline
    sdoConfigurations := rereadList data.sdoConfigurations
    watchList := rereadList data.watchList
    startupSdoList := rereadList data.startupSdoList
    ioVariableDefinitions := rereadList data.ioVariableDefinitions
    notes := rereadFields data.notes
    esiRepository := rereadList data.esiRepository
    alarmHistory := rereadList data.alarmHistory
    dashboardConfigs := rereadList data.dashboardConfigs
    pluginStates := rereadFields data.pluginStates
    annotations := rereadFields data.annotations }

/-- A project that reading does not replace: its name is not empty, and its sections
are finite and not too deep. -/
structure ProjectData.Readable (nestingLimit : Nat) (data : ProjectData) : Prop where
  name : data.name ≠ ""
  finite : ∀ v ∈ data.sections, isFinite v = true
  depth : ∀ v ∈ data.sections, depth v < nestingLimit

/-- The fields in key order. -/
theorem toJson_eq (data : ProjectData) : data.toJson = [
    ("alarmHistory", .array data.alarmHistory),
    ("annotations", .object data.annotations),
    ("author", .string data.author),
    ("checksum", .string (String.ofList (fromLatin1 data.checksum))),
    ("createdTimestamp", .int data.createdTimestamp.toInt),
    ("dashboardConfigs", .array data.dashboardConfigs),
    ("description", .string data.description),
    ("esiRepository", .array data.esiRepository),
    ("fileVersion", .int data.fileVersion.toInt),
    ("ioVariableDefinitions", .array data.ioVariableDefinitions),
    ("modifiedTimestamp", .int data.modifiedTimestamp.toInt),
    ("name", .string data.name),
    ("notes", .object data.notes),
    ("pluginStates", .object data.pluginStates),
    ("sdoConfigurations", .array data.sdoConfigurations),
    ("startupSdoList", .array data.startupSdoList),
    ("topologyBaseline", .object data.topologyBaseline),
    ("version", .string data.version),
    ("watchList", .array data.watchList)] := by
  simp only [ProjectData.toJson, ofList, List.foldl_cons, List.foldl_nil, QJson.insert, String.reduceEq, String.reduceLT,
    if_true, if_false]

/-- The checksum goes into its own field. -/
theorem insert_checksum (lib : Library) (data : ProjectData) :
    QJson.insert "checksum" (.string (String.ofList (fromLatin1 (data.withChecksum lib).checksum))) data.toJson =
      (data.withChecksum lib).toJson := by
  rw [toJson_eq, toJson_eq (data.withChecksum lib)]
  simp only [QJson.insert, ProjectData.withChecksum, String.reduceEq, String.reduceLT, if_true, if_false]

theorem checksum_withChecksum (lib : Library) (data : ProjectData) :
    (data.withChecksum lib).computeChecksum lib = (data.withChecksum lib).checksum := by
  unfold ProjectData.computeChecksum objectChecksum
  rw [← insert_checksum, remove_insert]
  rfl

theorem toLatin1_fromLatin1 (bs : Bytes) : toLatin1 (fromLatin1 bs) = bs := by
  unfold toLatin1 fromLatin1
  rw [List.map_map]
  refine (List.map_congr_left fun b _ => ?_).trans (List.map_id bs)
  have hb := b.toNat_lt
  have hvalid : (b.toNat).isValidChar := .inl (by omega)
  have htoNat : (Char.ofNat b.toNat).toNat = b.toNat := by
    rw [Char.ofNat, dif_pos hvalid]
    rfl
  rw [Function.comp, htoNat, if_pos (by omega)]
  exact UInt8.ofNat_toNat

theorem readFields_toJson (lib : Library) (data : ProjectData) :
    ProjectData.readFields lib (rereadFields data.toJson) = data.reread := by
  have hvalue (k : String) : value (rereadFields data.toJson) k = QJson.reread (value data.toJson k) :=
    value_rereadFields k _
  have hversion : toIntD (.int data.fileVersion.toInt) 1 = data.fileVersion.toInt :=
    if_pos ⟨data.fileVersion.le_toInt, data.fileVersion.toInt_lt⟩
  unfold ProjectData.readFields
  simp only [hvalue]
  rw [toJson_eq]
  simp [value_cons, QJson.reread, toStringD, toArray, toObject, variantLongLong, hversion, toLatin1_fromLatin1,
    ProjectData.reread]

theorem reread_eq_self (data : ProjectData) : data.reread = data ↔ ∀ v ∈ data.sections, isFinite v = true := by
  rw [ProjectData.reread, ProjectData.mk.injEq]
  simp [ProjectData.sections, isFinite, rereadList_eq_iff, rereadFields_eq_iff]

theorem depth_toJson (data : ProjectData) (n : Nat) :
    depth (.object data.toJson) ≤ n ↔ ∀ v ∈ data.sections, depth v < n := by
  rw [depth]
  cases n with
  | zero => exact iff_of_false (Nat.not_succ_le_zero _) fun h => Nat.not_lt_zero _ (h (.object data.notes) (by simp [ProjectData.sections]))
  | succ n =>
    rw [Nat.add_le_add_iff_right, depthFields_le, toJson_eq]
    simp [ProjectData.sections, depth]
    tauto

/-! ## Saving and opening -/

section
variable {lib : Library} {nestingLimit : Nat} {files : Files} {now : Int64} {path : String} {s : Service}

/-- The project that is written. -/
def Service.stamped (lib : Library) (now : Int64) (s : Service) : ProjectData := (s.data.updateTimestamps now).withChecksum lib

/-- What a saved project leaves. -/
theorem saveProject_ok {written : Written} (h : (saveProject lib nestingLimit written now s files).1 = true) :
    s.filePath ≠ "" ∧ (saveProject lib nestingLimit written now s files).2.1.data = s.stamped lib now ∧
      (saveProject lib nestingLimit written now s files).2.2 s.filePath = some (reading nestingLimit (s.stamped lib now).toJson) := by
  unfold saveProject at h ⊢
  split at h
  · cases h
  · rename_i hpath
    rw [if_neg hpath]
    unfold writeProjectFile at h ⊢
    simp only [if_neg hpath] at h ⊢
    cases written with
    | denied => cases h
    | short left => cases h
    | done =>
      refine ⟨hpath, rfl, ?_⟩
      simp only [Files.put, if_true]
      rw [insert_checksum]
      rfl

/-- What is opened from an accepted object. -/
theorem openProject_data {root : QJsonObject} (hpath : path ≠ "") (hfile : files path = some (.json (.object root)))
    (haccepted : Accepted lib root) : (openProject lib files now path s).2.data =
      let loaded := (ProjectData.fromJson lib root).1
      if loaded.fileVersion < kCurrentVersion then loaded.migrate now loaded.fileVersion else loaded := by
  have hvalid := @isValid_fromJson lib root
  unfold openProject readProjectFile
  rw [if_neg hpath, hfile]
  simp only [if_neg (Int.not_lt.2 haccepted.version), haccepted.checksum, hvalid, Bool.not_true, Bool.false_eq_true, if_false]
  rfl

theorem accepted_reread (data : ProjectData) (hversion : data.fileVersion = kCurrentVersion)
    (hchecksum : data.computeChecksum lib = data.checksum) : Accepted lib (rereadFields data.toJson) := by
  refine ⟨?_, ?_⟩
  · have hvalue : value (rereadFields data.toJson) "fileVersion" = .int kCurrentVersion.toInt := by
      rw [value_rereadFields, toJson_eq, hversion]
      simp [value_cons, QJson.reread]
    rw [hvalue]
    decide
  · have hvalue : toStringD (value (rereadFields data.toJson) "checksum") "" = String.ofList (fromLatin1 data.checksum) := by
      rw [value_rereadFields, toJson_eq]
      simp [value_cons, QJson.reread, toStringD]
    have hobject : objectChecksum lib (rereadFields data.toJson) = data.checksum := by
      rw [← hchecksum, ProjectData.computeChecksum, objectChecksum, objectChecksum, remove_rereadFields, compact,
        compactFields_reread, compact]
    unfold checksumMatches
    rw [hvalue, hobject]
    simp only [String.toList_ofList, toLatin1_fromLatin1, beq_self_eq_true, Bool.or_true]

/-- Reading a project that is written at the current version. -/
theorem fromJson_reread (data : ProjectData) (hversion : data.fileVersion = kCurrentVersion) :
    (ProjectData.fromJson lib (rereadFields data.toJson)).1 = if data.name = "" then {} else data.reread := by
  unfold ProjectData.fromJson
  rw [readFields_toJson]
  have hvalid : data.reread.isValid = (data.name != "") := by
    unfold ProjectData.isValid
    rw [ProjectData.reread]
    simp [hversion, kCurrentVersion]
  simp only [hvalid]
  by_cases hname : data.name = ""
  · simp [hname]
  · simp [hname]

/-- **A saved project comes back** iff its name is not empty and its sections are
finite and not too deep: with an empty name opening it succeeds all the same, and
leaves a new project. -/
theorem reopened_iff (lib : Library) (nestingLimit : Nat) (written : Written) (now later : Int64) (files : Files)
    (s reader : Service) (hsaved : (saveProject lib nestingLimit written now s files).1 = true) :
    let after := (saveProject lib nestingLimit written now s files).2
    ((openProject lib after.2 later s.filePath reader).1 = true ∧
      (openProject lib after.2 later s.filePath reader).2.data = after.1.data) ↔ s.data.Readable nestingLimit := by
  obtain ⟨hpath, hdata, hfile⟩ := saveProject_ok hsaved
  simp only [hdata]
  have hsections : (s.stamped lib now).sections = s.data.sections := rfl
  have hname : (s.stamped lib now).name = s.data.name := rfl
  unfold reading at hfile
  simp only [depth_toJson, hsections] at hfile
  split at hfile
  · rename_i hdepth
    have haccepted := accepted_reread (s.stamped lib now) rfl (checksum_withChecksum lib _)
    have hopened : (openProject lib (saveProject lib nestingLimit written now s files).2.2 later s.filePath reader).1 = true :=
      openProject_iff.2 ⟨hpath, _, hfile, haccepted⟩
    rw [openProject_data hpath hfile haccepted, fromJson_reread _ rfl, hname]
    split
    · rename_i hempty
      refine iff_of_false (fun h => ?_) fun h => h.name hempty
      -- the new project has a name
      have hnew := congrArg ProjectData.name h.2
      rw [hname, hempty, if_neg (by decide)] at hnew
      exact absurd hnew (by decide)
    · rename_i hnamed
      have hcurrent : (s.stamped lib now).reread.fileVersion = kCurrentVersion := rfl
      simp only [hcurrent, hopened, true_and]
      rw [if_neg (by decide), reread_eq_self, hsections]
      exact ⟨fun hfinite => ⟨hnamed, hfinite, hdepth⟩, fun h => h.finite⟩
  · rename_i hdepth
    refine iff_of_false (fun h => ?_) fun h => hdepth h.depth
    obtain ⟨-, root, hroot, -⟩ := openProject_iff.1 h.1
    rw [hfile] at hroot
    cases hroot

end

/-- A hash that has one value. -/
def digest (hex : String) : Library := ⟨fun _ => hex.toList.map fun c => UInt8.ofNat c.toNat, fun _ => 0⟩

/-- A new project comes back. -/
theorem new_project_restored :
    let lib := digest "4173282ea79431c54724609f302231403725d2ddefaa5da8b7bdd31e1c1ea21c"
    let after := (saveProject lib 1024 .done 5 { filePath := "a.ecatproj" } fun _ => none).2
    (openProject lib after.2 6 "a.ecatproj" {}).1 = true ∧ (openProject lib after.2 6 "a.ecatproj" {}).2.data = after.1.data :=
  (reopened_iff (digest "4173282ea79431c54724609f302231403725d2ddefaa5da8b7bdd31e1c1ea21c") 1024 .done 5 6
    (fun _ => none) { filePath := "a.ecatproj" } {} rfl).2 ⟨by decide, by decide, by decide⟩

def nameless : Service := { data := { name := "" }, filePath := "a.ecatproj" }

theorem nameless_replaced : ¬ ∀ (lib : Library) (nestingLimit : Nat) (written : Written) (now later : Int64) (files : Files)
    (s reader : Service), (saveProject lib nestingLimit written now s files).1 = true →
    let after := (saveProject lib nestingLimit written now s files).2
    (openProject lib after.2 later s.filePath reader).1 = true ∧
      (openProject lib after.2 later s.filePath reader).2.data = after.1.data := by
  intro h
  have hboth := h (digest "6542e8e4beda56772df42f41ad2d03d9c88b489ecfaeb1f38bf09fa480cf888d") 1024 .done 5 6
    (fun _ => none) nameless {} rfl
  exact absurd (congrArg ProjectData.name hboth.2) (by decide)

end NekoEcat.L4.ProjectManager
