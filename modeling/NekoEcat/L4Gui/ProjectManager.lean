import NekoEcat.Core.QJson
import NekoEcat.L2Daemon.NativeSdo

/-!
# Project files of the project manager

`ProjectManagerService` keeps one project and writes it to a file as a JSON object
with a checksum over the others of its fields. Opening a file and validating it
read and check the object each on its own.

* `openProject_iff`, `validateProject_iff`: what each of them accepts.
* `agree_iff`: the files on which they agree.

Limitations: the text of a file is the work of `QJsonDocument`; a file holds a JSON
value or none.
-/
namespace NekoEcat.L4.ProjectManager
open NekoEcat.Bytes NekoEcat.QJson NekoEcat.QNumber NekoEcat.QString
open NekoEcat.L2.NativeSdo (toLatin1 fromLatin1)

/-- What a project needs of Qt: the hash of a text as hexadecimal digits, and a
number that is no integer, as an integer. -/
structure Library where
  sha256Hex : List Char → Bytes
  roundDouble : String → Int64

def kCurrentVersion : Int32 := 2

def kMaxRecentProjects : Nat := 10

/-- mirrors apps/ecat-studio/services/ProjectManagerService.h:19-45 -/
structure ProjectData where
  fileVersion : Int32 := kCurrentVersion
  name : String := "Untitled"
  description : String := ""
  version : String := "1.0.0"
  author : String := ""
  createdTimestamp : Int64 := 0
  modifiedTimestamp : Int64 := 0
  checksum : Bytes := []
  topologyBaseline : QJsonObject := []
  sdoConfigurations : List QJsonValue := []
  watchList : List QJsonValue := []
  startupSdoList : List QJsonValue := []
  ioVariableDefinitions : List QJsonValue := []
  notes : QJsonObject := []
  esiRepository : List QJsonValue := []
  alarmHistory : List QJsonValue := []
  dashboardConfigs : List QJsonValue := []
  pluginStates : QJsonObject := []
  annotations : QJsonObject := []

/-- mirrors apps/ecat-studio/services/ProjectManagerService.cpp:13-15 -/
def ProjectData.isValid (data : ProjectData) : Bool := data.name != "" && decide (0 < data.fileVersion)

/-- mirrors apps/ecat-studio/services/ProjectManagerService.cpp:24-46 -/
def ProjectData.toJson (data : ProjectData) : QJsonObject :=
  ofList [
    ("fileVersion", .int data.fileVersion.toInt),
    ("name", .string data.name),
    ("description", .string data.description),
    ("version", .string data.version),
    ("author", .string data.author),
    ("createdTimestamp", .int data.createdTimestamp.toInt),
    ("modifiedTimestamp", .int data.modifiedTimestamp.toInt),
    ("checksum", .string (String.ofList (fromLatin1 data.checksum))),
    ("topologyBaseline", .object data.topologyBaseline),
    ("sdoConfigurations", .array data.sdoConfigurations),
    ("watchList", .array data.watchList),
    ("startupSdoList", .array data.startupSdoList),
    ("ioVariableDefinitions", .array data.ioVariableDefinitions),
    ("notes", .object data.notes),
    ("esiRepository", .array data.esiRepository),
    ("alarmHistory", .array data.alarmHistory),
    ("dashboardConfigs", .array data.dashboardConfigs),
    ("pluginStates", .object data.pluginStates),
    ("annotations", .object data.annotations)]

section
variable (lib : Library)

/-- The checksum of an object, without the one it holds. -/
def objectChecksum (root : QJsonObject) : Bytes := lib.sha256Hex (compact (.object (QJson.remove root "checksum")))

/-- mirrors apps/ecat-studio/services/ProjectManagerService.cpp:17-22 -/
def ProjectData.computeChecksum (data : ProjectData) : Bytes := objectChecksum lib data.toJson

/-- `toVariant().toLongLong()` -/
def variantLongLong : QJsonValue → Int64
  | .int n => Int64.ofInt n
  | .double text => lib.roundDouble text
  | .string s => Int64.ofInt ((toSigned 64 10 s.toList).getD 0)
  | .bool b => if b then 1 else 0
  | .null | .array _ | .object _ => 0

/-- The fields, each with its default.
mirrors apps/ecat-studio/services/ProjectManagerService.cpp:50-68 -/
def ProjectData.readFields (obj : QJsonObject) : ProjectData where
  fileVersion := Int32.ofInt (toIntD (value obj "fileVersion") 1)
  name := toStringD (value obj "name") "Untitled"
  description := toStringD (value obj "description") ""
  version := toStringD (value obj "version") "1.0.0"
  author := toStringD (value obj "author") ""
  createdTimestamp := variantLongLong lib (value obj "createdTimestamp")
  modifiedTimestamp := variantLongLong lib (value obj "modifiedTimestamp")
  checksum := toLatin1 (toStringD (value obj "checksum") "").toList
  topologyBaseline := toObject (value obj "topologyBaseline")
  sdoConfigurations := toArray (value obj "sdoConfigurations")
  watchList := toArray (value obj "watchList")
  startupSdoList := toArray (value obj "startupSdoList")
  ioVariableDefinitions := toArray (value obj "ioVariableDefinitions")
  notes := toObject (value obj "notes")
  esiRepository := toArray (value obj "esiRepository")
  alarmHistory := toArray (value obj "alarmHistory")
  dashboardConfigs := toArray (value obj "dashboardConfigs")
  pluginStates := toObject (value obj "pluginStates")
  annotations := toObject (value obj "annotations")

/-- The project, or a new one and what is wrong.
mirrors apps/ecat-studio/services/ProjectManagerService.cpp:48-76 -/
def ProjectData.fromJson (obj : QJsonObject) : ProjectData × Option String :=
  let data := ProjectData.readFields lib obj
  if data.isValid then (data, none) else ({}, some "Invalid project data: missing required fields")

/-- mirrors apps/ecat-studio/services/ProjectManagerService.cpp:78-97 -/
def ProjectData.migrate (now : Int64) (data : ProjectData) (fromVersion : Int32) : ProjectData :=
  if kCurrentVersion ≤ fromVersion then data
  else
    let data :=
      if fromVersion < 2 then
        if data.createdTimestamp = 0 then { data with createdTimestamp := now } else data
      else data
    { data with fileVersion := kCurrentVersion }

/-! ## The service -/

inductive Signal where
  | projectOpened (name : String)
  | projectSaved (name : String)
  | projectError (message : String)

/-- What is in a file. -/
inductive Content where
  /-- no JSON -/
  | text
  | json (v : QJsonValue)

abbrev Files := String → Option Content

structure Service where
  data : ProjectData := {}
  filePath : String := ""
  modified : Bool := false
  recentProjects : List String := []
  signals : List Signal := []

def Service.signal (s : Service) (signal : Signal) : Service := { s with signals := s.signals ++ [signal] }

def Service.error (s : Service) (message : String) : Bool × Service := (false, s.signal (.projectError message))

def unsupported (fileVersion : Int) : String :=
  arg (arg "Unsupported file version: %1 (max: %2)" (number fileVersion)) (number kCurrentVersion.toInt)

/-- The stored checksum, if there is one, is that of the object. -/
def checksumMatches (root : QJsonObject) : Bool :=
  let storedChecksum := toStringD (value root "checksum") ""
  storedChecksum == "" || toLatin1 storedChecksum.toList == objectChecksum lib root

/-- mirrors apps/ecat-studio/services/ProjectManagerService.cpp:269-325 -/
def readProjectFile (files : Files) (now : Int64) (path : String) (s : Service) : Bool × Service :=
  if path = "" then s.error "Project path is empty"
  else
    match files path with
    | none => s.error (arg "Cannot read file: %1" path)
    | some (.json (.object root)) =>
      let fileVersion := toIntD (value root "fileVersion") 0
      if kCurrentVersion.toInt < fileVersion then s.error (unsupported fileVersion)
      else if !checksumMatches lib root then s.error "Checksum mismatch — file may be corrupted"
      else
        let (loaded, error) := ProjectData.fromJson lib root
        if !loaded.isValid then s.error (error.getD "")
        else
          let loaded := if loaded.fileVersion < kCurrentVersion then loaded.migrate now loaded.fileVersion else loaded
          (true, { s with data := loaded })
    | some _ => s.error "Invalid project file format"

/-- mirrors apps/ecat-studio/services/ProjectManagerService.cpp:331-338 -/
def Service.addRecentProject (s : Service) (path : String) : Service :=
  { s with recentProjects := (path :: s.recentProjects.filter (· ≠ path)).take kMaxRecentProjects }

/-- mirrors apps/ecat-studio/services/ProjectManagerService.cpp:120-128 -/
def openProject (files : Files) (now : Int64) (filePath : String) (s : Service) : Bool × Service :=
  match readProjectFile lib files now filePath s with
  | (false, s) => (false, s)
  | (true, s) =>
    let s := ({ s with filePath := filePath, modified := false }).addRecentProject filePath
    (true, s.signal (.projectOpened s.data.name))

/-- Whether the file is a project, or what is wrong.
mirrors apps/ecat-studio/services/ProjectManagerService.cpp:161-214 -/
def validateProject (files : Files) (filePath : String) : Except String Unit :=
  if filePath = "" then .error "Project path is empty"
  else
    match files filePath with
    | none => .error (arg "Cannot open file: %1" filePath)
    | some (.json (.object root)) =>
      if !contains root "name" || !contains root "fileVersion" then .error "Missing required project fields"
      else if !checksumMatches lib root then .error "Checksum mismatch — file may be corrupted"
      else
        let fileVersion := toIntD (value root "fileVersion") 0
        if kCurrentVersion.toInt < fileVersion then .error (unsupported fileVersion) else .ok ()
    | some _ => .error "Invalid JSON format"

end

/-! ## What is accepted -/

/-- The version is known and the checksum, if there is one, is right. -/
structure Accepted (lib : Library) (root : QJsonObject) : Prop where
  version : toIntD (value root "fileVersion") 0 ≤ kCurrentVersion.toInt
  checksum : checksumMatches lib root = true

/-- The fields that validating asks for. -/
def Complete (root : QJsonObject) : Prop := contains root "name" = true ∧ contains root "fileVersion" = true

section
variable {lib : Library} {files : Files} {now : Int64} {path : String} {s : Service}

/-- A project that is not valid is replaced by one that is. -/
theorem isValid_fromJson (root : QJsonObject) : (ProjectData.fromJson lib root).1.isValid = true := by
  simp only [ProjectData.fromJson]
  split
  · assumption
  · decide

theorem readProjectFile_object {root : QJsonObject} (hpath : path ≠ "") (hfile : files path = some (.json (.object root))) :
    (readProjectFile lib files now path s).1 = true ↔ Accepted lib root := by
  have hvalid := @isValid_fromJson lib root
  unfold readProjectFile
  rw [if_neg hpath, hfile]
  simp only
  split
  · rename_i hversion
    exact iff_of_false (fun h => nomatch h) fun h => absurd h.version (Int.not_le.2 hversion)
  · rename_i hversion
    split
    · rename_i hchecksum
      refine iff_of_false (fun h => nomatch h) fun h => ?_
      rw [h.checksum] at hchecksum
      cases hchecksum
    · rename_i hchecksum
      rw [if_neg (by simp [hvalid])]
      exact iff_of_true rfl ⟨Int.not_lt.1 hversion, by simpa using hchecksum⟩

theorem readProjectFile_other (h : path = "" ∨ ∀ root, files path ≠ some (.json (.object root))) :
    (readProjectFile lib files now path s).1 = false := by
  unfold readProjectFile
  split
  · rfl
  · rename_i hpath
    split
    · rfl
    · rename_i root hfile
      exact absurd hfile ((h.resolve_left hpath) root)
    · rfl

theorem openProject_iff : (openProject lib files now path s).1 = true ↔
    path ≠ "" ∧ ∃ root, files path = some (.json (.object root)) ∧ Accepted lib root := by
  have hread : (openProject lib files now path s).1 = (readProjectFile lib files now path s).1 := by
    unfold openProject
    split <;> rename_i hread <;> rw [hread]
  rw [hread]
  constructor
  · intro h
    have hobject : ¬ (path = "" ∨ ∀ root, files path ≠ some (.json (.object root))) := fun hother => by
      rw [readProjectFile_other hother] at h
      cases h
    rw [not_or, not_forall] at hobject
    obtain ⟨hpath, root, hfile⟩ := hobject
    have hfile := Classical.not_not.1 hfile
    exact ⟨hpath, root, hfile, (readProjectFile_object hpath hfile).1 h⟩
  · rintro ⟨hpath, root, hfile, haccepted⟩
    exact (readProjectFile_object hpath hfile).2 haccepted

theorem validateProject_iff : validateProject lib files path = .ok () ↔
    path ≠ "" ∧ ∃ root, files path = some (.json (.object root)) ∧ Accepted lib root ∧ Complete root := by
  unfold validateProject
  constructor
  · intro h
    split at h
    · cases h
    · rename_i hpath
      refine ⟨hpath, ?_⟩
      split at h
      · cases h
      · rename_i root hfile
        refine ⟨root, hfile, ?_⟩
        split at h
        · cases h
        · rename_i hfields
          split at h
          · cases h
          · rename_i hchecksum
            simp only at h
            split at h
            · cases h
            · rename_i hversion
              refine ⟨⟨Int.not_lt.1 hversion, by simpa using hchecksum⟩, ?_⟩
              simpa [Complete] using hfields
      · cases h
  · rintro ⟨hpath, root, hfile, haccepted, hcomplete⟩
    rw [if_neg hpath, hfile]
    simp only [hcomplete.1, hcomplete.2, haccepted.checksum, Bool.not_true, Bool.or_false, Bool.false_eq_true, if_false]
    rw [if_neg (Int.not_lt.2 haccepted.version)]

/-- **Validating agrees with opening** on a file iff it has both of the fields
that validating asks for, or is refused anyway. -/
theorem agree_iff (lib : Library) (files : Files) (now : Int64) (filePath : String) (s : Service) :
    (validateProject lib files filePath = .ok () ↔ (openProject lib files now filePath s).1 = true) ↔
      ∀ root, filePath ≠ "" → files filePath = some (.json (.object root)) → Accepted lib root → Complete root := by
  rw [validateProject_iff, openProject_iff]
  constructor
  · intro hagree root hpath hfile haccepted
    obtain ⟨-, root', hfile', -, hcomplete⟩ := hagree.2 ⟨hpath, root, hfile, haccepted⟩
    rw [hfile] at hfile'
    cases hfile'
    exact hcomplete
  · intro hcomplete
    constructor
    · rintro ⟨hpath, root, hfile, haccepted, -⟩
      exact ⟨hpath, root, hfile, haccepted⟩
    · rintro ⟨hpath, root, hfile, haccepted⟩
      exact ⟨hpath, root, hfile, haccepted, hcomplete root hpath hfile haccepted⟩

end

/-- A file that holds `{}`. -/
def emptyObject : Files := fun _ => some (.json (.object []))

theorem empty_object_opened : ¬ ∀ (lib : Library) (files : Files) (now : Int64) (filePath : String) (s : Service),
    validateProject lib files filePath = .ok () ↔ (openProject lib files now filePath s).1 = true := by
  intro h
  have hboth := h ⟨fun _ => [], fun _ => 0⟩ emptyObject 0 "a" {}
  exact absurd (hboth.2 rfl) (by decide)

end NekoEcat.L4.ProjectManager
