import NekoEcat.L4Gui.ProjectSave

/-!
# A project that could not be saved

Saving stamps the project in memory, opens its file, which empties it, and writes. There
is no second file that takes its place when everything is written.

* `failed`: what a save that fails leaves in memory and in the files.
* `stamped_again`: what a later save writes.
* `emptied`: a file that is lost.
-/
namespace NekoEcat.L4.ProjectManager
open NekoEcat.Bytes NekoEcat.QJson

section
variable (lib : Library) (nestingLimit : Nat) (written : Written)

/-- mirrors apps/ecat-studio/services/ProjectManagerService.cpp:141-150 -/
def saveProjectAs (now : Int64) (filePath : String) (s : Service) (files : Files) : Bool × Service × Files :=
  let s := { s with data := s.data.updateTimestamps now }
  match writeProjectFile lib nestingLimit written filePath s files with
  | (false, s, files) => (false, s, files)
  | (true, s, files) =>
    let s := ({ s with filePath := filePath, modified := false }).addRecentProject filePath
    (true, s.signal (.projectSaved s.data.name), files)

/-- A save, to the project's own file or to another. -/
inductive Save where
  | project
  | projectAs (filePath : String)

/-- The file that is written. -/
def Save.target (s : Service) : Save → String
  | .project => s.filePath
  | .projectAs filePath => filePath

def Save.run (now : Int64) (s : Service) (files : Files) : Save → Bool × Service × Files
  | .project => saveProject lib nestingLimit written now s files
  | .projectAs filePath => saveProjectAs lib nestingLimit written now filePath s files

/-- The project that is in memory when the file is written: without a path there is no
checksum, and a project that has none is not even stamped. -/
def Save.attempted (now : Int64) (s : Service) (save : Save) : ProjectData :=
  if save.target s ≠ "" then s.stamped lib now
  else
    match save with
    | .project => s.data
    | .projectAs _ => s.data.updateTimestamps now

end

/-! ## Failing -/

/-- The files, by how far the writing got. -/
def Written.leaves (target : String) (files : Files) (written : Written) : Files :=
  if target = "" then files
  else
    match written with
    | .short left => files.put target left
    | .denied | .done => files

/-- A save that failed. -/
structure Failed (lib : Library) (written : Written) (now : Int64) (save : Save) (s : Service) (files : Files) (s' : Service)
    (files' : Files) : Prop where
  filePath : s'.filePath = s.filePath
  modified : s'.modified = s.modified
  recentProjects : s'.recentProjects = s.recentProjects
  data : s'.data = save.attempted lib now s
  files : files' = written.leaves (save.target s) files

section
variable {lib : Library} {nestingLimit : Nat} {written : Written} {now : Int64} {s : Service} {files : Files}

/-- A failed write reports an error and leaves the project with its checksum. -/
theorem writeProjectFile_failed {path : String} (h : (writeProjectFile lib nestingLimit written path s files).1 = false) :
    ∃ message, (writeProjectFile lib nestingLimit written path s files).2 =
      (({ s with data := if path = "" then s.data else s.data.withChecksum lib } : Service).signal (.projectError message),
        written.leaves path files) := by
  unfold writeProjectFile at h ⊢
  by_cases hpath : path = ""
  · simp only [if_pos hpath, Written.leaves]
    exact ⟨_, rfl⟩
  · simp only [if_neg hpath, Written.leaves] at h ⊢
    cases written with
    | denied => exact ⟨_, rfl⟩
    | short left => exact ⟨_, rfl⟩
    | done => cases h

theorem saveProject_failed (h : (saveProject lib nestingLimit written now s files).1 = false) :
    Failed lib written now .project s files (saveProject lib nestingLimit written now s files).2.1
      (saveProject lib nestingLimit written now s files).2.2 := by
  unfold saveProject at h ⊢
  by_cases hpath : s.filePath = ""
  · simp only [if_pos hpath]
    refine ⟨rfl, rfl, rfl, ?_, ?_⟩
    · rw [Save.attempted, Save.target, if_neg (not_not_intro hpath)]
    · unfold Written.leaves
      exact (if_pos hpath).symm
  · simp only [if_neg hpath] at h ⊢
    split at h
    · rename_i hwrite
      obtain ⟨message, hafter⟩ := writeProjectFile_failed (congrArg Prod.fst hwrite)
      rw [hwrite] at hafter
      cases hafter
      refine ⟨rfl, rfl, rfl, ?_, rfl⟩
      rw [Save.attempted, Save.target, if_pos hpath]
      simp only [if_neg hpath]
      rfl
    · cases h

theorem saveProjectAs_failed {filePath : String}
    (h : (saveProjectAs lib nestingLimit written now filePath s files).1 = false) :
    Failed lib written now (.projectAs filePath) s files (saveProjectAs lib nestingLimit written now filePath s files).2.1
      (saveProjectAs lib nestingLimit written now filePath s files).2.2 := by
  unfold saveProjectAs at h ⊢
  simp only at h ⊢
  split at h
  · rename_i hwrite
    obtain ⟨message, hafter⟩ := writeProjectFile_failed (congrArg Prod.fst hwrite)
    rw [hwrite] at hafter
    cases hafter
    refine ⟨rfl, rfl, rfl, ?_, rfl⟩
    rw [Save.attempted, Save.target]
    by_cases hpath : filePath = ""
    · simp only [hpath, ne_eq, not_true, if_false]
      rfl
    · simp only [hpath, ne_eq, not_false_eq_true, if_true]
      rfl
  · cases h

/-- The same work, stamped or not. -/
def ProjectData.SameWork (data data' : ProjectData) : Prop :=
  data' = { data with
    modifiedTimestamp := data'.modifiedTimestamp
    createdTimestamp := data'.createdTimestamp
    fileVersion := data'.fileVersion
    checksum := data'.checksum }

theorem sameWork_attempted (save : Save) : s.data.SameWork (save.attempted lib now s) := by
  unfold Save.attempted
  split
  · rfl
  · cases save with
    | project => rfl
    | projectAs filePath => rfl

theorem leaves_elsewhere {target path : String} (hpath : path ≠ target) :
    written.leaves target files path = files path := by
  unfold Written.leaves
  split
  · rfl
  · cases written with
    | denied => rfl
    | short left => exact if_neg hpath
    | done => rfl

/-- **A save that fails** leaves the path, the modified flag and the recent projects, the
project up to its stamps, and all files but its own; its own is left too unless it could
be opened. -/
theorem failed (lib : Library) (nestingLimit : Nat) (written : Written) (now : Int64) (s : Service) (files : Files)
    (save : Save) (h : (save.run lib nestingLimit written now s files).1 = false) :
    let after := (save.run lib nestingLimit written now s files).2
    Failed lib written now save s files after.1 after.2 ∧ s.data.SameWork after.1.data ∧
      ∀ path, path ≠ save.target s → after.2 path = files path := by
  have hfailed : Failed lib written now save s files (save.run lib nestingLimit written now s files).2.1
      (save.run lib nestingLimit written now s files).2.2 := by
    cases save with
    | project => exact saveProject_failed h
    | projectAs filePath => exact saveProjectAs_failed h
  refine ⟨hfailed, ?_, fun path hpath => ?_⟩
  · rw [hfailed.data]
    exact sameWork_attempted save
  · rw [hfailed.files, leaves_elsewhere hpath]

/-- A file that is not to be opened. -/
theorem failed_denied :
    let save := Save.projectAs "b.ecatproj"
    let after := (save.run (digest "00") 1024 .denied 5 { filePath := "a.ecatproj", modified := true } fun _ => some .text).2
    after.1.filePath = "a.ecatproj" ∧ after.1.modified = true ∧ after.2 "b.ecatproj" = some .text :=
  let hboth := failed (digest "00") 1024 .denied 5 { filePath := "a.ecatproj", modified := true } (fun _ => some .text)
    (.projectAs "b.ecatproj") rfl
  ⟨hboth.1.filePath, hboth.1.modified, congrFun hboth.1.files "b.ecatproj"⟩

/-- Opening the file empties it. -/
theorem emptied :
    ¬∀ (lib : Library) (nestingLimit : Nat) (written : Written) (now : Int64) (s : Service) (files : Files) (save : Save),
      (save.run lib nestingLimit written now s files).1 = false →
      let after := (save.run lib nestingLimit written now s files).2
      after.2 (save.target s) = files (save.target s) ∧ after.1.data = s.data ∧ after.1.filePath = s.filePath ∧
        after.1.modified = s.modified := by
  intro hkept
  have hfile := (hkept (digest "00") 1024 (.short .text) 5 { filePath := "a.ecatproj" }
    (fun _ => some (.json (.object []))) .project rfl).1
  cases hfile

/-! ## Saving again -/

theorem computeChecksum_of_checksum (data : ProjectData) (checksum : Bytes) :
    ({ data with checksum := checksum } : ProjectData).computeChecksum lib = data.computeChecksum lib := by
  -- a library whose every hash is this checksum
  let constant : Library := ⟨fun _ => checksum, lib.roundDouble⟩
  have hdata : ({ data with checksum := checksum } : ProjectData) = data.withChecksum constant := rfl
  unfold ProjectData.computeChecksum objectChecksum
  rw [hdata, ← insert_checksum constant data, remove_insert]

/-- A project that has its creation time is written by a later save as if the one that
failed had not been made. -/
theorem stamped_again {save : Save} {later : Int64} {s' : Service} {files' : Files} (hcreated : s.data.createdTimestamp ≠ 0)
    (hfailed : Failed lib written now save s files s' files') : s'.stamped lib later = s.stamped lib later := by
  have hstamp (checksum : Bytes) (data : ProjectData) :
      ({ data with checksum := checksum } : ProjectData).withChecksum lib = data.withChecksum lib := by
    rw [ProjectData.withChecksum, computeChecksum_of_checksum]
    rfl
  have htimes : (s.data.updateTimestamps now).updateTimestamps later = s.data.updateTimestamps later := by
    simp only [ProjectData.updateTimestamps, if_neg hcreated]
  unfold Service.stamped
  rw [hfailed.data]
  unfold Save.attempted
  split
  · rw [← htimes]
    exact hstamp _ ((s.data.updateTimestamps now).updateTimestamps later)
  · cases save with
    | project => rfl
    | projectAs filePath => rw [htimes]

end

end NekoEcat.L4.ProjectManager
