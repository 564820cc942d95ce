import NekoEcat.L4Gui.ProjectOpen

/-!
# Project files written and opened again

Each section is written and read back. Cells come back as they were where they
are in the form that reading gives them: trimmed, addresses in normal form,
positions as numbers, one bookmark for an object, keys that are put together again
from their parts. A table without rows leaves those that were there before.

* `KeptTrail`, `KeptBookmark`, `KeptEvidence`, `KeptMetadata`: these forms.
* `Restorable`: both tables have rows, and all is in its form.
* `opened_iff`: which files are opened alike in all windows, and whose files
  restore the window in all windows.
* `leftover_watch`: a row of the project before that stays.
-/
namespace NekoEcat.L4.ProjectFile
open NekoEcat.QJson NekoEcat.QNumber NekoEcat.QString NekoEcat.L4.SdoWrites
open NekoEcat.L4.WatchTable (tableObjectAddressMatches toInt_range number_bar)

/-! ## Texts -/

section
variable (s : String) (minimumDigits : Nat)

theorem toList_trimmed : (trimmed s).toList = trim s.toList := String.toList_ofList

theorem toList_normalized : (normalized s minimumDigits).toList = normalizeHexText s.toList minimumDigits :=
  String.toList_ofList

@[simp] theorem trimmed_trimmed : trimmed (trimmed s) = trimmed s := by
  apply String.toList_injective
  rw [toList_trimmed, toList_trimmed, trim_trim]

@[simp] theorem trimmed_normalized : trimmed (normalized s minimumDigits) = normalized s minimumDigits := by
  apply String.toList_injective
  rw [toList_trimmed, toList_normalized, trim_normalizeHexText]

@[simp] theorem normalized_trimmed : normalized (trimmed s) minimumDigits = normalized s minimumDigits := by
  apply String.toList_injective
  rw [toList_normalized, toList_normalized, toList_trimmed]
  exact normalizeHexText_congr (trim_trim _) _

@[simp] theorem normalized_normalized :
    normalized (normalized s minimumDigits) minimumDigits = normalized s minimumDigits := by
  apply String.toList_injective
  rw [toList_normalized, toList_normalized, normalizeHexText_idem]

theorem normalized_eq_empty : normalized s minimumDigits = "" ↔ trimmed s = "" := by
  rw [← String.toList_inj, ← String.toList_inj, toList_normalized, toList_trimmed]
  constructor
  · intro h
    rcases normalizeHexText_cases s.toList minimumDigits with hc | ⟨n, -, hc⟩
    · rw [hc] at h
      exact List.map_eq_nil_iff.1 h
    · rw [hc] at h
      cases h
  · intro h
    change trim s.toList = [] at h
    simp [normalizeHexText, h]

variable {s minimumDigits} in
/-- A text that is given keeps a normal form. -/
theorem trimmed_normalized_ne (h : trimmed s ≠ "") : trimmed (normalized s minimumDigits) ≠ "" := by
  rw [trimmed_normalized]
  exact mt (normalized_eq_empty s minimumDigits).1 h

@[simp] theorem intOf_trimmed : intOf (trimmed s) = intOf s := by
  rw [intOf, intOf, toList_trimmed, toInt_trim]

theorem intOf_range : -2 ^ 31 ≤ intOf s ∧ intOf s < 2 ^ 31 := by
  unfold intOf
  cases h : toInt 10 s.toList with
  | none => constructor <;> decide
  | some n => exact toInt_range h

@[simp] theorem toIntD_intOf (dflt : Int) : toIntD (.int (intOf s)) dflt = intOf s := if_pos (intOf_range s)

theorem intOf_number {n : Int} (h : -2 ^ 31 ≤ n) (h' : n < 2 ^ 31) : intOf (QString.number n) = n := by
  rw [intOf, toInt_number h h', Option.getD_some]

end

/-! ## Sections of the file -/

/-- The keys of a project file, in the order they are written. -/
def sectionKeys : List String :=
  ["format", "version", "name", "savedAt", "selectedPosition", "activeMaster", "masters", "sdoIndex", "sdoSubIndex",
    "sdoEvidence", "slaves", "topologyBaseline", "watch", "sdoTargetTrail", "objectBookmarks", "ioVariables",
    "startupSdos", "notes", "snapshots"]

theorem sectionKeys_nodup : sectionKeys.Nodup := by decide +kernel

theorem value_section {fs : List (String × QJsonValue)} (hfs : fs.map (·.1) = sectionKeys) {i : Nat} {k : String}
    {v : QJsonValue} (h : fs[i]? = some (k, v)) : value (ofList fs) k = v :=
  value_ofList (hfs ▸ sectionKeys_nodup) h

section
variable {t : Locale} (w : Window) (name savedAt : String)

theorem accepted_written : Accepted (writeProjectFile w name savedAt) := by
  have hformat : value (writeProjectFile w name savedAt) "format" = .string "NekoEcatStudioProject" :=
    value_section rfl (i := 0) rfl
  exact Or.inl (by rw [text, hformat, toStringD])

theorem readSlave_slaveObject (slave : SlaveInfo) : readSlave (slaveObject slave) = slave := by
  have hp : toIntD (.int slave.position.toInt) 0 = slave.position.toInt :=
    if_pos ⟨slave.position.le_toInt, slave.position.toInt_lt⟩
  simp [readSlave, slaveObject, toObject, text, ofList, value_insert, toStringD, hp]

theorem readSlaves_written : readSlaves (writeProjectFile w name savedAt) "slaves" = w.slaves := by
  have h : value (writeProjectFile w name savedAt) "slaves" = .array (w.slaves.map slaveObject) :=
    value_section rfl (i := 10) rfl
  rw [readSlaves, h, toArray, List.map_map]
  exact List.map_id'' readSlave_slaveObject _

theorem readWatch_written : readWatch (writeProjectFile w name savedAt) = w.watch := by
  have h : value (writeProjectFile w name savedAt) "watch" = .array (w.watch.map watchArray) :=
    value_section rfl (i := 12) rfl
  rw [readWatch, h, toArray, List.map_map]
  exact List.map_id'' (fun r => rfl) _

theorem readStartup_written :
    readStartup (writeProjectFile w name savedAt) =
      w.startup.map fun r => { r with position := QString.number (intOf r.position) } := by
  have h : value (writeProjectFile w name savedAt) "startupSdos" = .array (w.startup.map startupObject) :=
    value_section rfl (i := 16) rfl
  rw [readStartup, h, toArray, List.map_map]
  apply List.map_congr_left
  intro r _
  simp [readStartupRow, startupObject, toObject, text, ofList, value_insert, toStringD]

/-! ## Targets -/

/-- A list is what its elements make iff each makes itself. -/
theorem filterMap_eq_self {α : Type} {f : α → Option α} {l : List α} : l.filterMap f = l ↔ ∀ a ∈ l, f a = some a := by
  constructor
  · intro h
    induction l with
    | nil => simp
    | cons a l ih =>
      cases hf : f a with
      | none =>
        rw [List.filterMap_cons_none hf] at h
        have hlen := List.length_filterMap_le f l
        rw [h, List.length_cons] at hlen
        omega
      | some b =>
        rw [List.filterMap_cons_some hf] at h
        obtain ⟨hb, hl⟩ := List.cons.inj h
        intro c hc
        rcases List.mem_cons.1 hc with hc | hc
        · rw [hc, hf, hb]
        · exact ih hl c hc
  · intro h
    induction l with
    | nil => rfl
    | cons a l ih =>
      rw [List.filterMap_cons_some (h a List.mem_cons_self), ih fun b hb => h b (List.mem_cons_of_mem a hb)]

/-- A row that its file entry is read back as: texts without blanks around, a
position printed as a number, and an address in normal form. -/
structure KeptTrail (r : TrailRow) : Prop where
  texts : ∀ text ∈ [r.time, r.type, r.source, r.value, r.writeValue, r.detail], trimmed text = text
  position : QString.number (intOf r.position) = r.position
  index : normalized r.index 4 = r.index
  subIndex : normalized r.subIndex 2 = r.subIndex
  filled : r.index ≠ "" ∧ r.subIndex ≠ ""

theorem readTrailRow_trailObject (r : TrailRow) :
    (trailObject r).bind readTrailRow =
      if normalized r.index 4 = "" ∨ normalized r.subIndex 2 = "" then none
      else
        some ⟨trimmed r.time, QString.number (intOf r.position), normalized r.index 4, normalized r.subIndex 2,
          trimmed r.type, trimmed r.source, trimmed r.value, trimmed r.writeValue, trimmed r.detail⟩ := by
  unfold trailObject
  simp only [normalized_trimmed, trimmed_normalized, intOf_trimmed]
  split
  · rfl
  · rename_i h
    simp [readTrailRow, toObject, text, ofList, value_insert, toStringD, h]

theorem keptTrail_iff {r : TrailRow} : (trailObject r).bind readTrailRow = some r ↔ KeptTrail r := by
  rw [readTrailRow_trailObject]
  constructor
  · intro h
    split at h
    · cases h
    · rename_i hne
      rw [not_or] at hne
      obtain ⟨time, position, index, subIndex, type, source, value, writeValue, detail⟩ := r
      obtain ⟨htime, hposition, hi, hj, htype, hsource, hvalue, hwrite, hdetail⟩ :=
        TrailRow.mk.inj (Option.some.inj h)
      dsimp only at hne
      rw [hi, hj] at hne
      refine ⟨?_, hposition, hi, hj, hne⟩
      simp only [List.forall_mem_cons]
      exact ⟨htime, htype, hsource, hvalue, hwrite, hdetail, by simp⟩
  · intro h
    have htexts := h.texts
    simp only [List.forall_mem_cons] at htexts
    obtain ⟨h1, h2, h3, h4, h5, h6, -⟩ := htexts
    have hne : ¬(normalized r.index 4 = "" ∨ normalized r.subIndex 2 = "") := by
      rw [h.index, h.subIndex, not_or]
      exact h.filled
    rw [if_neg hne, h1, h2, h3, h4, h5, h6, h.position, h.index, h.subIndex]

theorem readTrail_written :
    readTrail (writeProjectFile w name savedAt) = w.sdoTargetTrail ↔ ∀ r ∈ w.sdoTargetTrail, KeptTrail r := by
  have h : value (writeProjectFile w name savedAt) "sdoTargetTrail" =
      .array (w.sdoTargetTrail.filterMap trailObject) :=
    value_section rfl (i := 13) rfl
  rw [readTrail, h, toArray, List.filterMap_filterMap, filterMap_eq_self]
  exact forall₂_congr fun r _ => keptTrail_iff

end

/-! ## Bookmarks -/

/-- As `KeptTrail`; the name is that of the slave at the position, and a source is
named. -/
structure KeptBookmark (slaves : List SlaveInfo) (b : BookmarkRow) : Prop where
  texts : ∀ text ∈ [b.access, b.type, b.bits, b.name, b.lastValue, b.source], trimmed text = text
  source : b.source ≠ ""
  position : QString.number (intOf b.position) = b.position
  slave : 0 ≤ intOf b.position ∧ slaveNameAt slaves (intOf b.position) = b.slaveName
  index : normalized b.index 4 = b.index
  subIndex : normalized b.subIndex 2 = b.subIndex
  filled : b.index ≠ "" ∧ b.subIndex ≠ ""

def BookmarkRow.address (b : BookmarkRow) : String × String × String := (b.position, b.index, b.subIndex)

/-- Rows that are read back: each for itself, and no two of one object. -/
structure KeptBookmarks (slaves : List SlaveInfo) (rows : List BookmarkRow) : Prop where
  kept : ∀ b ∈ rows, KeptBookmark slaves b
  one : (rows.map BookmarkRow.address).Nodup

section
variable (t : Locale) (slaves : List SlaveInfo)

def Targeted (b : BookmarkRow) : Prop :=
  0 ≤ intOf b.position ∧ normalized b.index 4 ≠ "" ∧ normalized b.subIndex 2 ≠ ""

instance (b : BookmarkRow) : Decidable (Targeted b) := inferInstanceAs (Decidable (_ ∧ _))

/-- The row that a row becomes. -/
def restoredBookmark (b : BookmarkRow) : BookmarkRow where
  position := QString.number (intOf b.position)
  slaveName := slaveNameAt slaves (intOf b.position)
  index := normalized b.index 4
  subIndex := normalized b.subIndex 2
  access := trimmed b.access
  type := trimmed b.type
  bits := trimmed b.bits
  name := trimmed b.name
  lastValue := trimmed b.lastValue
  source := if trimmed b.source = "" then t.uiText "Project" else trimmed b.source

def restoreBookmark (rows : List BookmarkRow) (b : BookmarkRow) : List BookmarkRow :=
  if Targeted b then
    placeBookmark rows (intOf (restoredBookmark t slaves b).position) (restoredBookmark t slaves b)
  else rows

theorem readBookmark_bookmarkObject (rows : List BookmarkRow) (b : BookmarkRow) :
    (match bookmarkObject b with
      | some v => readBookmark t slaves rows v
      | none => rows) = restoreBookmark t slaves rows b := by
  have hnumber : intOf (QString.number (intOf b.position)) = intOf b.position :=
    intOf_number (intOf_range _).1 (intOf_range _).2
  unfold bookmarkObject restoreBookmark
  simp only [normalized_trimmed, trimmed_normalized, intOf_trimmed]
  by_cases h : normalized b.index 4 = "" ∨ normalized b.subIndex 2 = ""
  · have hno : ¬Targeted b := fun hc => h.elim hc.2.1 hc.2.2
    rw [if_pos h, if_neg hno]
  · rw [if_neg h]
    rw [not_or] at h
    by_cases hp : 0 ≤ intOf b.position
    · have hlt : ¬intOf b.position < 0 := by omega
      have htarget : Targeted b := ⟨hp, h⟩
      rw [if_pos htarget]
      simp only [readBookmark, toObject, text, ofList, value_insert, List.foldl_cons, List.foldl_nil]
      simp [toStringD, addObjectBookmark, h, hlt, restoredBookmark, hnumber]
    · have hlt : intOf b.position < 0 := by omega
      have hno : ¬Targeted b := fun hc => hp hc.1
      rw [if_neg hno]
      simp only [readBookmark, toObject, text, ofList, value_insert, List.foldl_cons, List.foldl_nil]
      simp [toStringD, addObjectBookmark, h, hlt]

end

section
variable {t : Locale} {slaves : List SlaveInfo} {rows : List BookmarkRow} {b r : BookmarkRow}

theorem KeptBookmark.number (h : KeptBookmark slaves b) : toInt 10 (trim b.position.toList) = some (intOf b.position) := by
  obtain ⟨hlow, hhigh⟩ := intOf_range b.position
  calc toInt 10 (trim b.position.toList)
    _ = toInt 10 b.position.toList := toInt_trim 10 _
    _ = toInt 10 (QString.number (intOf b.position)).toList := by rw [h.position]
    _ = some (intOf b.position) := toInt_number hlow hhigh

/-- Rows match if their addresses are the same texts. -/
theorem KeptBookmark.matches_iff (hr : KeptBookmark slaves r) (hb : KeptBookmark slaves b) :
    tableObjectAddressMatches ⟨r.position, r.index, r.subIndex, r.lastValue⟩ (intOf b.position) b.index b.subIndex = true ↔
      r.address = b.address := by
  have hlist : ∀ {s : String} {n : Nat}, normalized s n = s → normalizeHexText (trim s.toList) n = s.toList ∧
      normalizeHexText s.toList n = s.toList ∧ trim s.toList = s.toList := by
    intro s n hs
    have hn : normalizeHexText s.toList n = s.toList := by rw [← toList_normalized, hs]
    refine ⟨(normalizeHexText_congr (trim_trim _) n).trans hn, hn, ?_⟩
    rw [← toList_trimmed, ← hs, trimmed_normalized]
  have hfilled : b.index.toList ≠ [] ∧ b.subIndex.toList ≠ [] := by
    simpa using hb.filled
  obtain ⟨hri, -, -⟩ := hlist hr.index
  obtain ⟨hrj, -, -⟩ := hlist hr.subIndex
  obtain ⟨-, hbi, hti⟩ := hlist hb.index
  obtain ⟨-, hbj, htj⟩ := hlist hb.subIndex
  have hposition : intOf r.position = intOf b.position ↔ r.position = b.position := by
    constructor
    · intro h
      rw [← hr.position, ← hb.position, h]
    · intro h
      rw [h]
  simp [tableObjectAddressMatches, BookmarkRow.address, hr.number, hri, hrj, hbi, hbj, hti, htj, hfilled, hb.slave.1,
    hposition, String.toList_inj]

theorem kept_restored (t : Locale) (h : Targeted b) : KeptBookmark slaves (restoredBookmark t slaves b) := by
  have hnumber : intOf (QString.number (intOf b.position)) = intOf b.position :=
    intOf_number (intOf_range _).1 (intOf_range _).2
  have hsource : trimmed (restoredBookmark t slaves b).source = (restoredBookmark t slaves b).source ∧
      (restoredBookmark t slaves b).source ≠ "" := by
    unfold restoredBookmark
    dsimp only
    split
    · exact t.project
    · rename_i hs
      exact ⟨trimmed_trimmed _, hs⟩
  exact {
    texts := by
      simp only [List.forall_mem_cons]
      exact ⟨trimmed_trimmed _, trimmed_trimmed _, trimmed_trimmed _, trimmed_trimmed _, trimmed_trimmed _, hsource.1,
        by simp⟩
    source := hsource.2
    position := congrArg QString.number hnumber
    slave := by
      refine ⟨?_, congrArg (slaveNameAt slaves) hnumber⟩
      rw [show intOf (restoredBookmark t slaves b).position = intOf b.position from hnumber]
      exact h.1
    index := normalized_normalized _ _
    subIndex := normalized_normalized _ _
    filled := h.2 }

/-- A kept row becomes itself. -/
theorem restored_of_kept (h : KeptBookmark slaves b) : Targeted b ∧ restoredBookmark t slaves b = b := by
  have htexts := h.texts
  simp only [List.forall_mem_cons] at htexts
  obtain ⟨h1, h2, h3, h4, h5, h6, -⟩ := htexts
  constructor
  · refine ⟨h.slave.1, ?_⟩
    rw [h.index, h.subIndex]
    exact h.filled
  · rw [restoredBookmark, h1, h2, h3, h4, h5, h6, h.position, h.slave.2, h.index, h.subIndex, if_neg h.source]

theorem place_new (h : KeptBookmarks slaves rows) (hb : KeptBookmark slaves b)
    (hnew : b.address ∉ rows.map BookmarkRow.address) : placeBookmark rows (intOf b.position) b = rows ++ [b] := by
  have hnone : (rows.findIdx? fun r =>
      tableObjectAddressMatches ⟨r.position, r.index, r.subIndex, r.lastValue⟩ (intOf b.position) b.index b.subIndex) = none := by
    rw [List.findIdx?_eq_none_iff]
    intro r hr
    rw [Bool.eq_false_iff]
    intro hm
    exact hnew (List.mem_map.2 ⟨r, hr, ((h.kept r hr).matches_iff hb).1 hm⟩)
  rw [placeBookmark, hnone]

theorem KeptBookmarks.append (h : KeptBookmarks slaves rows) (hb : KeptBookmark slaves b)
    (hnew : b.address ∉ rows.map BookmarkRow.address) : KeptBookmarks slaves (rows ++ [b]) := by
  constructor
  · intro r hr
    rcases List.mem_append.1 hr with hr | hr
    · exact h.kept r hr
    · rw [List.mem_singleton.1 hr]
      exact hb
  · rw [List.map_append, List.map_singleton, ← List.concat_eq_append]
    exact List.Nodup.concat hnew h.one

theorem place_kept (h : KeptBookmarks slaves rows) (hb : KeptBookmark slaves b) :
    KeptBookmarks slaves (placeBookmark rows (intOf b.position) b) := by
  by_cases hnew : b.address ∈ rows.map BookmarkRow.address
  · unfold placeBookmark
    split
    · rename_i row hrow
      obtain ⟨hlt, hm, -⟩ := List.findIdx?_eq_some_iff_getElem.1 hrow
      have haddress := ((h.kept _ (List.getElem_mem hlt)).matches_iff hb).1 hm
      constructor
      · intro r hr
        rcases List.mem_or_eq_of_mem_set hr with hr | hr
        · exact h.kept r hr
        · rw [hr]
          exact hb
      · have hsame : (rows.set row b).map BookmarkRow.address = rows.map BookmarkRow.address := by
          rw [List.map_set, ← haddress, ← List.getElem_map BookmarkRow.address, List.set_getElem_self]
          simpa using hlt
        rw [hsame]
        exact h.one
    · rename_i hnone
      obtain ⟨r, hr, haddress⟩ := List.mem_map.1 hnew
      have hm := List.findIdx?_eq_none_iff.1 hnone r hr
      rw [((h.kept r hr).matches_iff hb).2 haddress] at hm
      cases hm
  · rw [place_new h hb hnew]
    exact h.append hb hnew

theorem restore_kept (t : Locale) (h : KeptBookmarks slaves rows) (b : BookmarkRow) :
    KeptBookmarks slaves (restoreBookmark t slaves rows b) := by
  unfold restoreBookmark
  split
  · rename_i htarget
    exact place_kept h (kept_restored t htarget)
  · exact h

theorem restore_all_kept (t : Locale) (h : KeptBookmarks slaves rows) (bs : List BookmarkRow) :
    KeptBookmarks slaves (bs.foldl (restoreBookmark t slaves) rows) := by
  induction bs generalizing rows with
  | nil => exact h
  | cons b bs ih => exact ih (restore_kept t h b)

/-- Kept rows are put back one behind the other. -/
theorem restore_all (bs : List BookmarkRow) (h : KeptBookmarks slaves (rows ++ bs)) :
    bs.foldl (restoreBookmark t slaves) rows = rows ++ bs := by
  induction bs generalizing rows with
  | nil => simp
  | cons b bs ih =>
    have hmap := h.one
    rw [List.map_append, List.map_cons] at hmap
    have hrows : KeptBookmarks slaves rows :=
      ⟨fun r hr => h.kept r (List.mem_append_left _ hr), (List.nodup_append.1 hmap).1⟩
    have hb : KeptBookmark slaves b := h.kept b (by simp)
    have hnew : b.address ∉ rows.map BookmarkRow.address := by
      intro hmem
      exact (List.nodup_append.1 hmap).2.2 _ hmem _ List.mem_cons_self rfl
    obtain ⟨htarget, hself⟩ := restored_of_kept (t := t) hb
    have hstep : restoreBookmark t slaves rows b = rows ++ [b] := by
      rw [restoreBookmark, if_pos htarget, hself]
      exact place_new hrows hb hnew
    rw [List.foldl_cons, hstep, ih (by simpa using h), List.append_assoc, List.singleton_append]

theorem readBookmarks_written (w : Window) (name savedAt : String) :
    readBookmarks t (writeProjectFile w name savedAt) slaves = w.objectBookmarks ↔
      KeptBookmarks slaves w.objectBookmarks := by
  have h : value (writeProjectFile w name savedAt) "objectBookmarks" =
      .array (w.objectBookmarks.filterMap bookmarkObject) :=
    value_section rfl (i := 14) rfl
  have hfold : readBookmarks t (writeProjectFile w name savedAt) slaves =
      w.objectBookmarks.foldl (restoreBookmark t slaves) [] := by
    rw [readBookmarks, h, toArray, List.foldl_filterMap]
    apply List.foldl_ext
    intro rows b _
    rw [← readBookmark_bookmarkObject]
    generalize bookmarkObject b = v
    cases v <;> rfl
  have hnil : KeptBookmarks slaves [] := ⟨by simp, List.nodup_nil⟩
  rw [hfold]
  constructor
  · intro heq
    rw [← heq]
    exact restore_all_kept t hnil _
  · intro hk
    exact @restore_all t slaves [] w.objectBookmarks hk

end

/-! ## Evidence and metadata -/

/-- A key without blanks around. -/
def KeptEvidence (e : String × Evidence) : Prop := trimmed e.1 = e.1 ∧ e.1 ≠ ""

/-- The key of an object, and texts without blanks around of which one is there. -/
structure KeptMetadata (e : String × Metadata) : Prop where
  key : ∃ position index subIndex, parts e.1 = [position, index, subIndex] ∧
    ioVariableTableObjectKey (intOf position) index subIndex = e.1
  texts : ∀ text ∈ [e.2.aliasName, e.2.tags, e.2.note], trimmed text = text
  named : e.2.aliasName ≠ "" ∨ e.2.tags ≠ "" ∨ e.2.note ≠ ""

theorem readEvidence_evidenceObject (e : String × Evidence) :
    readEvidence (evidenceObject e) = if trimmed e.1 = "" then none else some (trimmed e.1, e.2) := by
  simp [readEvidence, evidenceObject, toObject, text, ofList, value_insert, toStringD]

theorem readEvidence_written (w : Window) (name savedAt : String) :
    (∀ k, (QHash.insertEach readEvidence QHash.empty
      (toArray (value (writeProjectFile w name savedAt) "sdoEvidence"))).value k = w.sdoEvidence.value k) ↔
        ∀ e ∈ w.sdoEvidence.entries, KeptEvidence e := by
  have h : value (writeProjectFile w name savedAt) "sdoEvidence" =
      .array ((w.sdoEvidence.sorted keyLe).map evidenceObject) :=
    value_section rfl (i := 9) rfl
  rw [h, toArray, QHash.insertEach_map]
  apply QHash.value_rebuilt_iff
  · intro e he
    rw [readEvidence_evidenceObject, he.1, if_neg he.2]
  · intro e e' he
    rw [readEvidence_evidenceObject] at he
    split at he
    · cases he
    · rename_i hne
      cases he
      exact ⟨trimmed_trimmed _, hne⟩

/-! ### Keys -/

theorem not_mem_of_mem_splitOn {a : Char} {cs p : List Char} (h : p ∈ cs.splitOn a) : a ∉ p := by
  induction cs generalizing p with
  | nil =>
    rw [List.splitOn_nil, List.mem_singleton] at h
    simp [h]
  | cons c cs ih =>
    rw [List.splitOn_cons_eq_if_modifyHead] at h
    split at h
    · rcases List.mem_cons.1 h with h | h
      · simp [h]
      · exact ih h
    · rename_i hc
      cases hs : cs.splitOn a with
      | nil => exact absurd hs (List.splitOn_ne_nil a cs)
      | cons q qs =>
        rw [hs, List.modifyHead_cons, List.mem_cons] at h
        rcases h with h | h
        · rw [h, List.mem_cons, not_or]
          exact ⟨fun heq => hc (by simp [heq]), ih (by simp [hs])⟩
        · exact ih (by simp [hs, h])

theorem bar_normalized {s : String} {minimumDigits : Nat} (h : '|' ∉ s.toList) :
    '|' ∉ (normalized s minimumDigits).toList := by
  have hlower : ∀ {cs : List Char}, '|' ∉ cs → '|' ∉ lower cs := by
    intro cs hcs hmem
    obtain ⟨c, hc, hbar⟩ := List.mem_map.1 hmem
    rw [(toLower_eq_iff (by decide) c).1 hbar] at hc
    exact hcs hc
  rw [toList_normalized]
  rcases normalizeHexText_cases s.toList minimumDigits with hc | ⟨n, -, hc⟩
  · rw [hc]
    apply hlower
    intro hmem
    apply h
    have hdrop := List.mem_reverse.1 ((List.dropWhile_sublist _).mem (List.mem_reverse.1 hmem))
    exact (List.dropWhile_sublist _).mem hdrop
  · rw [hc]
    apply hlower
    intro hmem
    exact absurd (digitVal_hexText hmem) (by decide)

theorem parts_sdoEvidenceKey {position : Int} {index subIndex : String} (hi : '|' ∉ index.toList)
    (hj : '|' ∉ subIndex.toList) :
    parts (sdoEvidenceKey position index subIndex) =
      [QString.number position, normalized index 4, normalized subIndex 2] := by
  have hi' : '|' ∉ (normalized index 4).toList := bar_normalized hi
  have hj' : '|' ∉ (normalized subIndex 2).toList := bar_normalized hj
  have hkey : (sdoEvidenceKey position index subIndex).toList = (QString.number position).toList ++
      '|' :: ((normalized index 4).toList ++ '|' :: (normalized subIndex 2).toList) := by
    simp [sdoEvidenceKey, String.toList_append, toList_normalized]
  rw [parts, hkey, List.splitOn_append_cons_self_of_not_mem (number_bar position),
    List.splitOn_append_cons_self_of_not_mem hi', List.splitOn_eq_singleton hj']
  simp

theorem ioVariableTableObjectKey_ne {position : Int} {index subIndex : String}
    (h : ioVariableTableObjectKey position index subIndex ≠ "") :
    0 ≤ position ∧ trimmed index ≠ "" ∧ trimmed subIndex ≠ "" ∧
      ioVariableTableObjectKey position index subIndex = sdoEvidenceKey position index subIndex := by
  unfold ioVariableTableObjectKey at h ⊢
  split at h
  · exact absurd rfl h
  · rename_i hno
    simp only [not_or, not_lt] at hno
    obtain ⟨hp, hi, hj⟩ := hno
    refine ⟨hp, hi, hj, if_neg ?_⟩
    simp [hi, hj, hp]

/-- The key of an address in normal form, taken apart and put together. -/
theorem ioVariableTableObjectKey_parts {position : Int} {index subIndex : String}
    (hhigh : position < 2 ^ 31) (hi : '|' ∉ index.toList) (hj : '|' ∉ subIndex.toList)
    (h : ioVariableTableObjectKey position index subIndex ≠ "") :
    ∃ p i j, parts (ioVariableTableObjectKey position index subIndex) = [p, i, j] ∧
      ioVariableTableObjectKey (intOf p) i j = ioVariableTableObjectKey position index subIndex := by
  obtain ⟨hp, hne, hne', heq⟩ := ioVariableTableObjectKey_ne h
  refine ⟨_, _, _, by rw [heq, parts_sdoEvidenceKey hi hj], ?_⟩
  have hnumber : intOf (QString.number position) = position := intOf_number (by omega) hhigh
  have hcond : ¬(position < 0 ∨ trimmed (normalized index 4) = "" ∨ trimmed (normalized subIndex 2) = "") := by
    simp only [trimmed_normalized, normalized_eq_empty, not_or, not_lt]
    exact ⟨hp, hne, hne'⟩
  have hidem : ∀ (s : String) (n : Nat), String.ofList (normalizeHexText (normalized s n).toList n) =
      String.ofList (normalizeHexText s.toList n) := fun s n => normalized_normalized s n
  rw [heq, hnumber, ioVariableTableObjectKey, if_neg hcond, sdoEvidenceKey, sdoEvidenceKey, hidem, hidem]

theorem readMetadata_metadataObject {e : String × Metadata} {position index subIndex : String}
    (h : parts e.1 = [position, index, subIndex]) :
    (metadataObject e).bind readMetadata =
      if ioVariableTableObjectKey (intOf position) index subIndex ≠ "" ∧
          (trimmed e.2.aliasName ≠ "" ∨ trimmed e.2.tags ≠ "" ∨ trimmed e.2.note ≠ "") then
        some (ioVariableTableObjectKey (intOf position) index subIndex,
          ⟨trimmed e.2.aliasName, trimmed e.2.tags, trimmed e.2.note⟩)
      else none := by
  unfold metadataObject
  rw [h]
  dsimp only
  by_cases hnone : trimmed e.2.aliasName = "" ∧ trimmed e.2.tags = "" ∧ trimmed e.2.note = ""
  · rw [if_pos hnone, Option.bind_none, if_neg]
    simp [hnone]
  · rw [if_neg hnone, Option.bind_some]
    have hread : ∀ position : Int, ∀ key : String, ioVariableTableObjectKey position index subIndex = key →
        (0 ≤ position ∧ key ≠ "" ↔ key ≠ "") := by
      intro position key hkey
      constructor
      · exact And.right
      · intro hne
        rw [← hkey] at hne
        exact ⟨(ioVariableTableObjectKey_ne hne).1, hkey ▸ hne⟩
    simp only [readMetadata, toObject, text, ofList, value_insert, List.foldl_cons, List.foldl_nil]
    simp only [toStringD, toIntD_intOf, ← and_assoc, hread _ _ rfl, String.reduceEq, if_true, if_false]

/-- Entries of other keys are not written. -/
theorem metadataObject_parts {e : String × Metadata} {e' : String × Metadata}
    (h : (metadataObject e).bind readMetadata = some e') :
    ∃ position index subIndex, parts e.1 = [position, index, subIndex] := by
  by_contra hno
  have hnone : metadataObject e = none := by
    unfold metadataObject
    split
    · rename_i position index subIndex hp
      exact absurd ⟨position, index, subIndex, hp⟩ hno
    · rfl
  rw [hnone] at h
  cases h

theorem readMetadata_written (w : Window) (name savedAt : String) :
    (∀ k, (QHash.insertEach readMetadata QHash.empty
      (toArray (value (writeProjectFile w name savedAt) "ioVariables"))).value k = w.ioVariableMetadata.value k) ↔
        ∀ e ∈ w.ioVariableMetadata.entries, KeptMetadata e := by
  have h : value (writeProjectFile w name savedAt) "ioVariables" =
      .array ((w.ioVariableMetadata.sorted keyLe).filterMap metadataObject) :=
    value_section rfl (i := 15) rfl
  rw [h, toArray, QHash.insertEach_filterMap]
  apply QHash.value_rebuilt_iff
  · intro e he
    obtain ⟨position, index, subIndex, hparts, hkey⟩ := he.key
    have htexts := he.texts
    simp only [List.forall_mem_cons] at htexts
    obtain ⟨ha, ht, hn, -⟩ := htexts
    have hne : e.1 ≠ "" := by
      intro hempty
      rw [hempty] at hparts
      cases hparts
    rw [readMetadata_metadataObject hparts, hkey, ha, ht, hn, if_pos ⟨hne, he.named⟩]
  · intro e e' he
    obtain ⟨position, index, subIndex, hparts⟩ := metadataObject_parts he
    rw [readMetadata_metadataObject hparts] at he
    split at he
    · rename_i hc
      cases he
      have hbar : ∀ part ∈ parts e.1, '|' ∉ part.toList := by
        intro part hpart
        obtain ⟨cs, hcs, rfl⟩ := List.mem_map.1 hpart
        rw [String.toList_ofList]
        exact not_mem_of_mem_splitOn hcs
      rw [hparts] at hbar
      refine ⟨ioVariableTableObjectKey_parts (intOf_range _).2 (hbar index (by simp)) (hbar subIndex (by simp)) hc.1, ?_, hc.2⟩
      simp
    · cases he

/-! ## Files written -/

/-- The tables, bookmarks, targets, evidence and metadata of `w` are there again. -/
structure Restored (w w' : Window) : Prop where
  watch : w'.watch = w.watch
  startup : w'.startup = w.startup
  objectBookmarks : w'.objectBookmarks = w.objectBookmarks
  sdoTargetTrail : w'.sdoTargetTrail = w.sdoTargetTrail
  sdoEvidence : ∀ k, w'.sdoEvidence.value k = w.sdoEvidence.value k
  ioVariableMetadata : ∀ k, w'.ioVariableMetadata.value k = w.ioVariableMetadata.value k

/-- The file written is read in every window, and restores. -/
def RestoredAnywhere (t : Locale) (w : Window) (name savedAt : String) : Prop :=
  ∀ v, ∃ v', readProjectFile t v (some (writeProjectFile w name savedAt)) = some v' ∧ Restored w v'

/-- Both tables have rows, the cells of the Watch table that are computed are up
to date, and every row and entry is in the form in which it is read. -/
structure Restorable (t : Locale) (w : Window) : Prop where
  watch : w.watch ≠ []
  startup : w.startup ≠ []
  deltas : ∀ r ∈ w.watch, updateWatchStartupDelta t w.startup (updateWatchBaselineDelta t r) = r
  positions : ∀ r ∈ w.startup, QString.number (intOf r.position) = r.position
  objectBookmarks : KeptBookmarks w.slaves w.objectBookmarks
  sdoTargetTrail : ∀ r ∈ w.sdoTargetTrail, KeptTrail r
  sdoEvidence : ∀ e ∈ w.sdoEvidence.entries, KeptEvidence e
  ioVariableMetadata : ∀ e ∈ w.ioVariableMetadata.entries, KeptMetadata e

section
variable {t : Locale} {w : Window} {name savedAt : String}

theorem readStartup_eq_self :
    readStartup (writeProjectFile w name savedAt) = w.startup ↔
      ∀ r ∈ w.startup, QString.number (intOf r.position) = r.position := by
  rw [readStartup_written]
  conv => lhs; rhs; rw [← List.map_id w.startup]
  rw [List.map_inj_left]
  refine forall₂_congr fun r _ => ⟨congrArg StartupRow.position, fun h => ?_⟩
  rw [h]
  rfl

theorem restorable_of_restored (h : RestoredAnywhere t w name savedAt) : Restorable t w := by
  have hopened : ∀ v, Restored w (openSections t (openSlaves v (writeProjectFile w name savedAt))
      (writeProjectFile w name savedAt)) := by
    intro v
    obtain ⟨v', hv, hr⟩ := h v
    rw [← eq_of_readProjectFile hv]
    exact hr
  have hwatch : w.watch ≠ [] := by
    intro hnil
    have hlen := congrArg List.length (hopened { started with watch := [watchRowOf []] }).watch
    rw [watch_stays (by rw [readWatch_written, hnil]), hnil] at hlen
    cases hlen
  have hstartup : w.startup ≠ [] := by
    intro hnil
    have heq := (hopened { started with startup := [⟨"0", "", "", "", ""⟩] }).startup
    rw [startup_stays (by rw [readStartup_written, hnil, List.map_nil]), hnil] at heq
    cases heq
  have hrows : readStartup (writeProjectFile w name savedAt) ≠ [] := by
    rw [readStartup_written]
    simpa using hstartup
  have hw := hopened started
  have hself : readStartup (writeProjectFile w name savedAt) = w.startup := by
    rw [← hw.startup, opened_startup, openedStartup, if_neg hrows]
  have hdeltas := hw.watch
  rw [opened_watch, openedWatch_of_rows (by rw [readWatch_written]; exact hwatch) hrows, readWatch_written, hself] at hdeltas
  exact {
    watch := hwatch
    startup := hstartup
    deltas := by
      conv at hdeltas => rhs; rw [← List.map_id w.watch]
      exact List.map_inj_left.1 hdeltas
    positions := readStartup_eq_self.1 hself
    objectBookmarks := by
      rw [← readBookmarks_written (t := t) w name savedAt, ← hw.objectBookmarks, opened_bookmarks, readSlaves_written]
    sdoTargetTrail := by rw [← readTrail_written w name savedAt, ← openSections_trail, hw.sdoTargetTrail]
    sdoEvidence := by
      rw [← readEvidence_written w name savedAt, ← openSections_evidence]
      exact hw.sdoEvidence
    ioVariableMetadata := by
      rw [← readMetadata_written w name savedAt, ← openSections_metadata]
      exact hw.ioVariableMetadata }

theorem restored_of_restorable (h : Restorable t w) : RestoredAnywhere t w name savedAt := by
  intro v
  have hself : readStartup (writeProjectFile w name savedAt) = w.startup := readStartup_eq_self.2 h.positions
  have hrows : readStartup (writeProjectFile w name savedAt) ≠ [] := by
    rw [hself]
    exact h.startup
  refine ⟨_, readProjectFile_accepted (accepted_written w name savedAt) v, ?_⟩
  exact {
    watch := by
      rw [opened_watch, openedWatch_of_rows (by rw [readWatch_written]; exact h.watch) hrows, readWatch_written, hself]
      conv => rhs; rw [← List.map_id w.watch]
      exact List.map_inj_left.2 h.deltas
    startup := by rw [opened_startup, openedStartup, if_neg hrows, hself]
    objectBookmarks := by
      rw [opened_bookmarks, readSlaves_written]
      exact (readBookmarks_written w name savedAt).2 h.objectBookmarks
    sdoTargetTrail := by
      rw [openSections_trail]
      exact (readTrail_written w name savedAt).2 h.sdoTargetTrail
    sdoEvidence := by
      rw [openSections_evidence]
      exact (readEvidence_written w name savedAt).2 h.sdoEvidence
    ioVariableMetadata := by
      rw [openSections_metadata]
      exact (readMetadata_written w name savedAt).2 h.ioVariableMetadata }

end

/-- **What was open before makes no difference to the files that are settled, and
the files of restorable windows restore them.** -/
theorem opened_iff (t : Locale) :
    (∀ root, Accepted root → (Independent t root ↔ Settled root)) ∧
      ∀ w name savedAt, RestoredAnywhere t w name savedAt ↔ Restorable t w :=
  ⟨fun _ h => independent_iff h, fun _ _ _ => ⟨restorable_of_restored, restored_of_restorable⟩⟩

theorem english_project : trimmed (id "Project") = id "Project" ∧ id "Project" ≠ "" := by decide +kernel

/-- English texts, and the difference of integers. -/
def english : Locale where
  uiText := id
  project := english_project
  toLower := lower
  sameFolded := fun a b => lower a.toList == lower b.toList
  difference := fun a b =>
    match toInt 10 a.toList, toInt 10 b.toList with
    | some m, some n => some (QString.number (m - n))
    | _, _ => none

/-- One row in every table. -/
def sampleWindow : Window :=
  { started with
    slaves := [⟨0, "PREOP", "+", "EL2004", "0  0:0  PREOP  +  EL2004"⟩]
    current := some 0
    snapshots := { started.snapshots with pdo := "SM0", pdoPosition := 0 }
    sdoEvidence := QHash.empty.insert "0|0x1000|0x00" ⟨"5", "OK", "", "12:00:00"⟩
    ioVariableMetadata := QHash.empty.insert "0|0x7000|0x01" ⟨"lamp", "", ""⟩
    objectBookmarks := [⟨"0", "EL2004", "0x1000", "0x00", "ro", "uint32", "32", "Device type", "5", "Dictionary"⟩]
    sdoTargetTrail := [⟨"12:00:00", "0", "0x1000", "0x00", "uint32", "Read", "5", "", ""⟩]
    watch := [⟨"12:00:00", "0", "0x1000", "0x00", "5", "", "uint32", "", "3", "2", "5", "match"⟩]
    startup := [⟨"0", "0x1000", "0x00", "5", "uint32"⟩] }

theorem settled_sample : Settled (writeProjectFile sampleWindow "line" "") := by
  have hslaves : readSlaves (writeProjectFile sampleWindow "line" "") "slaves" = sampleWindow.slaves :=
    readSlaves_written _ _ _
  have hsaved : SelectionSaved (writeProjectFile sampleWindow "line" "") := by
    have hsection : value (writeProjectFile sampleWindow "line" "") "selectedPosition" = .int 0 :=
      value_section rfl (i := 4) rfl
    have hposition : savedPosition (writeProjectFile sampleWindow "line" "") = 0 := by
      rw [savedPosition, hsection]
      rfl
    refine ⟨by rw [hposition], ⟨0, "PREOP", "+", "EL2004", "0  0:0  PREOP  +  EL2004"⟩, ?_, ?_⟩
    · rw [hslaves]
      exact List.mem_singleton_self _
    · rw [hposition]
      rfl
  constructor
  · rw [Ne, ← readWatch_eq_nil, readWatch_written]
    exact List.cons_ne_nil _ _
  · rw [Ne, ← readStartup_eq_nil, readStartup_written]
    exact List.cons_ne_nil _ _
  all_goals exact Or.inr (Or.inr (Or.inr hsaved))

theorem restorable_sample : Restorable english sampleWindow where
  watch := List.cons_ne_nil _ _
  startup := List.cons_ne_nil _ _
  deltas := by decide +kernel
  positions := by decide +kernel
  objectBookmarks := by
    constructor
    · intro b hb
      rw [List.mem_singleton.1 hb]
      constructor <;> decide +kernel
    · decide +kernel
  sdoTargetTrail := by
    intro r hr
    rw [List.mem_singleton.1 hr]
    constructor <;> decide +kernel
  sdoEvidence := by
    intro e he
    rw [List.mem_singleton.1 he]
    constructor <;> decide +kernel
  ioVariableMetadata := by
    intro e he
    rw [List.mem_singleton.1 he]
    refine ⟨⟨"0", "0x7000", "0x01", by decide +kernel, by decide +kernel⟩, by decide +kernel, by decide +kernel⟩

theorem opened_iff_sample :
    Independent english (writeProjectFile sampleWindow "line" "") ∧ RestoredAnywhere english sampleWindow "line" "" :=
  ⟨((opened_iff english).1 _ (accepted_written _ _ _)).2 settled_sample,
    ((opened_iff english).2 _ _ _).2 restorable_sample⟩

/-- A project without Watch rows, opened after one that had a row. -/
theorem leftover_watch :
    Accepted (writeProjectFile started "empty" "") ∧ ¬ Independent english (writeProjectFile started "empty" "") ∧
      ¬ RestoredAnywhere english started "empty" "" := by
  have hnil : readWatch (writeProjectFile started "empty" "") = [] := readWatch_written _ _ _
  have hlen : ∀ rows, (openSections english (openSlaves { started with watch := rows }
      (writeProjectFile started "empty" "")) (writeProjectFile started "empty" "")).watch.length = rows.length :=
    watch_stays hnil
  have hread := fun w => readProjectFile_accepted (t := english) (accepted_written started "empty" "") w
  refine ⟨accepted_written _ _ _, fun h => ?_, fun h => ?_⟩
  · have hsame := (h started { started with watch := [watchRowOf []] } _ _ (hread _) (hread _)).watch
    have h0 := hlen []
    have h1 := hlen [watchRowOf []]
    rw [← hsame] at h1
    exact absurd (h0.symm.trans h1) (by decide)
  · obtain ⟨v', hv, hr⟩ := h { started with watch := [watchRowOf []] }
    have h1 := hlen [watchRowOf []]
    rw [← eq_of_readProjectFile hv, hr.watch] at h1
    cases h1

end NekoEcat.L4.ProjectFile
