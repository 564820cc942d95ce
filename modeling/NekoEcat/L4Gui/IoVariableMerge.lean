import NekoEcat.Core.Firsts
import NekoEcat.L4Gui.IoVariables
import NekoEcat.L4Gui.WatchSync

/-!
# The merge of the four tables

The merge is right as far as its keys tell the objects apart: where no address
has a `|`, each Free Run row with a target has a row, each other object of the
PDO map or of the Watch table has one more, and what a row shows of the Watch,
Startup and metadata is of its own object.

* `stages`: the three blocks of the table.
* `columns`: what a row shows of the other tables.
* `merged`: the merge, whatever the spelling of the addresses.
* `not_merged`: the map of a slave that is not selected, and a `|`.
-/
namespace NekoEcat.L4.IoVariables
open NekoEcat.Firsts NekoEcat.QHash NekoEcat.QNumber NekoEcat.QString NekoEcat.L4.ProjectFile
open NekoEcat.L4.Consistency (Language rowKey)
open NekoEcat.L4.SdoWrites (toInt_number)
open NekoEcat.L4.PdoListing (PdoRow)
open NekoEcat.L4.WatchSync (objectOf_trimmed objectOf_normal)
open NekoEcat.L4.WatchTable (Object Addressed objectOf objectKey objectKey_inj toInt_range)

/-! ## Objects -/

/-- The object of an address, if it is one. -/
def objectAt (position : Option Int) (index subIndex : String) : Option Object :=
  match position with
  | none => none
  | some position =>
    if 0 ≤ position ∧ trimmed index ≠ "" ∧ trimmed subIndex ≠ "" then some (objectOf position index subIndex) else none

/-- The object of a row, its position a text. -/
def textObject (position index subIndex : String) : Option Object :=
  objectAt (toInt 10 (trimmed position).toList) index subIndex

def freeRunObject (r : FreeRunRow) : Option Object := textObject r.position r.index r.subIndex

def pdoObject (position : Int) (r : PdoRow) : Option Object :=
  objectAt (some position) (String.ofList r.index) (String.ofList r.sub)

def watchObject (r : WatchRow) : Option Object := textObject r.position r.index r.subIndex

def startupObject (r : Consistency.StartupRow) : Option Object := textObject r.position r.index r.subIndex

def Row.object (row : Row) : Option Object := textObject row.position row.index row.subIndex

/-! ## What the merge is for -/

/-- What a row shows of its Free Run row. -/
structure ShowsFreeRun (r : FreeRunRow) (row : Row) : Prop where
  object : row.object = freeRunObject r
  raw : row.raw = trimmed r.raw
  bits : row.bits = trimmed r.bits
  pdo : row.pdo = trimmed r.pdo
  mapStatus : row.mapStatus = trimmed r.mapStatus

/-- What a row shows of its row of the PDO map. -/
structure ShowsPdo (position : Int) (r : PdoRow) (row : Row) : Prop where
  object : row.object = pdoObject position r
  raw : row.raw = ""
  bits : row.bits = listed r.bits
  pdo : row.pdo = listed r.pdo

/-- What a row shows of the other tables is of the object. -/
structure Columns (tables : Tables) (o : Object) (row : Row) : Prop where
  watch : row.watch = ((lastWith watchObject (some o) tables.watch).map fun r => trimmed r.value).getD ""
  startup : row.startup = ((lastWith startupObject (some o) tables.startup).map fun r =>
    if trimmed r.watchDelta = "" then trimmed r.value else trimmed r.value ++ " | " ++ trimmed r.watchDelta).getD ""
  metadata : (⟨row.aliasName, row.tags, row.note⟩ : Metadata) =
    (tables.ioVariableMetadata.value (objectKey o)).getD ⟨"", "", ""⟩

/-- The objects the tables know; those of the Startup table alone do not count. -/
def Evidenced (tables : Tables) (pdoMap : List PdoRow) (o : Object) : Prop :=
  (∃ r ∈ tables.freeRun, freeRunObject r = some o) ∨
    (∃ r ∈ pdoMap, pdoObject tables.loadedPdoPosition.toInt r = some o) ∨ ∃ r ∈ tables.watch, watchObject r = some o

/-- The rows of the three tables are merged by their objects. -/
structure Blocks (tables : Tables) (pdoMap : List PdoRow) (process pdo watch : List Row) : Prop where
  processRows : List.Forall₂ ShowsFreeRun (tables.freeRun.filter fun r => (freeRunObject r).isSome) process
  /-- The first row of each object that no row of `process` has. -/
  pdoRows : List.Forall₂ (ShowsPdo tables.loadedPdoPosition.toInt)
    (firsts (pdoObject tables.loadedPdoPosition.toInt) (process.map Row.object)
      (pdoMap.filter fun r => (pdoObject tables.loadedPdoPosition.toInt r).isSome)) pdo
  watchRows : ∀ o, some o ∈ watch.map Row.object ↔
    (∃ r ∈ tables.watch, watchObject r = some o) ∧ some o ∉ (process ++ pdo).map Row.object
  raw : ∀ row ∈ watch, row.raw = row.watch
  complete : ∀ o, Evidenced tables pdoMap o → some o ∈ (process ++ pdo ++ watch).map Row.object
  once : ((pdo ++ watch).map Row.object).Nodup
  apart : ∀ row ∈ pdo ++ watch, row.object ∉ process.map Row.object
  columns : ∀ row ∈ process ++ pdo ++ watch, ∃ o, row.object = some o ∧ Columns tables o row

def Merged (tables : Tables) (pdoMap : List PdoRow) (rows : List Row) : Prop :=
  ∃ process pdo watch, rows = process ++ pdo ++ watch ∧ Blocks tables pdoMap process pdo watch

/-- The PDO map as far as it counts. -/
def pdoMap (tables : Tables) : List PdoRow :=
  if tables.loadedPdoPosition = tables.selectedPosition then tables.pdoTable else []

/-- Index and subindex do not break the key. -/
def PlainAddress (index subIndex : String) : Prop := '|' ∉ index.toList ∧ '|' ∉ subIndex.toList

instance (index subIndex : String) : Decidable (PlainAddress index subIndex) := inferInstanceAs (Decidable (_ ∧ _))

structure Plain (tables : Tables) : Prop where
  freeRun : ∀ r ∈ tables.freeRun, PlainAddress r.index r.subIndex
  pdoTable : ∀ r ∈ tables.pdoTable, PlainAddress (String.ofList r.index) (String.ofList r.sub)
  watch : ∀ r ∈ tables.watch, PlainAddress r.index r.subIndex
  startup : ∀ r ∈ tables.startup, PlainAddress r.index r.subIndex

/-! ## The blocks -/

section
variable (t : Language) (tables : Tables)

/-- What the Free Run rows with a target give. -/
def freeRunBlock : List Args := (tables.freeRun.filterMap freeRunArgs).filter fun a => decide a.Targeted

/-- What the rows of the PDO map give, as far as it counts. -/
def pdoOffers : List Args :=
  if tables.loadedPdoPosition = tables.selectedPosition then
    (tables.pdoTable.map (pdoArgs t tables.selectedPosition.toInt)).filter fun a => decide a.Targeted
  else []

def pdoBlock : List Args := firsts Args.key ((freeRunBlock tables).map Args.key) (pdoOffers t tables)

def watchBlock : List Args :=
  ((watchByObject t tables).entries.filterMap (watchArgs t)).filter fun a =>
    decide (a.key ∉ (freeRunBlock tables ++ pdoBlock t tables).map Args.key)

end

section
variable {t : Language} {tables : Tables} {a : Args}

theorem appendRow_eq (rows : List Args) (a : Args) :
    appendRow rows a = if a.Targeted then rows ++ [a] else rows := by
  unfold appendRow
  by_cases h : a.Targeted
  · rw [if_pos h, if_neg]
    rintro (hp | hi | hj)
    · exact absurd h.1 (not_le.2 hp)
    · exact h.2.1 hi
    · exact h.2.2 hj
  · rw [if_neg h, if_pos]
    unfold Args.Targeted at h
    rw [not_and_or, not_and_or, not_le, not_not, not_not] at h
    exact h

theorem key_eq (a : Args) : a.key = ioVariableTableObjectKey a.position a.index a.subIndex :=
  Consistency.objectKey_normalized

theorem covered_eq (rows : List Args) (a : Args) : covered rows a.key = rows.any fun r => decide (r.key = a.key) := rfl

theorem key_entry {entry : String × WatchEvidence} (hw : Consistency.WellFormed entry.1)
    (h : watchArgs t entry = some a) : a.key = entry.1 ∧ a.InTable := by
  obtain ⟨position, index, subIndex, hlow, hhigh, hi, hj, hkey⟩ := hw
  by_cases hlen : (parts entry.1).length = 3
  · have hparts : parts entry.1 = [QString.number position, normalized index 4, normalized subIndex 2] := by
      rw [hkey] at hlen ⊢
      exact Consistency.parts_objectKey hlow hi hj hlen
    have hread : toInt 10 (QString.number position).toList = some position := toInt_number (by omega) hhigh
    unfold watchArgs at h
    simp only [hparts, hread, Option.map_some, Option.some.injEq] at h
    subst h
    refine ⟨?_, ⟨hlow, ?_, ?_⟩, hhigh⟩
    · rw [key_eq, hkey]
      exact Consistency.objectKey_normalized
    · exact trimmed_normalized_ne hi
    · exact trimmed_normalized_ne hj
  · unfold watchArgs at h
    split at h
    · rename_i hp
      exact absurd (by rw [hp]; rfl) hlen
    · cases h

/-- The Watch rows make well-formed keys. -/
theorem wellFormed_entries {entry : String × WatchEvidence} (h : entry ∈ (watchByObject t tables).entries) :
    Consistency.WellFormed entry.1 := by
  rcases QHash.mem_of_insertEach (QHash.mem_iff.1 h) with hnone | ⟨r, -, hr⟩
  · cases hnone
  · obtain ⟨key, hkey, heq⟩ := Option.map_eq_some_iff.1 hr
    obtain ⟨n, -, hlow, hhigh, hi, hj, rfl⟩ := Consistency.rowKey_some hkey
    exact ⟨n, trimmed r.index, trimmed r.subIndex, hlow, hhigh, by rwa [trimmed_trimmed], by rwa [trimmed_trimmed],
      (Prod.ext_iff.1 heq).1.symm⟩

theorem appendFreeRunRow_eq (rows : List Args) (r : FreeRunRow) :
    appendFreeRunRow rows r = rows ++ (freeRunArgs r).toList.filter fun a => decide a.Targeted := by
  unfold appendFreeRunRow
  cases freeRunArgs r with
  | none => exact (List.append_nil rows).symm
  | some a => by_cases h : a.Targeted <;> simp [appendRow_eq, h]

theorem freeRun_eq : tables.freeRun.foldl appendFreeRunRow [] = freeRunBlock tables := by
  have hfold : ∀ (rs : List FreeRunRow) (rows : List Args), rs.foldl appendFreeRunRow rows =
      rows ++ (rs.filterMap freeRunArgs).filter fun a => decide a.Targeted := by
    intro rs
    induction rs with
    | nil => exact fun rows => (List.append_nil rows).symm
    | cons r rs ih =>
      intro rows
      have hcons : (r :: rs).filterMap freeRunArgs = (freeRunArgs r).toList ++ rs.filterMap freeRunArgs := by
        cases h : freeRunArgs r with
        | none => rw [List.filterMap_cons_none h, Option.toList_none, List.nil_append]
        | some a => rw [List.filterMap_cons_some h, Option.toList_some, List.singleton_append]
      rw [List.foldl_cons, ih, appendFreeRunRow_eq, List.append_assoc, ← List.filter_append, hcons]
  exact hfold _ _

theorem appendPdoRow_eq (position : Int) (rows : List Args) (r : PdoRow) :
    appendPdoRow t position rows r =
      if (pdoArgs t position r).Targeted then offer Args.key rows (pdoArgs t position r) else rows := by
  have hkey : ioVariableTableObjectKey position (listed r.index) (listed r.sub) = (pdoArgs t position r).key :=
    (key_eq (pdoArgs t position r)).symm
  unfold appendPdoRow offer
  rw [hkey, covered_eq, appendRow_eq]
  by_cases h : (pdoArgs t position r).Targeted <;> simp [h]

theorem pdo_eq (rows : List Args) (position : Int) (pdoTable : List PdoRow) :
    pdoTable.foldl (appendPdoRow t position) rows =
      rows ++ firsts Args.key (rows.map Args.key)
        ((pdoTable.map (pdoArgs t position)).filter fun a => decide a.Targeted) := by
  rw [← foldl_offer, List.foldl_filter, List.foldl_map]
  simp only [decide_eq_true_eq]
  congr 1
  funext rows r
  exact appendPdoRow_eq position rows r

theorem processArgs_eq : processArgs t tables = freeRunBlock tables ++ pdoBlock t tables := by
  unfold processArgs pdoBlock pdoOffers
  rw [freeRun_eq]
  split
  · exact pdo_eq ..
  · exact (List.append_nil _).symm

theorem watch_eq (rows : List Args) {entries : List (String × WatchEvidence)}
    (hw : ∀ entry ∈ entries, Consistency.WellFormed entry.1) :
    entries.foldl (appendWatchRow t) rows = (entries.filterMap (watchArgs t)).foldl (offer Args.key) rows := by
  induction entries generalizing rows with
  | nil => rfl
  | cons entry entries ih =>
    have hw' : ∀ e ∈ entries, Consistency.WellFormed e.1 := fun e he => hw e (List.mem_cons_of_mem _ he)
    rw [List.foldl_cons, ih _ hw']
    cases hargs : watchArgs t entry with
    | none =>
      rw [List.filterMap_cons_none hargs]
      simp [appendWatchRow, hargs]
    | some a =>
      obtain ⟨hkey, hin⟩ := key_entry (hw entry List.mem_cons_self) hargs
      rw [List.filterMap_cons_some hargs, List.foldl_cons]
      congr 1
      have hstep : appendWatchRow t rows entry = if covered rows entry.1 = true then rows else appendRow rows a := by
        simp [appendWatchRow, hargs]
      rw [hstep, ← hkey, appendRow_eq, if_pos hin.targeted, covered_eq, offer]

/-- The keys of the entries are those of what they give. -/
theorem nodup_watch : (((watchByObject t tables).entries.filterMap (watchArgs t)).map Args.key).Nodup := by
  have hsub : ∀ entries : List (String × WatchEvidence), (∀ entry ∈ entries, Consistency.WellFormed entry.1) →
      ((entries.filterMap (watchArgs t)).map Args.key).Sublist (entries.map (·.1)) := by
    intro entries hw
    induction entries with
    | nil => exact List.Sublist.refl _
    | cons entry entries ih =>
      have hrest := ih fun e he => hw e (List.mem_cons_of_mem _ he)
      cases hargs : watchArgs t entry with
      | none =>
        rw [List.filterMap_cons_none hargs]
        exact hrest.cons _
      | some a =>
        rw [List.filterMap_cons_some hargs, List.map_cons, (key_entry (hw entry List.mem_cons_self) hargs).1]
        exact hrest.cons_cons _
  exact (hsub _ fun _ => wellFormed_entries).nodup (watchByObject t tables).nodup

/-- **The blocks of the table.** -/
theorem stages : tableArgs t tables = freeRunBlock tables ++ pdoBlock t tables ++ watchBlock t tables := by
  unfold tableArgs watchBlock
  rw [watch_eq _ fun _ => wellFormed_entries, foldl_offer, processArgs_eq, firsts_of_nodup nodup_watch]

end

/-! ## Keys and objects -/

/-- The object of what is appended. -/
def Args.object (a : Args) : Object := objectOf a.position a.index a.subIndex

section
variable {t : Language} {tables : Tables} {a : Args}

theorem objectAt_some {position : Option Int} {index subIndex : String} {o : Object}
    (h : objectAt position index subIndex = some o) :
    ∃ p, position = some p ∧ 0 ≤ p ∧ trimmed index ≠ "" ∧ trimmed subIndex ≠ "" ∧ o = objectOf p index subIndex := by
  cases position with
  | none => cases h
  | some p =>
    unfold objectAt at h
    dsimp only at h
    split at h
    · rename_i hok
      exact ⟨p, rfl, hok.1, hok.2.1, hok.2.2, (Option.some.inj h).symm⟩
    · cases h

theorem objectAt_of {p : Int} {index subIndex : String} (hp : 0 ≤ p) (hi : trimmed index ≠ "")
    (hj : trimmed subIndex ≠ "") : objectAt (some p) index subIndex = some (objectOf p index subIndex) :=
  if_pos ⟨hp, hi, hj⟩

/-- Plain addresses are told apart by their keys. -/
theorem addressed_of {p : Int} {index subIndex : String} (hlow : 0 ≤ p) (hhigh : p < 2 ^ 31)
    (hplain : PlainAddress index subIndex) : Addressed (objectOf p index subIndex) where
  low := le_trans (by decide) hlow
  high := hhigh
  bar := by
    have hbar : '|' ∉ (normalized index 4).toList := bar_normalized hplain.1
    rwa [toList_normalized] at hbar

theorem textObject_some {position index subIndex : String} {o : Object}
    (h : textObject position index subIndex = some o) :
    ∃ p, toInt 10 (trimmed position).toList = some p ∧ 0 ≤ p ∧ trimmed index ≠ "" ∧ trimmed subIndex ≠ "" ∧
      o = objectOf p index subIndex := objectAt_some h

theorem addressed_text {position index subIndex : String} {o : Object} (hplain : PlainAddress index subIndex)
    (h : textObject position index subIndex = some o) : Addressed o := by
  obtain ⟨p, hp, hlow, -, -, rfl⟩ := textObject_some h
  exact addressed_of hlow (toInt_range hp).2 hplain

/-- The key of a row is that of its object. -/
theorem rowKey_eq (position index subIndex : String) :
    rowKey position index subIndex = (textObject position index subIndex).map objectKey := by
  unfold rowKey textObject objectAt
  cases toInt 10 (trimmed position).toList with
  | none => rfl
  | some p =>
    dsimp only
    by_cases h : 0 ≤ p ∧ trimmed index ≠ "" ∧ trimmed subIndex ≠ ""
    · have hno : ¬(p < 0 ∨ trimmed index = "" ∨ trimmed subIndex = "") := by
        rw [not_or, not_or, not_lt]
        exact h
      rw [if_neg hno, if_pos h, Option.map_some, ← objectOf_trimmed, ← WatchTable.sdoEvidenceKey_eq,
        Consistency.objectKey_eq h.1 (by rw [trimmed_trimmed]; exact h.2.1) (by rw [trimmed_trimmed]; exact h.2.2)]
    · have hyes : p < 0 ∨ trimmed index = "" ∨ trimmed subIndex = "" := by
        rw [not_and_or, not_and_or, not_le, not_not, not_not] at h
        exact h
      rw [if_pos hyes, if_neg h, Option.map_none]

theorem key_object (h : a.Targeted) : a.key = objectKey a.object := by
  rw [key_eq, Consistency.objectKey_eq h.1 h.2.1 h.2.2]
  rfl

theorem object_cells (h : a.InTable) : (cells t tables a).object = some a.object := by
  have hread : toInt 10 (trimmed (QString.number a.position)).toList = some a.position := by
    rw [toList_trimmed, toInt_trim]
    exact toInt_number (le_trans (by decide) h.targeted.1) h.high
  have hi : trimmed (normalized a.index 4) ≠ "" := trimmed_normalized_ne h.targeted.2.1
  have hj : trimmed (normalized a.subIndex 2) ≠ "" := trimmed_normalized_ne h.targeted.2.2
  unfold Row.object textObject cells
  dsimp only
  rw [hread, objectAt_of h.targeted.1 hi hj]
  exact congrArg some (objectOf_normal (o := a.object) ⟨a.index, a.subIndex, rfl⟩)

/-- An address that is told apart has the key only if it is the object. -/
theorem map_objectKey_iff {x : Option Object} {o : Object} (hx : ∀ o', x = some o' → Addressed o') (ho : Addressed o) :
    x.map objectKey = some (objectKey o) ↔ x = some o := by
  constructor
  · intro h
    obtain ⟨o', hx', hkey⟩ := Option.map_eq_some_iff.1 h
    rw [hx', objectKey_inj (hx o' hx') ho hkey]
  · rintro rfl
    rfl

/-! ## What a row shows of the other tables -/

/-- What is kept of a row. -/
def watchEvidence (t : Language) (tables : Tables) (r : WatchRow) : WatchEvidence where
  value := trimmed r.value
  decoded := trimmed r.decoded
  type := trimmed r.type
  meaning := trimmed r.mode
  changed := yes t (decide (((watchObject r).map objectKey).getD "" ∈ tables.watchChangedKeys))

theorem watchEntry_eq (r : WatchRow) :
    watchEntry t tables r = ((watchObject r).map objectKey).map fun key => (key, watchEvidence t tables r) := by
  unfold watchEntry watchEvidence watchObject
  rw [rowKey_eq]
  cases textObject r.position r.index r.subIndex <;> rfl

theorem value_watch (h : Plain tables) {o : Object} (ho : Addressed o) :
    (watchByObject t tables).value (objectKey o) =
      (lastWith watchObject (some o) tables.watch).map (watchEvidence t tables) := by
  have hentry : watchEntry t tables = fun r => ((watchObject r).map objectKey).map fun key =>
      (key, watchEvidence t tables r) := funext watchEntry_eq
  have hlast : lastWith (fun r => (watchObject r).map objectKey) (some (objectKey o)) tables.watch =
      lastWith watchObject (some o) tables.watch :=
    lastWith_congr fun r hr => map_objectKey_iff (fun _ => addressed_text (h.watch r hr)) ho
  rw [watchByObject, hentry, value_insertSome, hlast]
  exact Option.or_none

theorem value_startup (h : Plain tables) {o : Object} (ho : Addressed o) :
    (startupByObject tables).value (objectKey o) = (lastWith startupObject (some o) tables.startup).map fun r =>
      (trimmed r.value, trimmed r.watchDelta) := by
  have hentry : Consistency.startupEntry = fun r => ((startupObject r).map objectKey).map fun key =>
      (key, trimmed r.value, trimmed r.watchDelta) := by
    funext r
    unfold Consistency.startupEntry startupObject
    rw [rowKey_eq]
  have hlast : lastWith (fun r => (startupObject r).map objectKey) (some (objectKey o)) tables.startup =
      lastWith startupObject (some o) tables.startup :=
    lastWith_congr fun r hr => map_objectKey_iff (fun _ => addressed_text (h.startup r hr)) ho
  rw [startupByObject, Consistency.startupByObject, hentry,
    value_insertSome (fun r => (startupObject r).map objectKey) fun r : Consistency.StartupRow =>
      (trimmed r.value, trimmed r.watchDelta), hlast]
  exact Option.or_none

/-- **The other tables.** -/
theorem columns (h : Plain tables) (ha : a.InTable) (haddressed : Addressed a.object) :
    Columns tables a.object (cells t tables a) where
  watch := by
    unfold cells
    dsimp only
    rw [key_object ha.targeted, value_watch h haddressed]
    cases lastWith watchObject (some a.object) tables.watch <;> rfl
  startup := by
    unfold cells
    dsimp only
    rw [key_object ha.targeted, value_startup h haddressed]
    cases lastWith startupObject (some a.object) tables.startup <;> rfl
  metadata := by
    unfold cells
    dsimp only
    rw [key_object ha.targeted]

/-! ## The rows of the blocks -/

theorem freeRunArgs_object {r : FreeRunRow} (h : freeRunArgs r = some a) (ha : a.Targeted) :
    a.InTable ∧ freeRunObject r = some a.object := by
  obtain ⟨p, hp, rfl⟩ := Option.map_eq_some_iff.1 h
  have hi : trimmed r.index ≠ "" := by
    rw [← trimmed_trimmed]
    exact ha.2.1
  have hj : trimmed r.subIndex ≠ "" := by
    rw [← trimmed_trimmed]
    exact ha.2.2
  refine ⟨⟨ha, (toInt_range hp).2⟩, ?_⟩
  unfold freeRunObject textObject
  rw [hp, objectAt_of ha.1 hi hj]
  exact congrArg some (objectOf_trimmed p r.index r.subIndex).symm

theorem freeRunArgs_of {r : FreeRunRow} (h : (freeRunObject r).isSome = true) :
    ∃ a, freeRunArgs r = some a ∧ a.Targeted := by
  obtain ⟨o, ho⟩ := Option.isSome_iff_exists.1 h
  unfold freeRunObject at ho
  obtain ⟨p, hp, hlow, hi, hj, -⟩ := textObject_some ho
  unfold freeRunArgs
  rw [hp]
  refine ⟨_, rfl, hlow, ?_, ?_⟩
  · rwa [trimmed_trimmed]
  · rwa [trimmed_trimmed]

theorem mem_freeRunBlock : a ∈ freeRunBlock tables ↔ ∃ r ∈ tables.freeRun, freeRunArgs r = some a ∧ a.Targeted := by
  simp only [freeRunBlock, List.mem_filter, List.mem_filterMap, decide_eq_true_eq]
  constructor
  · rintro ⟨⟨r, hr, hargs⟩, ha⟩
    exact ⟨r, hr, hargs, ha⟩
  · rintro ⟨r, hr, hargs, ha⟩
    exact ⟨⟨r, hr, hargs⟩, ha⟩

/-- What is appended for an object that its key tells apart. -/
structure Args.Apart (a : Args) : Prop where
  inTable : a.InTable
  addressed : Addressed a.object

theorem apart_freeRun (h : Plain tables) (ha : a ∈ freeRunBlock tables) : a.Apart := by
  obtain ⟨r, hr, hargs, htarget⟩ := mem_freeRunBlock.1 ha
  obtain ⟨hin, hobject⟩ := freeRunArgs_object hargs htarget
  unfold freeRunObject at hobject
  exact ⟨hin, addressed_text (h.freeRun r hr) hobject⟩

theorem pdoArgs_targeted (position : Int) (r : PdoRow) :
    (pdoArgs t position r).Targeted ↔ (pdoObject position r).isSome = true := by
  unfold Args.Targeted pdoArgs pdoObject objectAt listed
  dsimp only
  rw [trimmed_trimmed, trimmed_trimmed]
  by_cases h : 0 ≤ position ∧ trimmed (String.ofList r.index) ≠ "" ∧ trimmed (String.ofList r.sub) ≠ ""
  · simp [h]
  · rw [if_neg h]
    simpa using h

theorem pdoArgs_object {position : Int} {r : PdoRow} (h : (pdoObject position r).isSome = true) :
    pdoObject position r = some (pdoArgs t position r).object := by
  obtain ⟨o, ho⟩ := Option.isSome_iff_exists.1 h
  unfold pdoObject at ho ⊢
  obtain ⟨p, hp, -, -, -, rfl⟩ := objectAt_some ho
  rw [ho, ← Option.some.inj hp]
  exact congrArg some (objectOf_trimmed position (String.ofList r.index) (String.ofList r.sub)).symm

theorem apart_pdoArgs (h : Plain tables) {r : PdoRow} (hr : r ∈ tables.pdoTable)
    (hsome : (pdoObject tables.loadedPdoPosition.toInt r).isSome = true) :
    (pdoArgs t tables.loadedPdoPosition.toInt r).Apart := by
  have hin : (pdoArgs t tables.loadedPdoPosition.toInt r).InTable :=
    ⟨(pdoArgs_targeted _ r).2 hsome, Int32.toInt_lt tables.loadedPdoPosition⟩
  have hobject : (pdoArgs t tables.loadedPdoPosition.toInt r).object =
      objectOf tables.loadedPdoPosition.toInt (String.ofList r.index) (String.ofList r.sub) := objectOf_trimmed ..
  refine ⟨hin, ?_⟩
  rw [hobject]
  exact addressed_of hin.targeted.1 hin.high (h.pdoTable r hr)

/-- The rows of the PDO map that are targets, as far as the map counts. -/
def pdoTargets (tables : Tables) : List PdoRow :=
  (pdoMap tables).filter fun r => (pdoObject tables.loadedPdoPosition.toInt r).isSome

theorem mem_pdoTargets {r : PdoRow} (h : r ∈ pdoTargets tables) :
    r ∈ tables.pdoTable ∧ (pdoObject tables.loadedPdoPosition.toInt r).isSome = true := by
  obtain ⟨hmem, hsome⟩ := List.mem_filter.1 h
  unfold pdoMap at hmem
  split at hmem
  · exact ⟨hmem, hsome⟩
  · cases hmem

theorem pdoOffers_eq : pdoOffers t tables = (pdoTargets tables).map (pdoArgs t tables.loadedPdoPosition.toInt) := by
  unfold pdoOffers pdoTargets pdoMap
  split
  · rename_i hp
    rw [← hp, List.filter_map]
    congr 1
    apply List.filter_congr
    intro r _
    rw [Function.comp_apply, Bool.eq_iff_iff, decide_eq_true_eq]
    exact pdoArgs_targeted _ r
  · rfl

theorem objects_cells {as : List Args} (h : ∀ a ∈ as, a.InTable) :
    (as.map (cells t tables)).map Row.object = as.map fun a => some a.object := by
  rw [List.map_map]
  apply List.map_congr_left
  intro a ha
  rw [Function.comp_apply, object_cells (h a ha)]

/-- The key of an object, if there is one. -/
def optionKey (x : Option Object) : String := (x.map objectKey).getD ""

/-- The PDO map gives the first row of each object that no Free Run row has. -/
theorem pdoBlock_eq (h : Plain tables) :
    pdoBlock t tables = (firsts (pdoObject tables.loadedPdoPosition.toInt)
      (((freeRunBlock tables).map (cells t tables)).map Row.object) (pdoTargets tables)).map
        (pdoArgs t tables.loadedPdoPosition.toInt) := by
  have hseen : (freeRunBlock tables).map Args.key =
      (((freeRunBlock tables).map (cells t tables)).map Row.object).map optionKey := by
    rw [objects_cells fun a ha => (apart_freeRun h ha).inTable, List.map_map]
    apply List.map_congr_left
    intro a ha
    rw [key_object (apart_freeRun h ha).inTable.targeted]
    rfl
  unfold pdoBlock
  rw [pdoOffers_eq, firsts_comp, hseen]
  congr 1
  have hobject : ∀ x, (x ∈ ((freeRunBlock tables).map (cells t tables)).map Row.object ∨
      x ∈ (pdoTargets tables).map (pdoObject tables.loadedPdoPosition.toInt)) → ∃ o, x = some o ∧ Addressed o := by
    rintro x (hx | hx)
    · rw [objects_cells fun a ha => (apart_freeRun h ha).inTable] at hx
      obtain ⟨a, ha, rfl⟩ := List.mem_map.1 hx
      exact ⟨_, rfl, (apart_freeRun h ha).addressed⟩
    · obtain ⟨r, hr, rfl⟩ := List.mem_map.1 hx
      obtain ⟨hmem, hsome⟩ := mem_pdoTargets hr
      exact ⟨_, pdoArgs_object (t := t) hsome, (apart_pdoArgs h hmem hsome).addressed⟩
  apply firsts_map
  · intro r hr
    obtain ⟨hmem, hsome⟩ := mem_pdoTargets hr
    rw [pdoArgs_object (t := t) hsome, key_object (apart_pdoArgs h hmem hsome).inTable.targeted]
    rfl
  · intro x y hx hy hkey
    obtain ⟨o, rfl, ho⟩ := hobject x hx
    obtain ⟨o', rfl, ho'⟩ := hobject y hy
    exact congrArg some (objectKey_inj ho ho' hkey)

theorem apart_pdo (h : Plain tables) (ha : a ∈ pdoBlock t tables) : a.Apart := by
  rw [pdoBlock_eq h] at ha
  obtain ⟨r, hr, rfl⟩ := List.mem_map.1 ha
  obtain ⟨hmem, hsome⟩ := mem_pdoTargets (firsts_sublist.mem hr)
  exact apart_pdoArgs h hmem hsome

/-! ## The Watch rows -/

/-- The object is read off its key again. -/
theorem watchArgs_key {p : Int} {index subIndex : String} (hlow : 0 ≤ p) (hhigh : p < 2 ^ 31) (hi : trimmed index ≠ "")
    (hj : trimmed subIndex ≠ "") (hplain : PlainAddress index subIndex) (watch : WatchEvidence) :
    ∃ a, watchArgs t (objectKey (objectOf p index subIndex), watch) = some a ∧ a.Apart ∧
      a.object = objectOf p index subIndex ∧ a.raw = watch.value ∧ a.source = .watch := by
  have hparts : parts (objectKey (objectOf p index subIndex)) =
      [QString.number p, normalized index 4, normalized subIndex 2] := by
    rw [← WatchTable.sdoEvidenceKey_eq]
    exact parts_sdoEvidenceKey hplain.1 hplain.2
  have hread : toInt 10 (QString.number p).toList = some p := toInt_number (le_trans (by decide) hlow) hhigh
  have hi' : trimmed (normalized index 4) ≠ "" := trimmed_normalized_ne hi
  have hj' : trimmed (normalized subIndex 2) ≠ "" := trimmed_normalized_ne hj
  have hobject : objectOf p (normalized index 4) (normalized subIndex 2) = objectOf p index subIndex :=
    objectOf_normal (o := objectOf p index subIndex) ⟨index, subIndex, rfl⟩
  unfold watchArgs
  rw [hparts]
  dsimp only
  rw [hread, Option.map_some]
  refine ⟨_, rfl, ⟨⟨⟨hlow, hi', hj'⟩, hhigh⟩, ?_⟩, hobject, rfl, rfl⟩
  unfold Args.object
  rw [hobject]
  exact addressed_of hlow hhigh hplain

/-- Each entry is of a Watch row. -/
theorem entry_row {entry : String × WatchEvidence} (h : entry ∈ (watchByObject t tables).entries) :
    ∃ r ∈ tables.watch, ∃ o, watchObject r = some o ∧ entry.1 = objectKey o := by
  rcases QHash.mem_of_insertEach (QHash.mem_iff.1 h) with hnone | ⟨r, hr, hentry⟩
  · cases hnone
  · rw [watchEntry_eq] at hentry
    obtain ⟨key, hkey, heq⟩ := Option.map_eq_some_iff.1 hentry
    obtain ⟨o, ho, rfl⟩ := Option.map_eq_some_iff.1 hkey
    exact ⟨r, hr, o, ho, (Prod.ext_iff.1 heq).1.symm⟩

/-- What is appended for the Watch table, before it is looked for. -/
def watchOffers (t : Language) (tables : Tables) : List Args := (watchByObject t tables).entries.filterMap (watchArgs t)

theorem mem_watchOffers (h : Plain tables) (ha : a ∈ watchOffers t tables) :
    a.Apart ∧ (∃ r ∈ tables.watch, watchObject r = some a.object) ∧ a.source = .watch ∧
      ∃ watch, (watchByObject t tables).value a.key = some watch ∧ a.raw = watch.value := by
  obtain ⟨entry, hentry, hargs⟩ := List.mem_filterMap.1 ha
  obtain ⟨r, hr, o, ho, hkey⟩ := entry_row hentry
  have ho' := ho
  unfold watchObject at ho'
  obtain ⟨p, hp, hlow, hi, hj, rfl⟩ := textObject_some ho'
  obtain ⟨b, hb, hapart, hobject, hraw, hsource⟩ :=
    watchArgs_key (t := t) hlow (toInt_range hp).2 hi hj (h.watch r hr) entry.2
  rw [← hkey] at hb
  rw [Option.some.inj (hargs.symm.trans hb)]
  refine ⟨hapart, ⟨r, hr, by rw [ho, hobject]⟩, hsource, entry.2, ?_, hraw⟩
  rw [key_object hapart.inTable.targeted, hobject, ← hkey]
  exact QHash.mem_iff.1 hentry

/-- Each object of the Watch table is looked for. -/
theorem watchOffers_complete (h : Plain tables) {r : WatchRow} (hr : r ∈ tables.watch) {o : Object}
    (ho : watchObject r = some o) : ∃ a ∈ watchOffers t tables, a.object = o := by
  have ho' := ho
  unfold watchObject at ho'
  obtain ⟨p, hp, hlow, hi, hj, rfl⟩ := textObject_some ho'
  have hlast : ∃ r', lastWith watchObject (some (objectOf p r.index r.subIndex)) tables.watch = some r' := by
    have hmem : r ∈ tables.watch.filter fun r' => decide (watchObject r' = some (objectOf p r.index r.subIndex)) :=
      List.mem_filter.2 ⟨hr, decide_eq_true ho⟩
    exact ⟨_, List.getLast?_eq_some_getLast (List.ne_nil_of_mem hmem)⟩
  obtain ⟨r', hlast⟩ := hlast
  have hvalue := value_watch (t := t) h (addressed_text (h.watch r hr) ho')
  rw [hlast, Option.map_some] at hvalue
  obtain ⟨a, hargs, -, hobject, -, -⟩ :=
    watchArgs_key (t := t) hlow (toInt_range hp).2 hi hj (h.watch r hr) (watchEvidence t tables r')
  exact ⟨a, List.mem_filterMap.2 ⟨_, QHash.mem_iff.2 hvalue, hargs⟩, hobject⟩

/-! ## The merge -/

/-- Among what is told apart, the keys name the objects. -/
theorem mem_keys_iff {as : List Args} (h : ∀ a ∈ as, a.Apart) (ha : a.Apart) :
    a.key ∈ as.map Args.key ↔ some a.object ∈ as.map fun a => some a.object := by
  rw [key_object ha.inTable.targeted]
  constructor
  · intro hmem
    obtain ⟨b, hb, hkey⟩ := List.mem_map.1 hmem
    rw [key_object (h b hb).inTable.targeted] at hkey
    exact List.mem_map.2 ⟨b, hb, congrArg some (objectKey_inj (h b hb).addressed ha.addressed hkey)⟩
  · intro hmem
    obtain ⟨b, hb, hobject⟩ := List.mem_map.1 hmem
    refine List.mem_map.2 ⟨b, hb, ?_⟩
    rw [key_object (h b hb).inTable.targeted, Option.some.inj hobject]

/-- Distinct keys are of distinct objects. -/
theorem nodup_objects {as : List Args} (h : ∀ a ∈ as, a.Apart) (hkeys : (as.map Args.key).Nodup) :
    (as.map fun a => some a.object).Nodup := by
  have hmap : as.map Args.key = (as.map fun a => some a.object).map optionKey := by
    rw [List.map_map]
    apply List.map_congr_left
    intro a ha
    rw [key_object (h a ha).inTable.targeted]
    rfl
  rw [hmap] at hkeys
  exact List.Nodup.of_map _ hkeys

theorem mem_watchBlock : a ∈ watchBlock t tables ↔
    a ∈ watchOffers t tables ∧ a.key ∉ (freeRunBlock tables ++ pdoBlock t tables).map Args.key := by
  unfold watchBlock
  rw [List.mem_filter, decide_eq_true_eq]
  rfl

theorem apart_process (h : Plain tables) (ha : a ∈ freeRunBlock tables ++ pdoBlock t tables) : a.Apart :=
  (List.mem_append.1 ha).elim (apart_freeRun h) (apart_pdo h)

theorem apart_watch (h : Plain tables) (ha : a ∈ watchBlock t tables) : a.Apart :=
  (mem_watchOffers h (mem_watchBlock.1 ha).1).1

theorem apart_table (h : Plain tables) (ha : a ∈ freeRunBlock tables ++ pdoBlock t tables ++ watchBlock t tables) :
    a.Apart := (List.mem_append.1 ha).elim (apart_process h) (apart_watch h)

theorem shows_freeRun {r : FreeRunRow} (h : freeRunArgs r = some a) (ha : a.Targeted) :
    ShowsFreeRun r (cells t tables a) := by
  obtain ⟨hin, hobject⟩ := freeRunArgs_object h ha
  have hcells : (cells t tables a).object = some a.object := object_cells hin
  obtain ⟨p, -, rfl⟩ := Option.map_eq_some_iff.1 h
  refine ⟨hcells.trans hobject.symm, ?_, trimmed_trimmed _, trimmed_trimmed _, trimmed_trimmed _⟩
  unfold cells
  dsimp only
  rw [if_neg (by simp), trimmed_trimmed]

theorem forall₂_freeRun (rs : List FreeRunRow) :
    List.Forall₂ ShowsFreeRun (rs.filter fun r => (freeRunObject r).isSome)
      (((rs.filterMap freeRunArgs).filter fun a => decide a.Targeted).map (cells t tables)) := by
  induction rs with
  | nil => exact List.Forall₂.nil
  | cons r rs ih =>
    by_cases hsome : (freeRunObject r).isSome = true
    · obtain ⟨a, hargs, ha⟩ := freeRunArgs_of hsome
      rw [List.filter_cons_of_pos (p := fun r => (freeRunObject r).isSome) hsome, List.filterMap_cons_some hargs,
        List.filter_cons_of_pos (p := fun a : Args => decide a.Targeted) (decide_eq_true ha)]
      exact List.Forall₂.cons (shows_freeRun hargs ha) ih
    · rw [List.filter_cons_of_neg (p := fun r => (freeRunObject r).isSome) hsome]
      cases hargs : freeRunArgs r with
      | none =>
        rw [List.filterMap_cons_none hargs]
        exact ih
      | some a =>
        have ha : ¬ a.Targeted := fun ha => hsome (by rw [(freeRunArgs_object hargs ha).2, Option.isSome_some])
        rw [List.filterMap_cons_some hargs, List.filter_cons_of_neg (by rw [decide_eq_true_eq]; exact ha)]
        exact ih

theorem shows_pdo (h : Plain tables) {r : PdoRow} (hr : r ∈ pdoTargets tables) :
    ShowsPdo tables.loadedPdoPosition.toInt r (cells t tables (pdoArgs t tables.loadedPdoPosition.toInt r)) := by
  obtain ⟨hmem, hsome⟩ := mem_pdoTargets hr
  have hempty : trimmed "" = "" := rfl
  refine ⟨?_, ?_, trimmed_trimmed _, trimmed_trimmed _⟩
  · rw [object_cells (apart_pdoArgs h hmem hsome).inTable, pdoArgs_object (t := t) hsome]
  · unfold cells pdoArgs
    dsimp only
    rw [if_neg (by simp), hempty]

theorem raw_watch (h : Plain tables) (ha : a ∈ watchOffers t tables) :
    (cells t tables a).raw = (cells t tables a).watch := by
  obtain ⟨-, -, hsource, watch, hwatch, hraw⟩ := mem_watchOffers h ha
  unfold cells
  dsimp only
  rw [hwatch, Option.getD_some, hraw, hsource]
  split
  · exact trimmed_value hwatch
  · exact trimmed_value hwatch

/-- Each object that is known has its place. -/
theorem complete (h : Plain tables) {o : Object} (ho : Evidenced tables (pdoMap tables) o) :
    some o ∈ (freeRunBlock tables ++ pdoBlock t tables ++ watchBlock t tables).map fun a => some a.object := by
  have hfree : (∃ r ∈ tables.freeRun, freeRunObject r = some o) →
      some o ∈ (freeRunBlock tables).map fun a => some a.object := by
    rintro ⟨r, hr, ho⟩
    obtain ⟨a, hargs, ha⟩ := freeRunArgs_of (by rw [ho, Option.isSome_some])
    refine List.mem_map.2 ⟨a, mem_freeRunBlock.2 ⟨r, hr, hargs, ha⟩, ?_⟩
    rw [← (freeRunArgs_object hargs ha).2, ho]
  have hpdo : (∃ r ∈ pdoMap tables, pdoObject tables.loadedPdoPosition.toInt r = some o) →
      some o ∈ (freeRunBlock tables ++ pdoBlock t tables).map fun a => some a.object := by
    rintro ⟨r, hr, ho⟩
    have hmem : r ∈ pdoTargets tables := List.mem_filter.2 ⟨hr, by rw [ho, Option.isSome_some]⟩
    have hobjects : ((freeRunBlock tables).map (cells t tables)).map Row.object =
        (freeRunBlock tables).map fun a => some a.object := objects_cells fun a ha => (apart_freeRun h ha).inTable
    have hkeys : some o ∈ ((freeRunBlock tables).map (cells t tables)).map Row.object ∨
        some o ∈ (firsts (pdoObject tables.loadedPdoPosition.toInt)
          (((freeRunBlock tables).map (cells t tables)).map Row.object) (pdoTargets tables)).map
            (pdoObject tables.loadedPdoPosition.toInt) :=
      mem_keys_firsts.2 (Or.inr (List.mem_map.2 ⟨r, hmem, ho⟩))
    rw [List.map_append, List.mem_append, ← hobjects]
    refine hkeys.imp_right fun hmap => ?_
    obtain ⟨r', hr', ho'⟩ := List.mem_map.1 hmap
    rw [pdoBlock_eq h, List.map_map]
    refine List.mem_map.2 ⟨r', hr', ?_⟩
    rw [Function.comp_apply, ← pdoArgs_object (mem_pdoTargets (firsts_sublist.mem hr')).2, ho']
  have hwatch : (∃ r ∈ tables.watch, watchObject r = some o) →
      some o ∈ (freeRunBlock tables ++ pdoBlock t tables ++ watchBlock t tables).map fun a => some a.object := by
    rintro ⟨r, hr, ho⟩
    obtain ⟨a, ha, rfl⟩ := watchOffers_complete (t := t) h hr ho
    rw [List.map_append, List.mem_append]
    by_cases hkey : a.key ∈ (freeRunBlock tables ++ pdoBlock t tables).map Args.key
    · exact Or.inl ((mem_keys_iff (fun _ => apart_process h) (mem_watchOffers h ha).1).1 hkey)
    · exact Or.inr (List.mem_map.2 ⟨a, mem_watchBlock.2 ⟨ha, hkey⟩, rfl⟩)
  rcases ho with ho | ho | ho
  · rw [List.append_assoc, List.map_append]
    exact List.mem_append_left _ (hfree ho)
  · rw [List.map_append]
    exact List.mem_append_left _ (hpdo ho)
  · exact hwatch ho

/-- A row of the Watch table that is added is of an object that no row has yet. -/
theorem mem_watch_iff (h : Plain tables) {o : Object} :
    some o ∈ (watchBlock t tables).map (fun a => some a.object) ↔
      (∃ r ∈ tables.watch, watchObject r = some o) ∧
        some o ∉ (freeRunBlock tables ++ pdoBlock t tables).map fun a => some a.object := by
  constructor
  · intro hmem
    obtain ⟨a, ha, heq⟩ := List.mem_map.1 hmem
    obtain ⟨hoffer, hkey⟩ := mem_watchBlock.1 ha
    obtain ⟨hapart, hrow, -, -⟩ := mem_watchOffers h hoffer
    rw [← Option.some.inj heq]
    exact ⟨hrow, mt (mem_keys_iff (fun _ => apart_process h) hapart).2 hkey⟩
  · intro hrow
    obtain ⟨⟨r, hr, ho⟩, hno⟩ := hrow
    obtain ⟨a, ha, rfl⟩ := watchOffers_complete (t := t) h hr ho
    have hkey := mt (mem_keys_iff (fun _ => apart_process h) (mem_watchOffers h ha).1).1 hno
    exact List.mem_map.2 ⟨a, mem_watchBlock.2 ⟨ha, hkey⟩, rfl⟩

/-- No two rows behind those of the Free Run table share their object. -/
theorem once (h : Plain tables) : ((pdoBlock t tables ++ watchBlock t tables).map fun a => some a.object).Nodup := by
  apply nodup_objects
  · intro a ha
    exact (List.mem_append.1 ha).elim (apart_pdo h) (apart_watch h)
  · have hwatch : ((watchBlock t tables).map Args.key).Nodup :=
      (List.filter_sublist.map Args.key).nodup nodup_watch
    rw [List.map_append]
    refine List.Nodup.append nodup_firsts hwatch fun key hpdo hkey => ?_
    obtain ⟨a, ha, rfl⟩ := List.mem_map.1 hkey
    apply (mem_watchBlock.1 ha).2
    rw [List.map_append]
    exact List.mem_append_right _ hpdo

/-- They have other objects than the rows of the Free Run table. -/
theorem apart_of_process (h : Plain tables) (ha : a ∈ pdoBlock t tables ++ watchBlock t tables) :
    some a.object ∉ (freeRunBlock tables).map fun a => some a.object := by
  have hapart : a.Apart := (List.mem_append.1 ha).elim (apart_pdo h) (apart_watch h)
  apply mt (mem_keys_iff (fun _ => apart_freeRun h) hapart).2
  rcases List.mem_append.1 ha with hpdo | hwatch
  · exact not_mem_seen hpdo
  · intro hkey
    apply (mem_watchBlock.1 hwatch).2
    rw [List.map_append]
    exact List.mem_append_left _ hkey

end

/-- **Free Run rows, then the PDO map, then the Watch table.** -/
theorem merged (t : Language) (tables : Tables) (h : Plain tables) :
    Merged tables (pdoMap tables) (updateIoVariableTable t tables) := by
  have hprocess : ∀ a ∈ freeRunBlock tables, a.InTable := fun _ ha => (apart_freeRun h ha).inTable
  have hpdo : ∀ a ∈ pdoBlock t tables, a.InTable := fun _ ha => (apart_pdo h ha).inTable
  have hwatch : ∀ a ∈ watchBlock t tables, a.InTable := fun _ ha => (apart_watch h ha).inTable
  have hboth : ∀ a ∈ freeRunBlock tables ++ pdoBlock t tables, a.InTable := fun _ ha => (apart_process h ha).inTable
  have hall : ∀ a ∈ freeRunBlock tables ++ pdoBlock t tables ++ watchBlock t tables, a.InTable :=
    fun _ ha => (apart_table h ha).inTable
  have hlater : ∀ a ∈ pdoBlock t tables ++ watchBlock t tables, a.InTable := fun a ha =>
    (List.mem_append.1 ha).elim (hpdo a) (hwatch a)
  refine ⟨(freeRunBlock tables).map (cells t tables), (pdoBlock t tables).map (cells t tables),
    (watchBlock t tables).map (cells t tables), ?_, ?_⟩
  · rw [updateIoVariableTable, stages, List.map_append, List.map_append]
  · refine ⟨forall₂_freeRun _, ?_, fun o => ?_, ?_, fun o ho => ?_, ?_, ?_, ?_⟩
    · rw [pdoBlock_eq h, List.forall₂_map_right_iff, List.forall₂_map_right_iff]
      exact List.forall₂_same.2 fun r hr => shows_pdo h (firsts_sublist.mem hr)
    · rw [objects_cells hwatch, ← List.map_append, objects_cells hboth]
      exact mem_watch_iff h
    · intro row hrow
      obtain ⟨a, ha, rfl⟩ := List.mem_map.1 hrow
      exact raw_watch h (mem_watchBlock.1 ha).1
    · rw [← List.map_append, ← List.map_append, objects_cells hall]
      exact complete h ho
    · rw [← List.map_append, objects_cells hlater]
      exact once h
    · intro row hrow
      rw [← List.map_append] at hrow
      obtain ⟨a, ha, rfl⟩ := List.mem_map.1 hrow
      rw [objects_cells hprocess, object_cells (hlater a ha)]
      exact apart_of_process h ha
    · intro row hrow
      rw [← List.map_append, ← List.map_append] at hrow
      obtain ⟨a, ha, rfl⟩ := List.mem_map.1 hrow
      have hapart := apart_table h ha
      exact ⟨a.object, object_cells hapart.inTable, columns h hapart.inTable hapart.addressed⟩

/-- One object in all tables, one in the PDO map and in the Watch table, and one
in the Watch table alone, in many spellings. -/
def sample : Tables where
  loadedPdoPosition := 0
  selectedPosition := 0
  freeRun := [⟨⟨"0", "0x6041", "0x00", "39", "Mapped"⟩, "TxPDO", "0x1a00", "16", "Statusword", "39", "", false⟩]
  pdoTable := [⟨"SM3".toList, "0x1a00".toList, "6041".toList, "0".toList, "16".toList, "Statusword".toList⟩,
    ⟨"SM3".toList, "0x1a00".toList, "0x6064".toList, "0x00".toList, "32".toList, "Position".toList⟩]
  watch := [⟨"", "00", "0X6041", "00", "0x0027", "39", "uint16", "", "", "", "", ""⟩,
    ⟨"", "0", "6064", "0", "1200", "1200", "int32", "", "", "", "", ""⟩,
    ⟨"", "0", "0x6061", "0", "8", "CSP", "int8", "", "", "", "", ""⟩]
  watchChangedKeys := []
  startup := [⟨⟨"0", "0x06061", "0x0", "8", "int8"⟩, "match"⟩]
  ioVariableMetadata := QHash.empty

theorem merged_sample : Merged sample (pdoMap sample) (updateIoVariableTable Consistency.english sample) ∧
    (updateIoVariableTable Consistency.english sample).map (fun row => (row.index, row.raw, row.watch, row.startup)) =
      [("0x6041", "39", "0x0027", ""), ("0x6064", "", "1200", ""), ("0x6061", "8", "8", "8 | match")] :=
  ⟨merged Consistency.english sample ⟨by decide, by decide, by decide, by decide⟩, by decide +kernel⟩

/-- The map of slave 1 while slave 0 is selected. -/
def unselected : Tables :=
  { sample with loadedPdoPosition := 1, freeRun := [], watch := [], startup := [] }

/-- An index with the bar of the keys in it. -/
def barred : Tables :=
  { sample with
    freeRun := []
    pdoTable := []
    watch := [⟨"", "0", "0x6040|a", "0x00", "6", "6", "uint16", "", "", "", "", ""⟩] }

/-- The rows of a map that does not count, and an object whose key has four parts, are missing. -/
theorem not_merged :
    ¬ Merged unselected unselected.pdoTable (updateIoVariableTable Consistency.english unselected) ∧
      ¬ Merged barred barred.pdoTable (updateIoVariableTable Consistency.english barred) := by
  have hnone : ∀ {tables : Tables} {o : Object}, Evidenced tables tables.pdoTable o →
      updateIoVariableTable Consistency.english tables = [] →
        ¬ Merged tables tables.pdoTable (updateIoVariableTable Consistency.english tables) := by
    intro tables o ho hempty hmerged
    obtain ⟨process, pdo, watch, hrows, hblocks⟩ := hmerged
    have hmem := hblocks.complete o ho
    rw [← hrows, hempty] at hmem
    cases hmem
  constructor
  · have ho : pdoObject 1 ⟨"SM3".toList, "0x1a00".toList, "6041".toList, "0".toList, "16".toList, "Statusword".toList⟩ =
        some (objectOf 1 "6041" "0") := by decide +kernel
    exact hnone (Or.inr (Or.inl ⟨_, List.mem_cons_self, ho⟩)) (by decide +kernel)
  · have ho : watchObject ⟨"", "0", "0x6040|a", "0x00", "6", "6", "uint16", "", "", "", "", ""⟩ =
        some (objectOf 0 "0x6040|a" "0x00") := by decide +kernel
    exact hnone (Or.inr (Or.inr ⟨_, List.mem_cons_self, ho⟩)) (by decide +kernel)

end NekoEcat.L4.IoVariables
