import NekoEcat.Core.Assoc
import NekoEcat.Core.Trace
import NekoEcat.L4Gui.HexText

/-!
# The Watch table

Four operations find the row of an object or insert one: two compare the texts
of the addresses without their case, one their normal forms, and the values read
are kept under a key of the normal forms while the table and the history use one
of the texts.

An object is a position and the normal forms of an index and a subindex. The
values recorded since the list was cleared are kept as they were recorded, which
the source does not do.

* `Safe`: rows are inserted, and history values recorded, under an address that
  is its own normal form.
* `step_inv`: what such steps keep.
* `watch_identity`: in a run of such steps an object has one row, a response
  updates it, and the rows counted as changed are those whose value changed.
* `two_rows`, `unseen_change`: two runs of other steps.
-/
namespace NekoEcat.L4.WatchTable
open NekoEcat.Trace NekoEcat.QNumber NekoEcat.QString NekoEcat.L4.SdoWrites
open NekoEcat.L4.EcatClient (hashInsert hashRemove)

/-- The cells 1 to 4. -/
structure Row where
  position : String
  index : String
  subIndex : String
  value : String
  deriving DecidableEq, Repr

/-- A position and the normal forms of an index and a subindex. -/
abbrev Object := Int × List Char × List Char

def objectOf (position : Int) (index subIndex : String) : Object :=
  (position, normalizeHexText index.toList 4, normalizeHexText subIndex.toList 2)

/-- `item(row, 1)->text().toInt()` -/
def Row.number (r : Row) : Int := (toInt 10 r.position.toList).getD 0

def Row.object (r : Row) : Object := objectOf r.number r.index r.subIndex

/-- A value recorded in `watchValues_`, by a read or from the history. -/
structure Recorded where
  object : Object
  value : String
  read : Bool
  deriving DecidableEq, Repr

structure Watch where
  rows : List Row
  watchValues : List (String × String)
  watchChangedKeys : List String
  /-- newest first -/
  recorded : List Recorded
  deriving DecidableEq, Repr

/-! ## Operations -/

/-- `text().compare(index, Qt::CaseInsensitive) == 0` -/
def sameText (a b : String) : Bool := lower a.toList == lower b.toList

/-- The first row whose texts are the address. -/
def rowOfTexts (s : Watch) (position : Int) (index subIndex : String) : Option Nat :=
  s.rows.findIdx? fun r => r.number == position && sameText r.index index && sameText r.subIndex subIndex

/-- mirrors apps/ecat-studio/utils/TableHelpers.cpp:60-82 -/
def tableObjectAddressMatches (r : Row) (position : Int) (index subIndex : String) : Bool :=
  decide (0 ≤ position) && toInt 10 (trim r.position.toList) == some position &&
    (!(trim index.toList).isEmpty && !(trim subIndex.toList).isEmpty &&
      normalizeHexText (trim r.index.toList) 4 == normalizeHexText index.toList 4 &&
      normalizeHexText (trim r.subIndex.toList) 2 == normalizeHexText subIndex.toList 2)

def insertRow (s : Watch) (position : Int) (index subIndex value : String) : Watch :=
  { s with rows := s.rows ++ [⟨QString.number position, index, subIndex, value⟩] }

def setValue (s : Watch) (row : Nat) (value : String) : Watch :=
  { s with rows := s.rows.modify row fun r => { r with value := value } }

/-- The row found, or a new one at the end. -/
def place (s : Watch) (found : Option Nat) (position : Int) (index subIndex : String) : Watch × Nat :=
  match found with
  | some row => (s, row)
  | none => (insertRow s position index subIndex "", s.rows.length)

/-- The key of the texts. -/
def textKey (position : Int) (index subIndex : String) : String :=
  QString.number position ++ "|" ++ index ++ "|" ++ subIndex

/-- The fields of the inspector are the arguments.
mirrors apps/ecat-studio/workspaces/MainWindowWatchWorkspace.cpp:56-138 -/
def addCurrentSdoToWatch (s : Watch) (selectedPosition : Int) (sdoIndex sdoSubIndex sdoValue : String) : Watch :=
  let index := trimmed sdoIndex
  let subIndex := trimmed sdoSubIndex
  if selectedPosition < 0 ∨ index = "" ∨ subIndex = "" then s
  else
    match rowOfTexts s selectedPosition index subIndex with
    | some _ => s
    | none => insertRow s selectedPosition index subIndex sdoValue

/-- A row of the history or of the bookmarks: the cells read. -/
structure Source where
  position : String
  index : String
  subIndex : String
  value : String
  deriving DecidableEq, Repr

/-- The address a row of the history names. -/
def historyAddress (h : Source) : Option (Int × String × String) :=
  let index := trimmed h.index
  let subIndex := prefixed (trimmed h.subIndex)
  match toInt 10 (trim h.position.toList) with
  | none => none
  | some position => if position < 0 ∨ index = "" ∨ subIndex = "" then none else some (position, index, subIndex)

/-- One row of `addSelectedHistoryRowsToWatch`. -/
def addHistoryRow (s : Watch) (h : Source) : Watch :=
  match historyAddress h with
  | none => s
  | some (position, index, subIndex) =>
    let (s', row) := place s (rowOfTexts s position index subIndex) position index subIndex
    let value := trimmed h.value
    if value = "" then s'
    else
      { setValue s' row value with
        watchValues := hashInsert s'.watchValues (textKey position index subIndex) value
        recorded := ⟨objectOf position index subIndex, value, false⟩ :: s'.recorded }

/-- mirrors apps/ecat-studio/workspaces/MainWindowWatchWorkspace.cpp:141-269 -/
def addSelectedHistoryRowsToWatch (s : Watch) (rows : List Source) : Watch := rows.foldl addHistoryRow s

/-- The object a bookmark names.
mirrors apps/ecat-studio/adapters/SdoEvidenceTableAdapter.cpp:269-293 -/
def bookmarkAddress (b : Source) : Option (Int × String × String) :=
  let index := String.ofList (normalizeHexText (trim b.index.toList) 4)
  let subIndex := String.ofList (normalizeHexText (trim b.subIndex.toList) 2)
  match toInt 10 (trim b.position.toList) with
  | none => none
  | some position => if position < 0 ∨ index = "" ∨ subIndex = "" then none else some (position, index, subIndex)

/-- One row of `addObjectBookmarkRowsToWatch`. -/
def addBookmarkRow (s : Watch) (b : Source) : Watch :=
  match bookmarkAddress b with
  | none => s
  | some (position, index, subIndex) =>
    let found := s.rows.findIdx? fun r => tableObjectAddressMatches r position index subIndex
    let (s', row) := place s found position index subIndex
    setValue s' row (trimmed b.value)

/-- mirrors apps/ecat-studio/workspaces/MainWindowSdoBookmarks.cpp:328-393 -/
def addObjectBookmarkRowsToWatch (s : Watch) (rows : List Source) : Watch := rows.foldl addBookmarkRow s

/-- mirrors apps/ecat-studio/workspaces/MainWindowSdoWorkspace.cpp:483-515 -/
def updateWatchTableFromSdo (s : Watch) (position : Int) (index subIndex value : String) : Watch :=
  let key := sdoEvidenceKey position index subIndex
  let (s', row) := place s (rowOfTexts s position index subIndex) position index subIndex
  let changed := (s'.watchValues.lookup key).any (· != value)
  { setValue s' row value with
    watchValues := hashInsert s'.watchValues key value
    watchChangedKeys := if changed then key :: s'.watchChangedKeys else s'.watchChangedKeys
    recorded := ⟨objectOf position index subIndex, value, true⟩ :: s'.recorded }

/-- mirrors apps/ecat-studio/workspaces/MainWindowWatchWorkspace.cpp:720-733 -/
def clearWatchList (_ : Watch) : Watch := ⟨[], [], [], []⟩

/-- The rows that are counted as changed.
mirrors apps/ecat-studio/workspaces/MainWindowTopologyUi.cpp:789-799 -/
def counted (s : Watch) (r : Row) : Bool :=
  decide (textKey r.number (trimmed r.index) (trimmed r.subIndex) ∈ s.watchChangedKeys)

def changedRows (s : Watch) : Nat := s.rows.countP (counted s)

inductive Op where
  | addCurrent (selectedPosition : Int32) (sdoIndex sdoSubIndex sdoValue : String)
  | addHistory (rows : List Source)
  | addBookmarks (rows : List Source)
  | response (position : Int32) (index subIndex value : String)
  | clear
  deriving DecidableEq, Repr

def step (s : Watch) : Op → Watch
  | .addCurrent position index subIndex value => addCurrentSdoToWatch s position.toInt index subIndex value
  | .addHistory rows => addSelectedHistoryRowsToWatch s rows
  | .addBookmarks rows => addObjectBookmarkRowsToWatch s rows
  | .response position index subIndex value => updateWatchTableFromSdo s position.toInt index subIndex value
  | .clear => clearWatchList s

def initial : Watch := ⟨[], [], [], []⟩

/-! ## What the table is for -/

/-- The last value recorded for an object. -/
def lastRecorded (recorded : List Recorded) (o : Object) : Option String :=
  (recorded.find? fun r => r.object == o).map (·.value)

/-- At some read the last two values recorded for the object differ. -/
def Changed : List Recorded → Object → Prop
  | [], _ => False
  | r :: earlier, o =>
    (r.read = true ∧ r.object = o ∧ ∃ value, lastRecorded earlier o = some value ∧ value ≠ r.value) ∨ Changed earlier o

/-- One row per object, and the rows counted as changed are those of objects whose value changed. -/
structure Identity (s : Watch) : Prop where
  one : (s.rows.map Row.object).Nodup
  changed : ∀ r ∈ s.rows, counted s r = true ↔ Changed s.recorded r.object

/-- The row of the object has the value, the others are as they were. -/
structure Updates (s s' : Watch) (o : Object) (value : String) : Prop where
  own : ∃ r ∈ s'.rows, r.object = o ∧ r.value = value
  others : ∀ (i : Nat) (r : Row), s.rows[i]? = some r → r.object ≠ o → s'.rows[i]? = some r

/-! ## Addresses that are their own normal form -/

/-- An address that is its own normal form. The index has no `|`, which
separates the parts of a key. -/
structure Canonical (i j : String) : Prop where
  index : normalizeHexText i.toList 4 = i.toList
  subIndex : normalizeHexText j.toList 2 = j.toList
  bar : '|' ∉ i.toList

/-- A row is inserted under an address that is its own normal form. -/
def SafeInsert (s : Watch) (position : Int) (index subIndex : String) : Prop :=
  rowOfTexts s position index subIndex = none → Canonical index subIndex

def SafeHistory (s : Watch) (h : Source) : Prop :=
  ∀ position index subIndex, historyAddress h = some (position, index, subIndex) →
    SafeInsert s position index subIndex ∧ (trimmed h.value ≠ "" → Canonical index subIndex)

def SafeBookmark (_ : Watch) (b : Source) : Prop :=
  ∀ position index subIndex, bookmarkAddress b = some (position, index, subIndex) → '|' ∉ index.toList

def Safe (s : Watch) : Op → Prop
  | .addCurrent position index subIndex _ =>
    0 ≤ position.toInt → SafeInsert s position.toInt (trimmed index) (trimmed subIndex)
  | .addHistory rows => Along addHistoryRow SafeHistory s rows
  | .addBookmarks rows => Along addBookmarkRow SafeBookmark s rows
  | .response position index subIndex _ => SafeInsert s position.toInt index subIndex
  | .clear => True

/-! ## Keys -/

/-- A position of 32 bits, and an index that does not end the key. -/
structure Addressed (o : Object) : Prop where
  low : -2 ^ 31 ≤ o.1
  high : o.1 < 2 ^ 31
  bar : '|' ∉ o.2.1

def objectKey (o : Object) : String := textKey o.1 (String.ofList o.2.1) (String.ofList o.2.2)

theorem sdoEvidenceKey_eq (position : Int) (index subIndex : String) :
    sdoEvidenceKey position index subIndex = objectKey (objectOf position index subIndex) := rfl

theorem number_bar (n : Int) : '|' ∉ (QString.number n).toList := by
  have hdigits : ∀ m, '|' ∉ Nat.toDigits 10 m := by
    intro m hm
    have hd := isDigitOf_toDigits (by decide) (by decide) '|' hm
    exact absurd hd (by decide)
  rw [QString.number, String.toList_ofList]
  cases n with
  | ofNat m => exact hdigits m
  | negSucc m =>
    intro hm
    rcases List.mem_cons.1 hm with hm | hm
    · exact absurd hm (by decide)
    · exact hdigits (m + 1) hm

theorem bar_split {a a' b b' : List Char} (h : '|' ∉ a) (h' : '|' ∉ a') (heq : a ++ '|' :: b = a' ++ '|' :: b') :
    a = a' ∧ b = b' := by
  have hcut : ∀ {a b : List Char}, '|' ∉ a →
      (a ++ '|' :: b).takeWhile (· != '|') = a ∧ (a ++ '|' :: b).dropWhile (· != '|') = '|' :: b := by
    intro a b ha
    have hall : ∀ c ∈ a, (c != '|') = true := fun c hc => by
      simp only [bne_iff_ne]
      rintro rfl
      exact ha hc
    rw [List.takeWhile_append_of_pos hall, List.dropWhile_append_of_pos hall]
    simp
  obtain ⟨ht, hd⟩ := hcut (b := b) h
  obtain ⟨ht', hd'⟩ := hcut (b := b') h'
  rw [heq] at ht hd
  exact ⟨ht.symm.trans ht', (List.cons.inj (hd.symm.trans hd')).2⟩

theorem toList_textKey (position : Int) (index subIndex : String) :
    (textKey position index subIndex).toList =
      (QString.number position).toList ++ '|' :: (index.toList ++ '|' :: subIndex.toList) := by
  simp [textKey, String.toList_append]

/-- **Two objects have two keys.** -/
theorem objectKey_inj {o o' : Object} (h : Addressed o) (h' : Addressed o') (hk : objectKey o = objectKey o') : o = o' := by
  have hl := congrArg String.toList hk
  simp only [objectKey, toList_textKey, String.toList_ofList] at hl
  obtain ⟨hp, hrest⟩ := bar_split (number_bar o.1) (number_bar o'.1) hl
  obtain ⟨hi, hj⟩ := bar_split h.bar h'.bar hrest
  have hn := congrArg (toInt 10) hp
  rw [toInt_number h.low h.high, toInt_number h'.low h'.high] at hn
  exact Prod.ext (Option.some.inj hn) (Prod.ext hi hj)

/-! ## Values -/

/-- The values and the changed keys are those of what was recorded. -/
structure Tracks (values : List (String × String)) (changed : List String) (recorded : List Recorded) : Prop where
  values : ∀ o, Addressed o → values.lookup (objectKey o) = lastRecorded recorded o
  changed : ∀ o, Addressed o → (objectKey o ∈ changed ↔ Changed recorded o)

section
variable {values : List (String × String)} {changed : List String} {recorded : List Recorded} {o : Object}

theorem lookup_hashInsert (m : List (String × String)) (k k' : String) (v : String) :
    (hashInsert m k v).lookup k' = if k' = k then some v else m.lookup k' := by
  have hremove : hashRemove m k = Assoc.remove m k := rfl
  rw [hashInsert, List.lookup_cons, hremove, Assoc.lookup_remove]
  by_cases h : k' = k
  · simp [h]
  · have hb : (k' == k) = false := beq_false_of_ne h
    simp [hb, h]

theorem lastRecorded_cons (r : Recorded) (recorded : List Recorded) (o : Object) :
    lastRecorded (r :: recorded) o = if r.object = o then some r.value else lastRecorded recorded o := by
  by_cases h : r.object = o <;> simp [lastRecorded, h]

theorem tracks_values (h : Tracks values changed recorded) (ho : Addressed o) (value : String) (read : Bool) :
    ∀ o', Addressed o' →
      (hashInsert values (objectKey o) value).lookup (objectKey o') = lastRecorded (⟨o, value, read⟩ :: recorded) o' := by
  intro o' ho'
  rw [lookup_hashInsert, lastRecorded_cons, h.values o' ho']
  by_cases heq : o = o'
  · simp [heq]
  · have hkey : objectKey o' ≠ objectKey o := fun hk => heq (objectKey_inj ho ho' hk.symm)
    simp [heq, hkey]

theorem tracks_history (h : Tracks values changed recorded) (ho : Addressed o) (value : String) :
    Tracks (hashInsert values (objectKey o) value) changed (⟨o, value, false⟩ :: recorded) where
  values := tracks_values h ho value false
  changed := by
    intro o' ho'
    simp [Changed, h.changed o' ho']

theorem tracks_read (h : Tracks values changed recorded) (ho : Addressed o) (value : String) :
    Tracks (hashInsert values (objectKey o) value)
      (if (values.lookup (objectKey o)).any (· != value) then objectKey o :: changed else changed)
      (⟨o, value, true⟩ :: recorded) where
  values := tracks_values h ho value true
  changed := by
    intro o' ho'
    have hnew : (values.lookup (objectKey o)).any (· != value) = true ↔
        ∃ last, lastRecorded recorded o = some last ∧ last ≠ value := by
      rw [h.values o ho]
      cases lastRecorded recorded o <;> simp
    have hmem : objectKey o' ∈ (if (values.lookup (objectKey o)).any (· != value) then objectKey o :: changed else changed) ↔
        (o = o' ∧ ∃ last, lastRecorded recorded o = some last ∧ last ≠ value) ∨ objectKey o' ∈ changed := by
      rw [← hnew]
      split
      · rename_i hany
        rw [List.mem_cons]
        refine or_congr_left ?_
        constructor
        · intro hk
          exact ⟨objectKey_inj ho ho' hk.symm, hany⟩
        · rintro ⟨rfl, -⟩
          rfl
      · rename_i hany
        simp [hany]
    rw [hmem, h.changed o' ho']
    simp only [Changed, true_and]
    refine or_congr_left (and_congr_right fun heq => ?_)
    rw [heq]

end

/-! ## Rows -/

/-- The rows of the table: addresses in normal form, and no two of one object. -/
structure Proper (rows : List Row) : Prop where
  canonical : ∀ r ∈ rows, Canonical r.index r.subIndex
  position : ∀ r ∈ rows, ∃ n : Int, r.position = QString.number n ∧ -2 ^ 31 ≤ n ∧ n < 2 ^ 31
  one : (rows.map Row.object).Nodup

section
variable {s : Watch} {rows : List Row} {r : Row} {position : Int} {index subIndex : String}

theorem Proper.number (h : Proper rows) (hr : r ∈ rows) :
    toInt 10 r.position.toList = some r.number ∧ -2 ^ 31 ≤ r.number ∧ r.number < 2 ^ 31 := by
  obtain ⟨n, hn, hlow, hhigh⟩ := h.position r hr
  have hread : toInt 10 r.position.toList = some n := by rw [hn, toInt_number hlow hhigh]
  have hnum : r.number = n := by simp [Row.number, hread]
  rw [hnum]
  exact ⟨hread, hlow, hhigh⟩

theorem Proper.object (h : Proper rows) (hr : r ∈ rows) : r.object = (r.number, r.index.toList, r.subIndex.toList) := by
  have hc := h.canonical r hr
  simp [Row.object, objectOf, hc.index, hc.subIndex]

theorem Proper.addressed (h : Proper rows) (hr : r ∈ rows) : Addressed r.object := by
  obtain ⟨-, hlow, hhigh⟩ := h.number hr
  rw [h.object hr]
  exact ⟨hlow, hhigh, (h.canonical r hr).bar⟩

theorem Canonical.trimmed {i j : String} (h : Canonical i j) : trimmed i = i ∧ trimmed j = j := by
  have htrim : ∀ (t : String) (n : Nat), normalizeHexText t.toList n = t.toList → QString.trimmed t = t := by
    intro t n ht
    have hl : trim t.toList = t.toList := by
      rw [← ht]
      exact trim_normalizeHexText _ _
    apply String.toList_injective
    exact (String.toList_ofList).trans hl
  exact ⟨htrim i 4 h.index, htrim j 2 h.subIndex⟩

theorem Proper.key (h : Proper rows) (hr : r ∈ rows) :
    textKey r.number (trimmed r.index) (trimmed r.subIndex) = objectKey r.object := by
  obtain ⟨hi, hj⟩ := (h.canonical r hr).trimmed
  rw [hi, hj, h.object hr, objectKey]
  simp

/-! ## Finding and inserting -/

theorem rowOfTexts_some {row : Nat} (h : rowOfTexts s position index subIndex = some row) :
    ∃ r, s.rows[row]? = some r ∧ r.object = objectOf position index subIndex := by
  obtain ⟨hlt, hp, -⟩ := List.findIdx?_eq_some_iff_getElem.1 h
  refine ⟨s.rows[row], List.getElem?_eq_getElem hlt, ?_⟩
  simp only [sameText, Bool.and_eq_true, beq_iff_eq] at hp
  obtain ⟨⟨hnum, hi⟩, hj⟩ := hp
  rw [Row.object, objectOf, objectOf, hnum, normalizeHexText_of_lower hi, normalizeHexText_of_lower hj]

/-- No row has the texts of an address in normal form: none is of the object. -/
theorem rowOfTexts_none (h : Proper s.rows) (hnone : rowOfTexts s position index subIndex = none)
    (hc : Canonical index subIndex) : ∀ r ∈ s.rows, r.object ≠ objectOf position index subIndex := by
  intro r hr heq
  have hne := List.findIdx?_eq_none_iff.1 hnone r hr
  rw [h.object hr, objectOf, hc.index, hc.subIndex] at heq
  simp only [Prod.mk.injEq] at heq
  obtain ⟨hnum, hi, hj⟩ := heq
  simp [hnum, sameText, hi, hj] at hne

theorem tableObjectAddressMatches_iff (h : Proper rows) (hr : r ∈ rows) (hp : 0 ≤ position)
    (hi : trim index.toList ≠ []) (hj : trim subIndex.toList ≠ []) :
    tableObjectAddressMatches r position index subIndex = true ↔ r.object = objectOf position index subIndex := by
  have hread : toInt 10 (trim r.position.toList) = some r.number := by
    rw [toInt_trim, (h.number hr).1]
  have htrim : ∀ (t : List Char) (n : Nat), normalizeHexText (trim t) n = normalizeHexText t n :=
    fun t n => normalizeHexText_congr (trim_trim t) n
  simp [tableObjectAddressMatches, hread, htrim, hp, hi, hj, Row.object, objectOf]

theorem proper_insert (h : Proper rows) (hlow : -2 ^ 31 ≤ position) (hhigh : position < 2 ^ 31) (hc : Canonical index subIndex)
    (hnew : ∀ r ∈ rows, r.object ≠ objectOf position index subIndex) (value : String) :
    Proper (rows ++ [⟨QString.number position, index, subIndex, value⟩]) ∧
      Row.object ⟨QString.number position, index, subIndex, value⟩ = objectOf position index subIndex := by
  have hobject : Row.object ⟨QString.number position, index, subIndex, value⟩ = objectOf position index subIndex := by
    simp [Row.object, Row.number, toInt_number hlow hhigh]
  refine ⟨⟨?_, ?_, ?_⟩, hobject⟩
  · intro r hr
    rcases List.mem_append.1 hr with hr | hr
    · exact h.canonical r hr
    · rw [List.mem_singleton.1 hr]
      exact hc
  · intro r hr
    rcases List.mem_append.1 hr with hr | hr
    · exact h.position r hr
    · rw [List.mem_singleton.1 hr]
      exact ⟨position, rfl, hlow, hhigh⟩
  · rw [List.map_append, List.map_singleton, hobject]
    refine List.Nodup.append h.one (List.nodup_singleton _) ?_
    intro o ho hs
    obtain ⟨r, hr, rfl⟩ := List.mem_map.1 ho
    exact hnew r hr (List.mem_singleton.1 hs)

theorem proper_setValue (h : Proper rows) (row : Nat) (value : String) :
    Proper (rows.modify row fun r => { r with value := value }) := by
  have hmem : ∀ r ∈ rows.modify row fun r => { r with value := value },
      ∃ r' ∈ rows, r.position = r'.position ∧ r.index = r'.index ∧ r.subIndex = r'.subIndex := by
    intro r hr
    obtain ⟨i, hi⟩ := List.mem_iff_getElem?.1 hr
    rw [List.getElem?_modify] at hi
    obtain ⟨r', hr', rfl⟩ := Option.map_eq_some_iff.1 hi
    refine ⟨r', List.mem_of_getElem? hr', ?_⟩
    split <;> exact ⟨rfl, rfl, rfl⟩
  have hobjects : (rows.modify row fun r => { r with value := value }).map Row.object = rows.map Row.object := by
    refine List.ext_getElem? fun i => ?_
    rw [List.getElem?_map, List.getElem?_map, List.getElem?_modify]
    cases rows[i]? with
    | none => rfl
    | some r =>
      simp only [Option.map_some]
      split <;> rfl
  refine ⟨?_, ?_, ?_⟩
  · intro r hr
    obtain ⟨r', hr', -, hi, hj⟩ := hmem r hr
    rw [hi, hj]
    exact h.canonical r' hr'
  · intro r hr
    obtain ⟨r', hr', hp, -, -⟩ := hmem r hr
    rw [hp]
    exact h.position r' hr'
  · rw [hobjects]
    exact h.one

/-- What every step keeps. -/
structure Inv (s : Watch) : Prop where
  rows : Proper s.rows
  tracks : Tracks s.watchValues s.watchChangedKeys s.recorded

/-- The row that was found is the object's; if none was, one can be inserted. -/
structure Finds (s : Watch) (found : Option Nat) (position : Int) (index subIndex : String) : Prop where
  low : -2 ^ 31 ≤ position
  high : position < 2 ^ 31
  some : ∀ row, found = some row → ∃ r, s.rows[row]? = some r ∧ r.object = objectOf position index subIndex
  none : found = none → Canonical index subIndex ∧ ∀ r ∈ s.rows, r.object ≠ objectOf position index subIndex

/-- **The place of an object**: its row is there, the rows before stay, and
nothing else changes. -/
theorem place_spec (h : Proper s.rows) {found : Option Nat} (hf : Finds s found position index subIndex) :
    let s' := (place s found position index subIndex).1
    let row := (place s found position index subIndex).2
    Proper s'.rows ∧ (∃ r, s'.rows[row]? = some r ∧ r.object = objectOf position index subIndex) ∧
      (∀ (i : Nat) (r : Row), s.rows[i]? = some r → s'.rows[i]? = some r) ∧
      s'.watchValues = s.watchValues ∧ s'.watchChangedKeys = s.watchChangedKeys ∧ s'.recorded = s.recorded := by
  cases hfound : found with
  | some row => exact ⟨h, hf.some row hfound, fun i r hr => hr, rfl, rfl, rfl⟩
  | none =>
    obtain ⟨hc, hnew⟩ := hf.none hfound
    obtain ⟨hproper, hobject⟩ := proper_insert h hf.low hf.high hc hnew ""
    refine ⟨hproper, ⟨_, List.getElem?_concat_length, hobject⟩, ?_, rfl, rfl, rfl⟩
    intro i r hr
    exact (List.getElem?_append_left (List.getElem?_eq_some_iff.1 hr).1).trans hr

/-- The address of the row an operation writes to. -/
theorem place_addressed (h : Proper s.rows) {found : Option Nat} (hf : Finds s found position index subIndex) :
    Addressed (objectOf position index subIndex) := by
  obtain ⟨hproper, ⟨r, hr, hobject⟩, -⟩ := place_spec h hf
  rw [← hobject]
  exact hproper.addressed (List.mem_of_getElem? hr)

theorem finds_texts (h : Proper s.rows) (hlow : -2 ^ 31 ≤ position) (hhigh : position < 2 ^ 31)
    (hsafe : SafeInsert s position index subIndex) : Finds s (rowOfTexts s position index subIndex) position index subIndex :=
  ⟨hlow, hhigh, fun _ => rowOfTexts_some, fun hnone => ⟨hsafe hnone, rowOfTexts_none h hnone (hsafe hnone)⟩⟩

theorem toInt_range {cs : List Char} {n : Int} (h : toInt 10 cs = some n) : -2 ^ 31 ≤ n ∧ n < 2 ^ 31 := by
  unfold toInt toSigned at h
  split at h
  · obtain ⟨m, hm, rfl⟩ := Option.map_eq_some_iff.1 h
    have hle := of_decide_eq_true (Option.filter_eq_some_iff.1 hm).2
    constructor <;> omega
  · obtain ⟨m, hm, rfl⟩ := Option.map_eq_some_iff.1 h
    have hlt := of_decide_eq_true (Option.filter_eq_some_iff.1 hm).2
    constructor <;> omega

/-! ## Steps -/

theorem addCurrentSdoToWatch_inv (h : Inv s) (p : Int32) (value : String)
    (hsafe : 0 ≤ p.toInt → SafeInsert s p.toInt (trimmed index) (trimmed subIndex)) :
    Inv (addCurrentSdoToWatch s p.toInt index subIndex value) := by
  unfold addCurrentSdoToWatch
  simp only
  split
  · exact h
  · rename_i hok
    simp only [not_or, not_lt] at hok
    have hs := hsafe hok.1
    split
    · exact h
    · rename_i hnone
      have hc := hs hnone
      exact ⟨(proper_insert h.rows p.le_toInt p.toInt_lt hc (rowOfTexts_none h.rows hnone hc) value).1, h.tracks⟩

theorem addHistoryRow_inv (h : Inv s) {src : Source} (hsafe : SafeHistory s src) : Inv (addHistoryRow s src) := by
  unfold addHistoryRow
  split
  · exact h
  · rename_i position index subIndex haddress
    obtain ⟨hinsert, hvalue⟩ := hsafe position index subIndex haddress
    have hrange : -2 ^ 31 ≤ position ∧ position < 2 ^ 31 := by
      unfold historyAddress at haddress
      simp only at haddress
      split at haddress
      · cases haddress
      · rename_i n hn
        split at haddress
        · cases haddress
        · have hn' := toInt_range hn
          simp only [Option.some.injEq, Prod.mk.injEq] at haddress
          rwa [haddress.1] at hn'
    have hf := finds_texts h.rows hrange.1 hrange.2 hinsert
    obtain ⟨hproper, -, -, hvalues, hchanged, hrecorded⟩ := place_spec h.rows hf
    simp only
    split
    · refine ⟨hproper, ?_⟩
      rw [hvalues, hchanged, hrecorded]
      exact h.tracks
    · rename_i hne
      have hc := hvalue hne
      have hkey : textKey position index subIndex = objectKey (objectOf position index subIndex) := by
        simp [objectKey, objectOf, hc.index, hc.subIndex]
      refine ⟨proper_setValue hproper _ _, ?_⟩
      simp only [setValue, hvalues, hchanged, hrecorded, hkey]
      exact tracks_history h.tracks (place_addressed h.rows hf) _

/-- A bookmark names its object in normal form. -/
theorem bookmarkAddress_spec {src : Source} (h : bookmarkAddress src = some (position, index, subIndex)) :
    (0 ≤ position ∧ position < 2 ^ 31) ∧ (index ≠ "" ∧ subIndex ≠ "") ∧
      normalizeHexText index.toList 4 = index.toList ∧ normalizeHexText subIndex.toList 2 = subIndex.toList := by
  unfold bookmarkAddress at h
  simp only at h
  split at h
  · cases h
  · rename_i n hn
    split at h
    · cases h
    · rename_i hok
      simp only [not_or, not_lt] at hok
      simp only [Option.some.injEq, Prod.mk.injEq] at h
      obtain ⟨hp, hi, hj⟩ := h
      rw [hp, hi, hj] at hok
      refine ⟨⟨hok.1, ?_⟩, hok.2, ?_, ?_⟩
      · rw [← hp]
        exact (toInt_range hn).2
      · rw [← hi, String.toList_ofList, normalizeHexText_idem]
      · rw [← hj, String.toList_ofList, normalizeHexText_idem]

theorem finds_bookmark (h : Proper s.rows) {src : Source} (haddress : bookmarkAddress src = some (position, index, subIndex))
    (hbar : '|' ∉ index.toList) :
    Finds s (s.rows.findIdx? fun r => tableObjectAddressMatches r position index subIndex) position index subIndex := by
  obtain ⟨⟨hlow, hhigh⟩, ⟨hne, hne'⟩, hi, hj⟩ := bookmarkAddress_spec haddress
  have hink : ∀ (t : String) (n : Nat), t ≠ "" → normalizeHexText t.toList n = t.toList → trim t.toList ≠ [] := by
    intro t n ht hn
    rw [← hn, trim_normalizeHexText, hn]
    intro he
    apply ht
    rw [← String.ofList_toList (s := t), he]
  have hmatch : ∀ r ∈ s.rows,
      (tableObjectAddressMatches r position index subIndex = true ↔ r.object = objectOf position index subIndex) :=
    fun r hr => tableObjectAddressMatches_iff h hr hlow (hink index 4 hne hi) (hink subIndex 2 hne' hj)
  refine ⟨by omega, hhigh, ?_, ?_⟩
  · intro row hrow
    obtain ⟨hlt, hp, -⟩ := List.findIdx?_eq_some_iff_getElem.1 hrow
    exact ⟨s.rows[row], List.getElem?_eq_getElem hlt, (hmatch _ (List.getElem_mem hlt)).1 hp⟩
  · intro hnone
    refine ⟨⟨hi, hj, hbar⟩, fun r hr heq => ?_⟩
    have hno := List.findIdx?_eq_none_iff.1 hnone r hr
    rw [(hmatch r hr).2 heq] at hno
    cases hno

theorem addBookmarkRow_inv (h : Inv s) {src : Source} (hsafe : SafeBookmark s src) : Inv (addBookmarkRow s src) := by
  unfold addBookmarkRow
  split
  · exact h
  · rename_i position index subIndex haddress
    have hf := finds_bookmark h.rows haddress (hsafe position index subIndex haddress)
    obtain ⟨hproper, -, -, hvalues, hchanged, hrecorded⟩ := place_spec h.rows hf
    refine ⟨proper_setValue hproper _ _, ?_⟩
    simp only [setValue, hvalues, hchanged, hrecorded]
    exact h.tracks

/-- **A response** updates the row of its object. -/
theorem updateWatchTableFromSdo_inv (h : Inv s) (p : Int32) (value : String) (hsafe : SafeInsert s p.toInt index subIndex) :
    Inv (updateWatchTableFromSdo s p.toInt index subIndex value) ∧
      Updates s (updateWatchTableFromSdo s p.toInt index subIndex value) (objectOf p.toInt index subIndex) value := by
  have hf := finds_texts h.rows p.le_toInt p.toInt_lt hsafe
  obtain ⟨hproper, ⟨r, hr, hobject⟩, hstay, hvalues, hchanged, hrecorded⟩ := place_spec h.rows hf
  have haddressed := place_addressed h.rows hf
  unfold updateWatchTableFromSdo
  simp only [sdoEvidenceKey_eq, hvalues, hchanged, hrecorded, setValue]
  refine ⟨⟨proper_setValue hproper _ _, tracks_read h.tracks haddressed value⟩, ?_, ?_⟩
  · refine ⟨{ r with value := value }, ?_, hobject, rfl⟩
    apply List.mem_of_getElem?
    rw [List.getElem?_modify_eq, hr]
    rfl
  · intro i r' hr' hother
    have hi : (place s (rowOfTexts s p.toInt index subIndex) p.toInt index subIndex).2 ≠ i := by
      rintro rfl
      rw [hstay _ r' hr'] at hr
      exact hother (by rw [Option.some.inj hr, hobject])
    exact (List.getElem?_modify_ne _ _ hi).trans (hstay i r' hr')

/-! ## Runs -/

theorem inv_initial : Inv initial where
  rows := ⟨by simp [initial], by simp [initial], by simp [initial]⟩
  tracks := ⟨by simp [initial, lastRecorded], by simp [initial, Changed]⟩

theorem step_inv (h : Inv s) {op : Op} (hsafe : Safe s op) : Inv (step s op) := by
  cases op with
  | addCurrent position index subIndex value => exact addCurrentSdoToWatch_inv h position value hsafe
  | addHistory rows => exact foldl_inv_guarded addHistoryRow (I := Inv) (fun _ _ h hs => addHistoryRow_inv h hs) rows h hsafe
  | addBookmarks rows => exact foldl_inv_guarded addBookmarkRow (I := Inv) (fun _ _ h hs => addBookmarkRow_inv h hs) rows h hsafe
  | response position index subIndex value => exact (updateWatchTableFromSdo_inv h position value hsafe).1
  | clear => exact inv_initial

theorem inv_identity (h : Inv s) : Identity s where
  one := h.rows.one
  changed := by
    intro r hr
    rw [counted, decide_eq_true_iff, h.rows.key hr]
    exact h.tracks.changed r.object (h.rows.addressed hr)

end

/-- **The identity of objects in the Watch table**, in a run whose rows are
inserted under addresses in normal form. -/
theorem watch_identity (σ : Nat → Op) (n : Nat) (hsafe : ∀ m < n, Safe (trace step initial σ m) (σ m)) :
    Identity (trace step initial σ n) ∧
      ∀ m < n, ∀ position index subIndex value, σ m = .response position index subIndex value →
        Updates (trace step initial σ m) (trace step initial σ (m + 1)) (objectOf position.toInt index subIndex) value := by
  have hinv : ∀ k ≤ n, Inv (trace step initial σ k) := fun k hk =>
    trace_inv_guarded step initial σ inv_initial (fun _ _ h hs => step_inv h hs) k fun m hm => hsafe m (by omega)
  refine ⟨inv_identity (hinv n (Nat.le_refl n)), fun m hm position index subIndex value hop => ?_⟩
  have hs := hsafe m hm
  rw [hop] at hs
  rw [trace_succ, hop]
  exact (updateWatchTableFromSdo_inv (hinv m (by omega)) position value hs).2

def sampleRun : List Op :=
  [.response 0 "0x6040" "0x00" "0x0006", .addHistory [⟨"0", "0x6040", "0", "0x0007"⟩], .response 0 "0x6040" "0x00" "0x000f"]

theorem canonical_controlWord : Canonical "0x6040" "0x00" :=
  ⟨by decide +kernel, by decide +kernel, by decide +kernel⟩

/-- A control word that is read, taken from the history and read again. -/
theorem watch_identity_sample :
    Identity (trace step initial (sched sampleRun .clear) 3) ∧
      ∀ m < 3, ∀ position index subIndex value,
        sched sampleRun .clear m = .response position index subIndex value →
          Updates (trace step initial (sched sampleRun .clear) m) (trace step initial (sched sampleRun .clear) (m + 1))
            (objectOf position.toInt index subIndex) value := by
  apply watch_identity
  intro m hm
  obtain rfl | rfl | rfl : m = 0 ∨ m = 1 ∨ m = 2 := by omega
  · exact fun _ => canonical_controlWord
  · refine ⟨fun position index subIndex h => ?_, trivial⟩
    have haddress : historyAddress ⟨"0", "0x6040", "0", "0x0007"⟩ = some (0, "0x6040", "0x00") := by decide +kernel
    rw [haddress, Option.some.injEq, Prod.mk.injEq, Prod.mk.injEq] at h
    obtain ⟨rfl, rfl, rfl⟩ := h
    exact ⟨fun _ => canonical_controlWord, fun _ => canonical_controlWord⟩
  · exact fun _ => canonical_controlWord

/-- Two spellings of one address: its object gets two rows. -/
theorem two_rows :
    ¬ ∀ (σ : Nat → Op) (n : Nat), Identity (trace step initial σ n) ∧
      ∀ m < n, ∀ position index subIndex value, σ m = .response position index subIndex value →
        Updates (trace step initial σ m) (trace step initial σ (m + 1)) (objectOf position.toInt index subIndex) value := by
  intro h
  have hone := (h (sched [.response 0 "0x6040" "0x00" "0x0006", .response 0 "6040" "0" "0x0006"] .clear) 2).1.one
  have hrows : (trace step initial (sched [.response 0 "0x6040" "0x00" "0x0006", .response 0 "6040" "0" "0x0006"] .clear)
      2).rows = [⟨"0", "0x6040", "0x00", "0x0006"⟩, ⟨"0", "6040", "0", "0x0006"⟩] := by decide +kernel
  rw [hrows] at hone
  exact absurd hone (by decide +kernel)

/-- A value that changes under an address with capital digits is not counted. -/
theorem unseen_change : ¬ ∀ (σ : Nat → Op) (n : Nat), Identity (trace step initial σ n) := by
  intro h
  have hrun : trace step initial (sched [.response 0 "0x60FF" "0x00" "1", .response 0 "0x60FF" "0x00" "2"] .clear) 2 =
      ⟨[⟨"0", "0x60FF", "0x00", "2"⟩], [("0|0x60ff|0x00", "2")], ["0|0x60ff|0x00"],
        [⟨objectOf 0 "0x60ff" "0x00", "2", true⟩, ⟨objectOf 0 "0x60ff" "0x00", "1", true⟩]⟩ := by decide +kernel
  have hchanged := (h (sched [.response 0 "0x60FF" "0x00" "1", .response 0 "0x60FF" "0x00" "2"] .clear) 2).changed
  rw [hrun] at hchanged
  have hcounted := (hchanged _ List.mem_cons_self).2 (.inl ⟨rfl, by decide +kernel, "1", by decide +kernel, by decide⟩)
  exact absurd hcounted (by decide +kernel)

end NekoEcat.L4.WatchTable
