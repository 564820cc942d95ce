import NekoEcat.L4Gui.ProjectRoundTrip

/-!
# Watch rows against Startup rows

A Watch row is compared with the Startup rows of its object, which are scanned, and a
Startup row with the Watch rows of its object, which are put into a hash first. In both
the last row of a key gives the value.

* `foldl_note`, `value_watchValues`: the row that gives the value.
* `state_eq`: both directions agree.
* `compared`: what the comparison of two tables says.
* `cells_eq`: the comparison that a project file is opened with is this one.
* `unnumbered`: a difference that is counted but not listed.
-/
namespace NekoEcat.L4.WatchStartup
open NekoEcat.QNumber NekoEcat.QString
open NekoEcat.L4.ProjectFile (parsedPosition watchStartupHasTarget watchStartupTargetKey sdoValuesComparableEqual
  normalizeComparableValue trimmed_trimmed)

/-- The fields that are compared. -/
structure WatchRow where
  position : Int := -1
  index : String
  subIndex : String
  value : String
  deriving DecidableEq, Repr

structure StartupRow where
  row : Int := -1
  position : Int := -1
  index : String
  subIndex : String
  value : String
  type : String
  deriving DecidableEq, Repr

inductive WatchStartupDeltaState where
  | noTarget | noStartup | missingWatch | pending | match_ | diff
  deriving DecidableEq, Repr

structure WatchStartupWatchMatch where
  matchingStartupRows : Nat := 0
  expectedValue : String := ""
  expectedType : String := ""
  state : WatchStartupDeltaState := .noStartup
  deriving DecidableEq, Repr

structure WatchStartupStartupDelta where
  startupRow : Int
  watchValue : String := ""
  state : WatchStartupDeltaState
  deriving DecidableEq, Repr

structure WatchStartupSummary where
  matched : Nat := 0
  diff : Nat := 0
  pending : Nat := 0
  missingWatch : Nat := 0
  deriving DecidableEq, Repr

/-- The key of a row that has a target. -/
def targetKey (position : Int) (index subIndex : String) : Option String :=
  if watchStartupHasTarget position index subIndex then some (watchStartupTargetKey position index subIndex) else none

def WatchRow.key (r : WatchRow) : Option String := targetKey r.position r.index r.subIndex

def StartupRow.key (r : StartupRow) : Option String := targetKey r.position r.index r.subIndex

section
variable (t : ProjectFile.Locale)

/-- How a value and an expected value compare. -/
def compareValues (watchValue expectedValue : String) : WatchStartupDeltaState :=
  if trimmed watchValue = "" ∨ trimmed expectedValue = "" then .pending
  else if sdoValuesComparableEqual t watchValue expectedValue then .match_
  else .diff

/-- mirrors apps/ecat-studio/models/WatchStartupModel.cpp:30-38 -/
def noteStartupRow (key : String) (m : WatchStartupWatchMatch) (r : StartupRow) : WatchStartupWatchMatch :=
  if r.key = some key then
    { m with
      matchingStartupRows := m.matchingStartupRows + 1
      expectedValue := trimmed r.value
      expectedType := trimmed r.type }
  else m

/-- mirrors apps/ecat-studio/models/WatchStartupModel.cpp:20-49 -/
def watchStartupMatchForWatchRow (startupRows : List StartupRow) (watchRow : WatchRow) : WatchStartupWatchMatch :=
  match watchRow.key with
  | none => { state := .noTarget }
  | some key =>
    let m := startupRows.foldl (noteStartupRow key) {}
    if m.matchingStartupRows = 0 then m else { m with state := compareValues t watchRow.value m.expectedValue }

/-- mirrors apps/ecat-studio/models/WatchStartupModel.cpp:54-62 -/
def watchValues (watchRows : List WatchRow) : QHash String String :=
  watchRows.foldl (fun h r => match r.key with | none => h | some key => h.insert key (trimmed r.value)) .empty

/-- mirrors apps/ecat-studio/models/WatchStartupModel.cpp:67-89 -/
def startupDelta (values : QHash String String) (r : StartupRow) : WatchStartupStartupDelta :=
  match r.key with
  | none => { startupRow := r.row, state := .noTarget }
  | some key =>
    match values.value key with
    | none => { startupRow := r.row, state := .missingWatch }
    | some watchValue => ⟨r.row, watchValue, compareValues t watchValue r.value⟩

/-- mirrors apps/ecat-studio/models/WatchStartupModel.cpp:52-93 -/
def evaluateStartupWatchDeltas (startupRows : List StartupRow) (watchRows : List WatchRow) : List WatchStartupStartupDelta :=
  startupRows.map (startupDelta t (watchValues watchRows))

end

def tally (s : WatchStartupSummary) (d : WatchStartupStartupDelta) : WatchStartupSummary :=
  match d.state with
  | .match_ => { s with matched := s.matched + 1 }
  | .diff => { s with diff := s.diff + 1 }
  | .missingWatch => { s with missingWatch := s.missingWatch + 1 }
  | .noTarget | .noStartup | .pending => { s with pending := s.pending + 1 }

/-- mirrors apps/ecat-studio/models/WatchStartupModel.cpp:96-117 -/
def summarizeStartupWatchDeltas (deltas : List WatchStartupStartupDelta) : WatchStartupSummary := deltas.foldl tally {}

/-- mirrors apps/ecat-studio/models/WatchStartupModel.cpp:120-130 -/
def startupRowsWithWatchDiffs (deltas : List WatchStartupStartupDelta) : List Int :=
  deltas.filterMap fun d => if d.state = .diff ∧ 0 ≤ d.startupRow then some d.startupRow else none

/-! ## The row that gives the value -/

/-- The last row of the key. -/
def lastWatch (watchRows : List WatchRow) (key : String) : Option WatchRow :=
  (watchRows.filter fun r => decide (r.key = some key)).getLast?

/-- The rows of the key. -/
def startupRowsOf (startupRows : List StartupRow) (key : String) : List StartupRow :=
  startupRows.filter fun r => decide (r.key = some key)

theorem startupRowsOf_append (rows : List StartupRow) (r : StartupRow) (key : String) :
    startupRowsOf (rows ++ [r]) key = startupRowsOf rows key ++ if r.key = some key then [r] else [] := by
  rw [startupRowsOf, List.filter_append, ← startupRowsOf]
  by_cases hkey : r.key = some key <;> simp [hkey]

theorem foldl_note (startupRows : List StartupRow) (key : String) :
    startupRows.foldl (noteStartupRow key) {} =
      match (startupRowsOf startupRows key).getLast? with
      | none => {}
      | some r =>
        { matchingStartupRows := (startupRowsOf startupRows key).length, expectedValue := trimmed r.value,
          expectedType := trimmed r.type } := by
  induction startupRows using List.reverseRecOn with
  | nil => rfl
  | append_singleton rows r ih =>
    rw [List.foldl_append, List.foldl_cons, List.foldl_nil, startupRowsOf_append, noteStartupRow, ih]
    by_cases hkey : r.key = some key
    · rw [if_pos hkey, if_pos hkey, List.getLast?_concat, List.length_append, List.length_singleton]
      cases hlast : (startupRowsOf rows key).getLast? with
      | none =>
        rw [List.getLast?_eq_none_iff.1 hlast]
        rfl
      | some last => rfl
    · rw [if_neg hkey, if_neg hkey, List.append_nil]

theorem value_watchValues (watchRows : List WatchRow) (key : String) :
    (watchValues watchRows).value key = (lastWatch watchRows key).map fun r => trimmed r.value := by
  induction watchRows using List.reverseRecOn with
  | nil => rfl
  | append_singleton rows r ih =>
    rw [watchValues, List.foldl_append, ← watchValues, List.foldl_cons, List.foldl_nil, lastWatch, List.filter_append,
      List.filter_singleton]
    cases hkey : r.key with
    | none => simpa [lastWatch] using ih
    | some key' =>
      by_cases heq : key = key'
      · subst heq
        simp
      · have hne : key' ≠ key := Ne.symm heq
        simpa [heq, hne, lastWatch] using ih

/-! ## Both directions -/

section
variable (t : ProjectFile.Locale)

theorem sdoValuesComparableEqual_trimmed (a b : String) :
    sdoValuesComparableEqual t (trimmed a) b = sdoValuesComparableEqual t a b ∧
      sdoValuesComparableEqual t a (trimmed b) = sdoValuesComparableEqual t a b := by
  constructor <;> simp only [sdoValuesComparableEqual, normalizeComparableValue, trimmed_trimmed]

theorem compareValues_trimmed (a b : String) :
    compareValues t (trimmed a) b = compareValues t a b ∧ compareValues t a (trimmed b) = compareValues t a b := by
  constructor <;>
    simp only [compareValues, trimmed_trimmed, (sdoValuesComparableEqual_trimmed t a b).1,
      (sdoValuesComparableEqual_trimmed t a b).2]

/-- A Watch row is compared with the last Startup row of its key. -/
theorem match_eq {startupRows : List StartupRow} {w : WatchRow} {s : StartupRow} {key : String} (hw : w.key = some key)
    (hs : (startupRowsOf startupRows key).getLast? = some s) :
    watchStartupMatchForWatchRow t startupRows w =
      ⟨(startupRowsOf startupRows key).length, trimmed s.value, trimmed s.type, compareValues t w.value s.value⟩ := by
  have hpos : (startupRowsOf startupRows key).length ≠ 0 := by
    intro hzero
    rw [List.length_eq_zero_iff.1 hzero] at hs
    cases hs
  rw [watchStartupMatchForWatchRow, hw]
  simp only [foldl_note, hs]
  rw [if_neg hpos, (compareValues_trimmed t _ _).2]

/-- A Startup row is compared with the last Watch row of its key. -/
theorem delta_eq {watchRows : List WatchRow} {w : WatchRow} {s : StartupRow} {key : String} (hs : s.key = some key)
    (hw : lastWatch watchRows key = some w) :
    startupDelta t (watchValues watchRows) s = ⟨s.row, trimmed w.value, compareValues t w.value s.value⟩ := by
  rw [startupDelta, hs]
  simp only [value_watchValues, hw, Option.map_some]
  rw [(compareValues_trimmed t _ _).1]

/-- **Both directions agree** on the last rows of a key. -/
theorem state_eq {startupRows : List StartupRow} {watchRows : List WatchRow} {key : String} {w : WatchRow} {s : StartupRow}
    (hw : lastWatch watchRows key = some w) (hs : (startupRowsOf startupRows key).getLast? = some s) :
    (watchStartupMatchForWatchRow t startupRows w).state = (startupDelta t (watchValues watchRows) s).state := by
  have hwkey : w.key = some key := of_decide_eq_true (List.mem_filter.1 (List.mem_of_getLast? hw)).2
  have hskey : s.key = some key := of_decide_eq_true (List.mem_filter.1 (List.mem_of_getLast? hs)).2
  rw [match_eq t hwkey hs, delta_eq t hskey hw]

end

/-! ## The counters -/

def count (deltas : List WatchStartupStartupDelta) (p : WatchStartupDeltaState → Bool) : Nat :=
  (deltas.filter fun d => p d.state).length

/-- Every delta is counted once. -/
theorem summarize_eq (deltas : List WatchStartupStartupDelta) :
    summarizeStartupWatchDeltas deltas =
      { matched := count deltas (· == .match_), diff := count deltas (· == .diff),
        pending := count deltas (fun s => s == .noTarget || s == .noStartup || s == .pending),
        missingWatch := count deltas (· == .missingWatch) } := by
  induction deltas using List.reverseRecOn with
  | nil => rfl
  | append_singleton ds d ih =>
    rw [summarizeStartupWatchDeltas, List.foldl_append, ← summarizeStartupWatchDeltas, ih, List.foldl_cons, List.foldl_nil,
      tally]
    simp only [count, List.filter_append, List.length_append, List.filter_singleton]
    cases d.state <;> rfl

theorem total_eq (deltas : List WatchStartupStartupDelta) :
    count deltas (· == .match_) + count deltas (· == .diff) +
        count deltas (fun s => s == .noTarget || s == .noStartup || s == .pending) + count deltas (· == .missingWatch) =
      deltas.length := by
  induction deltas with
  | nil => rfl
  | cons d ds ih =>
    simp only [count, List.filter_cons, List.length_cons] at ih ⊢
    cases d.state <;> simp <;> omega

/-- The rows with a difference, by the numbers they have. -/
theorem diffs_eq (deltas : List WatchStartupStartupDelta) :
    startupRowsWithWatchDiffs deltas =
      ((deltas.filter fun d => d.state == .diff).map fun d => d.startupRow).filter fun row => decide (0 ≤ row) := by
  induction deltas with
  | nil => rfl
  | cons d ds ih =>
    rw [startupRowsWithWatchDiffs, List.filterMap_cons, ← startupRowsWithWatchDiffs, ih, List.filter_cons]
    by_cases hstate : d.state = .diff
    · by_cases hrow : 0 ≤ d.startupRow
      · simp [hstate, hrow]
      · simp [hstate, hrow]
    · simp [hstate]

/-! ## Two tables -/

/-- What the comparison of a Startup table and a Watch table says. -/
structure Compared (t : ProjectFile.Locale) (startupRows : List StartupRow) (watchRows : List WatchRow) : Prop where
  agree : ∀ (key : String) (w : WatchRow) (j : Nat) (s : StartupRow), lastWatch watchRows key = some w →
    startupRows[j]? = some s → s.key = some key → (∀ k s', j < k → startupRows[k]? = some s' → s'.key ≠ some key) →
    ∃ d, (evaluateStartupWatchDeltas t startupRows watchRows)[j]? = some d ∧
      (watchStartupMatchForWatchRow t startupRows w).state = d.state
  order : (evaluateStartupWatchDeltas t startupRows watchRows).map WatchStartupStartupDelta.startupRow =
    startupRows.map StartupRow.row
  total : ∃ matched diff pending missingWatch : Nat,
    summarizeStartupWatchDeltas (evaluateStartupWatchDeltas t startupRows watchRows) =
      ⟨matched, diff, pending, missingWatch⟩ ∧
    matched + diff + pending + missingWatch = startupRows.length ∧
    diff = ((evaluateStartupWatchDeltas t startupRows watchRows).filter fun d => d.state == .diff).length
  listed : startupRowsWithWatchDiffs (evaluateStartupWatchDeltas t startupRows watchRows) =
    (((evaluateStartupWatchDeltas t startupRows watchRows).filter fun d => d.state == .diff).map
      fun d => d.startupRow).filter fun row => decide (0 ≤ row)

theorem getLast?_filter {α : Type} {l : List α} {p : α → Bool} {j : Nat} {a : α} (hj : l[j]? = some a) (hp : p a = true)
    (hlast : ∀ k b, j < k → l[k]? = some b → p b = false) : (l.filter p).getLast? = some a := by
  have hlt := (List.getElem?_eq_some_iff.1 hj).1
  have hsplit : l = l.take j ++ a :: l.drop (j + 1) := by
    rw [← (List.getElem?_eq_some_iff.1 hj).2, ← List.drop_eq_getElem_cons hlt, List.take_append_drop]
  have hrest : (l.drop (j + 1)).filter p = [] := by
    refine List.filter_eq_nil_iff.2 fun b hb => ?_
    obtain ⟨k, hk⟩ := List.getElem?_of_mem hb
    rw [List.getElem?_drop] at hk
    rw [hlast _ b (by omega) hk]
    exact Bool.false_ne_true
  rw [hsplit, List.filter_append, List.filter_cons, if_pos hp, hrest, List.getLast?_concat]

/-- **Two tables are compared** alike in both directions, row by row, and the counters
count each row once; the list has the rows with a difference whose number is not
negative. -/
theorem compared (t : ProjectFile.Locale) (startupRows : List StartupRow) (watchRows : List WatchRow) :
    Compared t startupRows watchRows := by
  refine ⟨fun key w j s hw hj hkey hlast => ?_, ?_, ⟨_, _, _, _, summarize_eq _, ?_, rfl⟩, diffs_eq _⟩
  · have hs : (startupRowsOf startupRows key).getLast? = some s :=
      getLast?_filter hj (decide_eq_true hkey) fun k s' hk hs' => decide_eq_false (hlast k s' hk hs')
    refine ⟨_, ?_, state_eq t hw hs⟩
    rw [evaluateStartupWatchDeltas, List.getElem?_map, hj, Option.map_some]
  · rw [evaluateStartupWatchDeltas, List.map_map]
    refine List.map_congr_left fun r _ => ?_
    rw [Function.comp_apply, startupDelta]
    split
    · rfl
    · split <;> rfl
  · rw [total_eq, evaluateStartupWatchDeltas, List.length_map]

/-- A difference of a row that has no number is counted and not listed. -/
theorem unnumbered :
    ¬∀ (t : ProjectFile.Locale) (startupRows : List StartupRow) (watchRows : List WatchRow),
      (startupRowsWithWatchDiffs (evaluateStartupWatchDeltas t startupRows watchRows)).length =
        (summarizeStartupWatchDeltas (evaluateStartupWatchDeltas t startupRows watchRows)).diff := by
  intro hlisted
  have hlength := hlisted ProjectFile.english [⟨-1, 0, "0x6060", "0", "1", "u8"⟩] [⟨0, "0x6060", "0", "2"⟩]
  revert hlength
  decide +kernel

/-! ## Cells -/

/-- mirrors apps/ecat-studio/adapters/WatchStartupTableAdapter.cpp:22-46 -/
def watchRowOf (r : ProjectFile.WatchRow) : WatchRow :=
  ⟨parsedPosition r.position, trimmed r.index, trimmed r.subIndex, trimmed r.value⟩

def startupRowOf (row : Int) (r : ProjectFile.StartupRow) : StartupRow :=
  ⟨row, parsedPosition r.position, trimmed r.index, trimmed r.subIndex, trimmed r.value, trimmed r.type⟩

def stateOf : ProjectFile.WatchStartupDeltaState → WatchStartupDeltaState
  | .noTarget => .noTarget
  | .noStartup => .noStartup
  | .pending => .pending
  | .match_ => .match_
  | .diff => .diff

theorem targetKey_eq_some {position : Int} {index subIndex key : String} :
    targetKey position index subIndex = some key ↔
      (watchStartupHasTarget position index subIndex && watchStartupTargetKey position index subIndex == key) = true := by
  unfold targetKey
  cases watchStartupHasTarget position index subIndex <;> simp

theorem key_startupRowOf (row : Int) (s : ProjectFile.StartupRow) :
    (startupRowOf row s).key = targetKey (parsedPosition s.position) (trimmed s.index) (trimmed s.subIndex) := by
  simp only [StartupRow.key, startupRowOf]

theorem key_watchRowOf (r : ProjectFile.WatchRow) :
    (watchRowOf r).key = targetKey (parsedPosition r.position) (trimmed r.index) (trimmed r.subIndex) := by
  simp only [WatchRow.key, watchRowOf]

theorem startupRowsOf_cells (row : Int) (startup : List ProjectFile.StartupRow) (key : String) :
    startupRowsOf (startup.map (startupRowOf row)) key =
      (startup.filter fun s => watchStartupHasTarget (parsedPosition s.position) (trimmed s.index) (trimmed s.subIndex) &&
        watchStartupTargetKey (parsedPosition s.position) (trimmed s.index) (trimmed s.subIndex) == key).map
          (startupRowOf row) := by
  have hrows : ((fun r => decide (r.key = some key)) ∘ startupRowOf row) = fun s : ProjectFile.StartupRow =>
      watchStartupHasTarget (parsedPosition s.position) (trimmed s.index) (trimmed s.subIndex) &&
        watchStartupTargetKey (parsedPosition s.position) (trimmed s.index) (trimmed s.subIndex) == key := by
    funext s
    rw [Function.comp_apply, Bool.eq_iff_iff, decide_eq_true_eq, key_startupRowOf, targetKey_eq_some]
  rw [startupRowsOf, List.filter_map, hrows]

/-- **A project file** is opened with this comparison of the cells. -/
theorem cells_eq (t : ProjectFile.Locale) (row : Int) (startup : List ProjectFile.StartupRow) (r : ProjectFile.WatchRow) :
    (watchStartupMatchForWatchRow t (startup.map (startupRowOf row)) (watchRowOf r)).state =
      stateOf (ProjectFile.watchStartupMatchForWatchRow t startup r).state := by
  rw [watchStartupMatchForWatchRow, ProjectFile.watchStartupMatchForWatchRow, key_watchRowOf, targetKey]
  generalize parsedPosition r.position = position
  generalize hkey : watchStartupTargetKey position (trimmed r.index) (trimmed r.subIndex) = key
  cases watchStartupHasTarget position (trimmed r.index) (trimmed r.subIndex) with
  | false => rfl
  | true =>
    simp only [if_true, foldl_note, startupRowsOf_cells, List.getLast?_map, List.length_map]
    generalize hrows : (startup.filter fun s =>
      watchStartupHasTarget (parsedPosition s.position) (trimmed s.index) (trimmed s.subIndex) &&
        watchStartupTargetKey (parsedPosition s.position) (trimmed s.index) (trimmed s.subIndex) == key) = found
    cases hlast : found.getLast? with
    | none => rfl
    | some s =>
      have hpos : found.length ≠ 0 := by
        intro hzero
        rw [List.length_eq_zero_iff.1 hzero] at hlast
        cases hlast
      simp only [Option.map_some, if_neg hpos, startupRowOf, watchRowOf, compareValues, trimmed_trimmed]
      rw [apply_ite stateOf, apply_ite stateOf]
      rfl

end NekoEcat.L4.WatchStartup
