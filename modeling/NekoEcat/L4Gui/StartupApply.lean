import Mathlib.Data.List.Perm.Subperm
import NekoEcat.L2Daemon.CliAnswers
import NekoEcat.L4Gui.Rpc
import NekoEcat.L4Gui.SdoValidation

/-!
# Applying Startup SDOs

The table sends the rows it is given as items that carry their row number. The
daemon applies them one after the other and numbers them itself, from 0 on; it
does not look at the number in the item. The table takes the number in an answer
for a row of its own.

The translation of a text and the reading of floating-point numbers are
parameters, as they are of the validation. A status cell that is written here
holds one of four texts, each the same in no two of them.

* `sent_iff`: what is sent, and what the table shows meanwhile.
* `results_eq`: what the daemon answers.
* `shown_at`: where the answer is shown.
* `applied_iff`: whose rows are shown their own results.
* `wrong_row`: a write to row 1 that is shown in row 0.
-/
namespace NekoEcat.L4.StartupApply
open NekoEcat.Commands NekoEcat.QJson NekoEcat.QString NekoEcat.QNumber NekoEcat.L4.SdoValidation
open NekoEcat.L2.CliBackend (Line Outcome RunResult finished)
open NekoEcat.L2.Handlers (applyStartupSdos applyItem Applying itemFailure itemResult downloadLine requestedMaster subIndexText)
open NekoEcat.L2.FoE (success)
open NekoEcat.L4.EcatClient (Rpc)

/-- The text of a status cell. -/
inductive Status where
  | validationError
  | applying
  | applied
  | failed
  | other (text : String)
  deriving DecidableEq, Repr

structure Row where
  position : String
  index : String
  subIndex : String
  value : String
  type : String
  status : Status
  detail : String
  deriving DecidableEq, Repr

abbrev Table := List Row

def Row.set (r : Row) (status : Status) (detail : String) : Row := { r with status := status, detail := detail }

def setStatus (t : Table) (row : Nat) (status : Status) (detail : String) : Table :=
  t.modify row fun r => r.set status detail

section
variable (uiText : String → String) (isDouble : List Char → Bool)

def positionOf (r : Row) : Option Int := (toInt 10 (trimmed r.position).toList).filter fun n => decide (0 ≤ n)

def rowErrors (r : Row) : List String :=
  (if positionOf r = none then [uiText "invalid slave position"] else []) ++
    (validate uiText isDouble (trimmed r.index).toList (trimmed r.subIndex).toList (trimmed r.value).toList
      (trimmed r.type).toList).errors

/-- The item of a row. -/
def item (row : Nat) (r : Row) : QJsonValue :=
  .object (ofList [("row", .int row), ("position", .int ((positionOf r).getD 0)), ("index", .string (trimmed r.index)),
    ("subIndex", .string (trimmed r.subIndex)), ("value", .string (trimmed r.value)), ("type", .string (trimmed r.type))])

/-- The table, the items and the rows they are made from, and the errors. -/
structure Collected where
  table : Table
  items : List QJsonValue := []
  validRows : List Nat := []
  validationErrors : List String := []

/-- The checks of one row. -/
def Collected.add (s : Collected) (row : Int) : Collected :=
  match if row < 0 then none else s.table[row.toNat]? with
  | none => s
  | some r =>
    let errors := rowErrors uiText isDouble r
    if errors ≠ [] then
      { s with
        table := setStatus s.table row.toNat .validationError ("; ".intercalate errors)
        validationErrors := s.validationErrors ++
          [arg (arg (uiText "Row %1: %2") (number (row + 1))) ("; ".intercalate errors)] }
    else { s with items := s.items ++ [item row.toNat r], validRows := s.validRows ++ [row.toNat] }

/-- The table, and the items that are sent.
mirrors apps/ecat-studio/workspaces/MainWindowStartupSdoWorkspace.cpp:761-894 -/
def applyStartupSdoRows (isConnected confirmed : Bool) (rows : List Int) (t : Table) : Table × Option (List QJsonValue) :=
  if !isConnected || rows.isEmpty then (t, none)
  else
    let s := rows.foldl (Collected.add uiText isDouble) { table := t }
    if s.validationErrors ≠ [] ∨ s.items = [] ∨ !confirmed then (s.table, none)
    else (s.validRows.foldl (fun t row => setStatus t row .applying "") s.table, some s.items)

end

/-- One result.
mirrors apps/ecat-studio/workspaces/MainWindowWiring.cpp:847-873 -/
def showResult (t : Table) (value : QJsonValue) : Table :=
  let object := toObject value
  let row := toIntD (QJson.value object "row") (-1)
  if row < 0 ∨ row ≥ t.length then t
  else if QJson.toBool (QJson.value object "ok") then setStatus t row.toNat .applied ""
  else setStatus t row.toNat .failed (toStringD (QJson.value object "error") "")

/-- mirrors apps/ecat-studio/workspaces/MainWindowWiring.cpp:845-877 -/
def startupSdoResults (t : Table) (results : List QJsonValue) : Table := results.foldl showResult t

/-! ## The round -/

/-- The parameters of the request. -/
def requestParams (master : String) (items : List QJsonValue) : QJsonObject :=
  insert "master" (.string master) (Rpc.applyStartupSdos items).params

/-- The `startupSdoResults` of the daemon's answer. -/
def answered (env : List Line → Line → Outcome) (h : List Line) (id master : String) (items : List QJsonValue) :
    List QJsonValue :=
  let response := ((applyStartupSdos id (requestParams master items)).run env h).1
  toArray (value (toObject (value response "result")) "results")

/-- How the downloads of the items end. -/
def ended (env : List Line → Line → Outcome) (h : List Line) (master : String) (items : List QJsonValue) : List Outcome :=
  Prog.answers env h (items.map fun v => downloadLine (trimmed master) (toObject v) (subIndexText (toObject v)))

/-- What a row is to show of its download. -/
def shown (o : Outcome) : Status × String :=
  if (finished o).exitCode = 0 then (.applied, "") else (.failed, (finished o).stdErr)

def Row.shows (r : Row) (s : Status × String) : Prop := r.status = s.1 ∧ r.detail = s.2

/-! ## What is sent -/

section
variable {t : Table}

theorem getElem?_setStatus (row j : Nat) (status : Status) (detail : String) :
    (setStatus t row status detail)[j]? = if row = j then t[j]?.map (·.set status detail) else t[j]? := by
  simp [setStatus, List.getElem?_modify]
  split <;> simp

theorem getElem?_applying (rows : List Nat) (t : Table) (j : Nat) :
    (rows.foldl (fun t row => setStatus t row .applying "") t)[j]? =
      if j ∈ rows then t[j]?.map (·.set .applying "") else t[j]? := by
  induction rows generalizing t with
  | nil => simp
  | cons row rows ih =>
    rw [List.foldl_cons, ih, getElem?_setStatus]
    by_cases hrow : row = j
    · subst hrow
      by_cases hmem : row ∈ rows
      · simp [hmem, Function.comp_def, Row.set]
      · simp [hmem]
    · have hne : j ≠ row := Ne.symm hrow
      simp [hrow, hne]

end

/-- The rows that exist. -/
def valid (t : Table) (rows : List Int) : List Nat :=
  (rows.filter fun row : Int => decide (0 ≤ row ∧ row < t.length)).map Int.toNat

def itemsOf (t : Table) (rows : List Nat) : List QJsonValue := rows.filterMap fun row => t[row]?.map (item row)

theorem mem_valid {t : Table} {rows : List Int} {row : Nat} (h : row ∈ valid t rows) : row < t.length := by
  obtain ⟨r, hr, rfl⟩ := List.mem_map.1 h
  have := of_decide_eq_true (List.mem_filter.1 hr).2
  omega

theorem valid_nodup {t : Table} {rows : List Int} (h : rows.Nodup) : (valid t rows).Nodup := by
  refine (h.filter _).map_on ?_
  intro a ha b hb he
  have hpos := of_decide_eq_true (List.mem_filter.1 ha).2
  have hpos' := of_decide_eq_true (List.mem_filter.1 hb).2
  omega

theorem itemsOf_length {t : Table} {rows : List Nat} (h : ∀ row ∈ rows, row < t.length) :
    (itemsOf t rows).length = rows.length := by
  induction rows with
  | nil => rfl
  | cons row rows ih =>
    have hrow : row < t.length := h row List.mem_cons_self
    simp only [itemsOf, List.filterMap_cons, List.getElem?_eq_getElem hrow, Option.map_some, List.length_cons] at ih ⊢
    rw [ih fun r hr => h r (List.mem_cons_of_mem row hr)]

section
variable {uiText : String → String} {isDouble : List Char → Bool}

/-- A row without errors is collected, one with errors blocks the rest. -/
theorem add_ok {s : Collected} {row : Int} (h : (s.add uiText isDouble row).validationErrors = []) :
    s.validationErrors = [] ∧ (s.add uiText isDouble row).table = s.table ∧
      (s.add uiText isDouble row).validRows = s.validRows ++ valid s.table [row] ∧
      (s.add uiText isDouble row).items = s.items ++ itemsOf s.table (valid s.table [row]) := by
  unfold Collected.add at h ⊢
  split at h
  · rename_i hnone
    have hvalid : valid s.table [row] = [] := by
      simp only [valid, List.map_eq_nil_iff, List.filter_eq_nil_iff, List.mem_singleton, forall_eq, decide_eq_true_eq]
      rintro ⟨hpos, hlt⟩
      rw [if_neg (by omega), List.getElem?_eq_none_iff] at hnone
      omega
    simp [h, hvalid, itemsOf]
  · rename_i r hsome
    simp only at h ⊢
    have hpos : ¬ row < 0 := fun hneg => by rw [if_pos hneg] at hsome; cases hsome
    rw [if_neg hpos] at hsome
    have hlt := (List.getElem?_eq_some_iff.1 hsome).1
    have hvalid : valid s.table [row] = [row.toNat] := by
      have hin : 0 ≤ row ∧ row < s.table.length := by omega
      simp [valid, hin]
    split at h
    · simp at h
    · rename_i herrors
      rw [if_neg herrors]
      exact ⟨h, rfl, by rw [hvalid], by simp [hvalid, itemsOf, hsome]⟩

theorem collect_ok {rows : List Int} {s : Collected}
    (h : (rows.foldl (Collected.add uiText isDouble) s).validationErrors = []) :
    s.validationErrors = [] ∧ (rows.foldl (Collected.add uiText isDouble) s).table = s.table ∧
      (rows.foldl (Collected.add uiText isDouble) s).validRows = s.validRows ++ valid s.table rows ∧
      (rows.foldl (Collected.add uiText isDouble) s).items = s.items ++ itemsOf s.table (valid s.table rows) := by
  induction rows generalizing s with
  | nil => simpa [valid, itemsOf] using h
  | cons row rows ih =>
    rw [List.foldl_cons] at h ⊢
    obtain ⟨herrors, htable, hrows, hitems⟩ := ih h
    obtain ⟨herrors', htable', hrows', hitems'⟩ := add_ok herrors
    have hcons : valid s.table (row :: rows) = valid s.table [row] ++ valid s.table rows := by
      rw [← List.singleton_append, valid, List.filter_append, List.map_append]
      rfl
    refine ⟨herrors', htable.trans htable', ?_, ?_⟩
    · rw [hrows, hrows', htable', hcons, List.append_assoc]
    · rw [hitems, hitems', htable', hcons, List.append_assoc, itemsOf, itemsOf, itemsOf, List.filterMap_append]

/-- **What is sent, and shown until the answer comes.** -/
theorem sent_eq {isConnected confirmed : Bool} {rows : List Int} {t t' : Table} {items : List QJsonValue}
    (h : applyStartupSdoRows uiText isDouble isConnected confirmed rows t = (t', some items)) :
    items = itemsOf t (valid t rows) ∧ t' = (valid t rows).foldl (fun t row => setStatus t row .applying "") t := by
  unfold applyStartupSdoRows at h
  split at h
  · cases h
  · simp only at h
    split at h
    · cases h
    · rename_i hsent
      have hok : (rows.foldl (Collected.add uiText isDouble) { table := t }).validationErrors = [] := by
        by_contra hne
        exact hsent (.inl hne)
      obtain ⟨-, htable, hrows, hitems⟩ := collect_ok hok
      cases h
      simp only [List.nil_append] at hrows hitems
      exact ⟨hitems, by rw [htable, hrows]⟩

end

/-! ## What is answered -/

def entry (row : Int) (value : QJsonValue) (o : Outcome) : QJsonObject :=
  itemResult row (toObject value) ((finished o).exitCode == 0) ((finished o).commandError.getD "")

/-- The results, in the order of the items. -/
def entries : Int → List (QJsonValue × Outcome) → List QJsonValue
  | _, [] => []
  | row, z :: zs => .object (entry row z.1 z.2) :: entries (row + 1) zs

theorem results_fold (zs : List (QJsonValue × Outcome)) (s : Applying) :
    (zs.foldl (fun s z => s.add (toObject z.1) ((finished z.2).exitCode == 0) ((finished z.2).commandError.getD "")) s).results =
      s.results ++ entries s.row zs := by
  induction zs generalizing s with
  | nil => simp [entries]
  | cons z zs ih =>
    rw [List.foldl_cons, ih]
    simp [Applying.add, entries, entry]

section
variable (env : List Line → Line → Outcome) (h : List Line) (id master : String) (items : List QJsonValue)

/-- **The daemon numbers the items itself.** -/
theorem results_eq : answered env h id master items = entries 0 (items.zip (ended env h master items)) := by
  have hmaster : requestedMaster (requestParams master items) = trimmed master := by
    simp [requestedMaster, requestParams, value_insert, toStringD]
  have hitems : toArray (value (requestParams master items) "items") = items := by
    simp [requestParams, Rpc.params, ofList, value_insert, toArray]
  have hone : ∀ (s : Applying) (v : QJsonValue), applyItem (trimmed master) s v =
      .call (downloadLine (trimmed master) (toObject v) (subIndexText (toObject v))) fun o =>
        .done (s.add (toObject v) ((finished o).exitCode == 0) ((finished o).commandError.getD "")) := fun _ _ => rfl
  have hloop := Prog.result_each env h hone {} items
  have hresults := results_fold (items.zip (ended env h master items)) {}
  unfold answered applyStartupSdos
  simp only
  rw [Prog.bind_eq, Prog.run_bind, hmaster, hitems, hloop]
  simp only [Prog.pure_eq, Prog.run_done, success, ofList, List.foldl_cons, List.foldl_nil, value_insert, toObject,
    toArray]
  exact hresults

end

/-! ## Where the answer is shown -/

/-- One result is shown in the row of its number. -/
theorem showResult_entry (t : Table) (row : Nat) (hrow : row < 2 ^ 31) (v : QJsonValue) (o : Outcome) :
    showResult t (.object (entry row v o)) = setStatus t row (shown o).1 (shown o).2 := by
  have hnumber : toIntD (.int row) (-1) = row := by
    have hrange : -2 ^ 31 ≤ (row : Int) ∧ (row : Int) < 2 ^ 31 := by omega
    simp only [toIntD]
    rw [if_pos hrange]
  have hbeyond : ∀ (status : Status) (detail : String), ¬ row < t.length → setStatus t row status detail = t := by
    intro status detail hlen
    exact List.modify_eq_self (by omega)
  have hin : ((row : Int) < 0 ∨ (row : Int) ≥ t.length) ↔ ¬ row < t.length := by omega
  unfold showResult entry itemResult itemFailure shown
  by_cases hok : (finished o).exitCode = 0
  · simp only [toObject, hok, beq_self_eq_true, if_true, ofList, List.foldl_cons, List.foldl_nil, value_insert]
    simp only [String.reduceEq, if_false, if_true, hnumber, hin, QJson.toBool]
    split
    · rename_i hlen
      exact (hbeyond _ _ hlen).symm
    · rfl
  · have hb : ((finished o).exitCode == 0) = false := beq_eq_false_iff_ne.2 hok
    have herror : (finished o).commandError.getD "" = (finished o).stdErr := by
      simp [RunResult.commandError, hok]
    simp only [toObject, hb, Bool.false_eq_true, if_false, if_neg hok, herror, ofList, List.foldl_cons, List.foldl_nil,
      value_insert]
    simp only [String.reduceEq, if_false, if_true, hnumber, hin, QJson.toBool, toStringD]
    split
    · rename_i hlen
      exact (hbeyond _ _ hlen).symm
    · rfl

/-- **The results are shown in the first rows**, one after the other. -/
theorem shown_at (zs : List (QJsonValue × Outcome)) {t : Table} {row : Nat} (hlen : row + zs.length ≤ 2 ^ 31) (j : Nat) :
    (startupSdoResults t (entries row zs))[j]? =
      match if row ≤ j then zs[j - row]? else none with
      | some z => t[j]?.map (·.set (shown z.2).1 (shown z.2).2)
      | none => t[j]? := by
  induction zs generalizing t row with
  | nil => simp [startupSdoResults, entries]
  | cons z zs ih =>
    simp only [List.length_cons] at hlen
    have hcast : ((row : Int) + 1) = ((row + 1 : Nat) : Int) := by omega
    rw [entries, startupSdoResults, List.foldl_cons, showResult_entry t row (by omega), hcast]
    refine (ih (by omega)).trans ?_
    rw [getElem?_setStatus]
    by_cases heq : row = j
    · subst heq
      simp
    · by_cases hle : row ≤ j
      · obtain ⟨k, rfl⟩ : ∃ k, j = row + 1 + k := ⟨j - row - 1, by omega⟩
        have hk : row + 1 + k - (row + 1) = k := by omega
        have hk' : row + 1 + k - row = k + 1 := by omega
        rw [if_pos (by omega), if_pos hle, if_neg heq, hk, hk', List.getElem?_cons_succ]
      · rw [if_neg (by omega), if_neg hle, if_neg heq]

/-- As many distinct numbers below that as there are: all of them. -/
theorem perm_range {rows : List Nat} (hnodup : rows.Nodup) (hbelow : ∀ row ∈ rows, row < rows.length) :
    rows.Perm (List.range rows.length) := by
  refine (List.subperm_of_subset hnodup fun row hrow => ?_).perm_of_length_le (by simp)
  exact List.mem_range.2 (hbelow row hrow)

/-- Every applied row shows its own result, and no other row changed its status. -/
structure ShowsOwn (t final : Table) (rows : List Nat) (outcomes : List Outcome) : Prop where
  own : ∀ (k row : Nat) (o : Outcome), rows[k]? = some row → outcomes[k]? = some o →
    ∃ r, final[row]? = some r ∧ r.shows (shown o)
  others : ∀ j ∉ rows, final[j]?.map Row.status = t[j]?.map Row.status

section
variable {uiText : String → String} {isDouble : List Char → Bool} {isConnected confirmed : Bool} {rows : List Int}
  {t t' : Table} {items : List QJsonValue} (env : List Line → Line → Outcome) (h : List Line) (id master : String)

theorem ended_length : (ended env h master items).length = items.length := by simp [ended]

theorem final_at (hlen : items.length ≤ 2 ^ 31) (j : Nat) :
    (startupSdoResults t' (answered env h id master items))[j]? =
      match (ended env h master items)[j]? with
      | some o => t'[j]?.map (·.set (shown o).1 (shown o).2)
      | none => t'[j]? := by
  have hsnd : (items.zip (ended env h master items)).map Prod.snd = ended env h master items :=
    List.map_snd_zip (by rw [ended_length])
  have hzip : (items.zip (ended env h master items)).length ≤ 2 ^ 31 := by
    rw [List.length_zip]
    omega
  have hget : (ended env h master items)[j]? = ((items.zip (ended env h master items))[j]?).map Prod.snd := by
    rw [← List.getElem?_map, hsnd]
  have hshown := @shown_at (items.zip (ended env h master items)) t' 0 (by omega) j
  rw [if_pos (Nat.zero_le j), Nat.sub_zero, Nat.cast_zero, ← results_eq env h id] at hshown
  rw [hshown, hget]
  cases (items.zip (ended env h master items))[j]? with
  | none => rfl
  | some z => rfl

theorem count_eq (hsent : applyStartupSdoRows uiText isDouble isConnected confirmed rows t = (t', some items)) :
    (ended env h master items).length = (valid t rows).length := by
  rw [ended_length, (sent_eq hsent).1, itemsOf_length fun row hrow => mem_valid hrow]

/-- Every applied row has the number of an item. -/
theorem rows_below {rows : List Nat} {outcomes : List Outcome} (hlen : outcomes.length = rows.length)
    (hsame : ∀ (k row : Nat) (o : Outcome), rows[k]? = some row → outcomes[k]? = some o →
      ∃ o', outcomes[row]? = some o' ∧ shown o' = shown o) : ∀ row ∈ rows, row < rows.length := by
  intro row hrow
  obtain ⟨k, hk⟩ := List.mem_iff_getElem?.1 hrow
  have hkn : k < outcomes.length := by
    rw [hlen]
    exact (List.getElem?_eq_some_iff.1 hk).1
  obtain ⟨o', hrow', -⟩ := hsame k row _ hk (List.getElem?_eq_getElem hkn)
  rw [← hlen]
  exact (List.getElem?_eq_some_iff.1 hrow').1

/-- **Every applied row shows its own result exactly if**, for each of them, the
download of the item at its row number ended like its own. -/
theorem applied_iff (hlen : t.length ≤ 2 ^ 31) (hnodup : rows.Nodup)
    (hsent : applyStartupSdoRows uiText isDouble isConnected confirmed rows t = (t', some items)) :
    ShowsOwn t (startupSdoResults t' (answered env h id master items)) (valid t rows) (ended env h master items) ↔
      ∀ (k row : Nat) (o : Outcome), (valid t rows)[k]? = some row → (ended env h master items)[k]? = some o →
        ∃ o', (ended env h master items)[row]? = some o' ∧ shown o' = shown o := by
  obtain ⟨hitems, ht'⟩ := sent_eq hsent
  have hin : ∀ row ∈ valid t rows, row < t.length := fun row hrow => mem_valid hrow
  have hle : (valid t rows).length ≤ t.length := by
    have hsub : valid t rows ⊆ List.range t.length := fun row hrow => List.mem_range.2 (hin row hrow)
    simpa using (List.subperm_of_subset (valid_nodup hnodup) hsub).length_le
  have hfinal := @final_at t' items env h id master (by rw [hitems, itemsOf_length hin]; omega)
  have hmeanwhile : ∀ j, t'[j]? = if j ∈ valid t rows then t[j]?.map (·.set .applying "") else t[j]? := by
    intro j
    rw [ht', getElem?_applying]
  constructor
  · intro hown k row o hk ho
    have hmem : row ∈ valid t rows := List.mem_of_getElem? hk
    obtain ⟨r, hr, hshows⟩ := hown.own k row o hk ho
    rw [hfinal] at hr
    cases hrow : (ended env h master items)[row]? with
    | none =>
      -- the row still waits for its result
      rw [hrow, hmeanwhile, if_pos hmem, List.getElem?_eq_getElem (hin row hmem)] at hr
      cases hr
      have hstatus := hshows.1
      unfold shown at hstatus
      split at hstatus <;> cases hstatus
    | some o' =>
      rw [hrow, hmeanwhile, if_pos hmem, List.getElem?_eq_getElem (hin row hmem)] at hr
      cases hr
      exact ⟨o', rfl, Prod.ext hshows.1 hshows.2⟩
  · intro hsame
    constructor
    · intro k row o hk ho
      have hmem : row ∈ valid t rows := List.mem_of_getElem? hk
      obtain ⟨o', hrow, heq⟩ := hsame k row o hk ho
      rw [hfinal, hrow, hmeanwhile, if_pos hmem, List.getElem?_eq_getElem (hin row hmem)]
      exact ⟨_, rfl, by rw [← heq]; exact ⟨rfl, rfl⟩⟩
    · intro j hj
      have hperm := perm_range (valid_nodup hnodup) (rows_below (count_eq env h master hsent) hsame)
      have hout : (ended env h master items)[j]? = none := by
        refine List.getElem?_eq_none ?_
        rw [count_eq env h master hsent]
        by_contra hlt
        exact hj (hperm.mem_iff.2 (List.mem_range.2 (by omega)))
      rw [hfinal, hout, hmeanwhile, if_neg hj]

/-- A table selects its rows in ascending order: then they have to be the first ones. -/
theorem selected_iff (hlen : t.length ≤ 2 ^ 31) (hasc : rows.Pairwise (· < ·))
    (hsent : applyStartupSdoRows uiText isDouble isConnected confirmed rows t = (t', some items)) :
    ShowsOwn t (startupSdoResults t' (answered env h id master items)) (valid t rows) (ended env h master items) ↔
      valid t rows = List.range (valid t rows).length := by
  have hnodup : rows.Nodup := hasc.imp fun hlt => by omega
  refine (applied_iff env h id master hlen hnodup hsent).trans ?_
  constructor
  · intro hsame
    have hperm := perm_range (valid_nodup hnodup) (rows_below (count_eq env h master hsent) hsame)
    have hsorted : (valid t rows).Pairwise (· < ·) := by
      refine List.pairwise_map.2 ((hasc.filter _).imp_of_mem fun ha _ hlt => ?_)
      have := of_decide_eq_true (List.mem_filter.1 ha).2
      omega
    refine hperm.eq_of_pairwise (fun a b _ _ hab hba => ?_) hsorted List.pairwise_lt_range
    omega
  · intro hrange k row o hk ho
    rw [hrange] at hk
    obtain ⟨hlt, rfl⟩ := List.getElem?_eq_some_iff.1 hk
    rw [List.getElem_range]
    exact ⟨o, ho, rfl⟩

end

def profile (position : String) : Row := ⟨position, "0x6060", "0", "8", "uint8", .other "", ""⟩

/-- Two slaves. -/
def twoRows : Table := [profile "0", profile "1"]

/-- What is sent of a table whose rows all pass. -/
def sentRows (rows : List Int) : Table × Option (List QJsonValue) :=
  applyStartupSdoRows (fun text => text) (fun _ => true) true true rows twoRows

/-- The second slave does not answer, and the first row is shown to have failed. -/
theorem wrong_row :
    ¬ ShowsOwn twoRows
      (startupSdoResults (sentRows [1]).1
        (answered (fun _ _ => .exited 1 "" "No such slave") [] "7" "0" ((sentRows [1]).2.getD [])))
      (valid twoRows [1]) (ended (fun _ _ => .exited 1 "" "No such slave") [] "0" ((sentRows [1]).2.getD [])) := by
  intro hown
  have hfirst := hown.others 0 (by decide)
  exact absurd hfirst (by decide +kernel)

theorem applied_first :
    ShowsOwn twoRows
        (startupSdoResults (sentRows [0]).1
          (answered (fun _ _ => .exited 0 "" "") [] "7" "0" ((sentRows [0]).2.getD [])))
        (valid twoRows [0]) (ended (fun _ _ => .exited 0 "" "") [] "0" ((sentRows [0]).2.getD [])) ↔
      ∀ (k row : Nat) (o : Outcome), (valid twoRows [0])[k]? = some row →
        (ended (fun _ _ => .exited 0 "" "") [] "0" ((sentRows [0]).2.getD []))[k]? = some o →
        ∃ o', (ended (fun _ _ => .exited 0 "" "") [] "0" ((sentRows [0]).2.getD []))[row]? = some o' ∧ shown o' = shown o := by
  have hsome : (sentRows [0]).2.isSome = true := by decide +kernel
  have hsent : sentRows [0] = ((sentRows [0]).1, some ((sentRows [0]).2.getD [])) := by
    refine Prod.ext rfl ?_
    cases hs : (sentRows [0]).2 with
    | none => rw [hs] at hsome; cases hsome
    | some items => rfl
  exact applied_iff (fun _ _ => .exited 0 "" "") [] "7" "0" (by decide) (by decide) hsent

end NekoEcat.L4.StartupApply
