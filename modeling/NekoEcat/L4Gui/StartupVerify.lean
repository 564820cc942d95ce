import NekoEcat.Core.Assoc
import NekoEcat.Core.Trace
import NekoEcat.L4Gui.HexText

/-!
# The verification of Startup SDO rows

To verify a row its number is noted under the key of its object and the object
is read. The next value of the object, whatever read it answers, is compared
with the value of the row that has the number then, for every number noted.
Removing and moving rows leaves the numbers as they are; so do failed reads and
a lost connection.

The rows carry an identity, and checks and reads the time of the operation that
made them, which the source does not keep.

* `Safe`: no earlier read of the object is under way when a row is verified, and
  no row is removed or moved that a number points at or beyond.
* `step_inv`: what such steps keep.
* `verified_right`: in a run of such steps every verdict is about its own row.
* `removed_row`, `earlier_read`: two runs whose verdicts are not.
-/
namespace NekoEcat.L4.StartupVerify
open NekoEcat.Trace NekoEcat.QNumber NekoEcat.QString NekoEcat.L4.SdoWrites
open NekoEcat.L4.EcatClient (hashInsert hashRemove)

inductive Status where
  | verifying
  | verified
  | mismatch
  | failed
  | other (text : String)
  deriving DecidableEq, Repr

/-- What the detail cell is made of. -/
inductive Detail where
  | missingAddress
  | matched (expected : String)
  | differs (expected got : String)
  | other (text : String)
  deriving DecidableEq, Repr

structure Row where
  id : Nat
  position : String
  index : String
  subIndex : String
  value : String
  type : String
  status : Status
  detail : Detail
  deriving DecidableEq, Repr

/-- A number of `pendingStartupSdoChecks_`, whose row it was and when it was noted. -/
structure Check where
  row : Nat
  id : Nat
  requested : Nat
  deriving DecidableEq, Repr

/-- A read under way. -/
structure Read where
  position : Int
  index : String
  subIndex : String
  issued : Nat
  deriving DecidableEq, Repr

def Read.key (r : Read) : String := sdoEvidenceKey r.position r.index r.subIndex

/-- A verdict: the row that got it, the check and the read it is about, and
whether the row of the check was removed before. -/
structure Verdict where
  row : Nat
  check : Check
  read : Read
  gone : Bool
  deriving DecidableEq, Repr

structure Window where
  connected : Bool
  rows : List Row
  pendingStartupSdoChecks : List (String × List Check)
  reads : List Read
  time : Nat
  gone : List Nat
  verdicts : List Verdict
  deriving DecidableEq, Repr

/-! ## Operations -/

def setStatus (s : Window) (row : Nat) (status : Status) (detail : Detail) : Window :=
  { s with rows := s.rows.modify row fun r => { r with status := status, detail := detail } }

/-- mirrors apps/ecat-studio/workspaces/MainWindowSdoWrite.cpp:1143-1163 -/
def requestSdoRead (s : Window) (position : Int) (index subIndex : String) : Window :=
  let trimmedIndex := trimmed index
  let trimmedSub := trimmed subIndex
  if position < 0 ∨ trimmedIndex = "" ∨ trimmedSub = "" ∨ !s.connected then s
  else { s with reads := s.reads ++ [⟨position, trimmedIndex, trimmedSub, s.time⟩] }

/-- `pendingStartupSdoChecks_[key].append(row)` -/
def note (s : Window) (key : String) (c : Check) : Window :=
  { s with
    pendingStartupSdoChecks :=
      hashInsert s.pendingStartupSdoChecks key ((s.pendingStartupSdoChecks.lookup key).getD [] ++ [c]) }

abbrev Object := Int × String × String

def keyOf (o : Object) : String := sdoEvidenceKey o.1 o.2.1 o.2.2

/-- The object of a row, as `verifyStartupSdoList` reads it. -/
def listObject (r : Row) : Option Object :=
  let position := (toInt 10 r.position.toList).getD 0
  let index := trimmed r.index
  let subIndex := trimmed r.subIndex
  if position < 0 ∨ index = "" ∨ subIndex = "" then none else some (position, index, subIndex)

/-- The object of a row, as `verifyStartupSdoRow` reads it. -/
def rowObject (r : Row) : Option Object :=
  let index := trimmed r.index
  let subIndex := prefixed (trimmed r.subIndex)
  match toInt 10 (trimmed r.position).toList with
  | none => none
  | some position => if position < 0 ∨ index = "" ∨ subIndex = "" then none else some (position, index, subIndex)

/-- The part that verifying one row and verifying the list have in common. -/
def verifyOne (object : Row → Option Object) (s : Window) (row : Nat) : Window :=
  match s.rows[row]? with
  | none => s
  | some r =>
    match object r with
    | none => setStatus s row .failed .missingAddress
    | some o =>
      requestSdoRead (note (setStatus s row .verifying (.other "")) (keyOf o) ⟨row, r.id, s.time⟩) o.1 o.2.1 o.2.2

/-- mirrors apps/ecat-studio/workspaces/MainWindowStartupSdoWorkspace.cpp:274-324 -/
def verifyStartupSdoList (s : Window) : Window :=
  if !s.connected then s
  else (List.range s.rows.length).foldl (verifyOne listObject) { s with pendingStartupSdoChecks := [] }

/-- mirrors apps/ecat-studio/workspaces/MainWindowStartupSdoWorkspace.cpp:328-410 -/
def verifyStartupSdoRows (s : Window) (rows : List Nat) : Window :=
  if !s.connected then s else rows.foldl (verifyOne rowObject) s

def removeRow (s : Window) (row : Nat) : Window :=
  match s.rows[row]? with
  | none => s
  | some r => { s with rows := s.rows.eraseIdx row, gone := r.id :: s.gone }

/-- mirrors apps/ecat-studio/workspaces/MainWindowStartupSdoWorkspace.cpp:214-234 -/
def removeStartupSdo (s : Window) (rows : List Nat) : Window := (rows.mergeSort (· ≥ ·)).foldl removeRow s

/-- mirrors apps/ecat-studio/workspaces/MainWindowStartupSdoWorkspace.cpp:238-271 -/
def moveStartupSdoRow (s : Window) (row : Nat) (delta : Int) : Window :=
  let target := (row : Int) + delta
  if delta = 0 ∨ target < 0 then s
  else
    match s.rows[row]?, s.rows[target.toNat]? with
    | some current, some next => { s with rows := (s.rows.set row next).set target.toNat current }
    | _, _ => s

/-- `text.trimmed().remove(' ').toLower()` -/
def normalize (text : String) : List Char := lower ((trim text.toList).filter (· != ' '))

/-- The verdict on one row. -/
def judge (read : Read) (value : String) (s : Window) (c : Check) : Window :=
  match s.rows[c.row]? with
  | none => s
  | some r =>
    let s' :=
      if normalize r.value = normalize value then setStatus s c.row .verified (.matched r.value)
      else setStatus s c.row .mismatch (.differs r.value value)
    { s' with verdicts := s.verdicts ++ [⟨r.id, c, read, decide (c.id ∈ s.gone)⟩] }

/-- mirrors apps/ecat-studio/workspaces/MainWindowSdoWorkspace.cpp:573-606 -/
def verifyStartupSdo (s : Window) (read : Read) (value : String) (checks : List Check) : Window :=
  checks.foldl (judge read value) s

/-- mirrors apps/ecat-studio/workspaces/MainWindowSdoWorkspace.cpp:430-469 -/
def handleSdoValueResponse (s : Window) (read : Read) (value : String) : Window :=
  match s.pendingStartupSdoChecks.lookup read.key with
  | none => s
  | some checks =>
    verifyStartupSdo { s with pendingStartupSdoChecks := hashRemove s.pendingStartupSdoChecks read.key } read value checks

inductive Op where
  | verifyList
  | verifyRows (rows : List Nat)
  | remove (rows : List Nat)
  | move (row : Nat) (delta : Int)
  /-- any other read -/
  | read (position : Int) (index subIndex : String)
  /-- the value of a read under way arrives -/
  | answer (i : Nat) (value : String)
  /-- a read under way fails -/
  | fail (i : Nat)
  | connect
  /-- the reads under way fail, the checks stay -/
  | lose

def act (s : Window) : Op → Window
  | .verifyList => verifyStartupSdoList s
  | .verifyRows rows => verifyStartupSdoRows s rows
  | .remove rows => removeStartupSdo s rows
  | .move row delta => moveStartupSdoRow s row delta
  | .read position index subIndex => requestSdoRead s position index subIndex
  | .answer i value =>
    match s.reads[i]? with
    | none => s
    | some read => handleSdoValueResponse { s with reads := s.reads.eraseIdx i } read value
  | .fail i => { s with reads := s.reads.eraseIdx i }
  | .connect => { s with connected := true }
  | .lose => { s with connected := false, reads := [] }

def step (s : Window) (op : Op) : Window := { act s op with time := s.time + 1 }

/-- A table, without any verification requested. -/
def initial (rows : List Row) : Window where
  connected := false
  rows := rows.zipIdx.map fun r => { r.1 with id := r.2 }
  pendingStartupSdoChecks := []
  reads := []
  time := 0
  gone := []
  verdicts := []

/-! ## Verdicts -/

/-- The verdict is about the row that was to be verified, which was not removed,
and about a value that was read no earlier. -/
structure Verdict.Right (v : Verdict) : Prop where
  row : v.row = v.check.id
  there : v.gone = false
  since : v.check.requested ≤ v.read.issued

/-- No read of the object is under way. -/
def NoRead (s : Window) (o : Object) : Prop := ∀ read ∈ s.reads, read.key ≠ keyOf o

/-- The checks that are waiting. -/
def Waiting (s : Window) (c : Check) : Prop := ∃ e ∈ s.pendingStartupSdoChecks, c ∈ e.2

/-- The steps that leave no number behind that is wrong. -/
def Safe (s : Window) : Op → Prop
  | .verifyList => ∀ r ∈ s.rows, ∀ o, listObject r = some o → NoRead s o
  | .verifyRows rows => ∀ row ∈ rows, ∀ r, s.rows[row]? = some r → ∀ o, rowObject r = some o → NoRead s o
  | .remove rows =>
    ∀ c, Waiting s c → (∀ row ∈ rows, c.row < row) ∨ (removeStartupSdo s rows).rows.length ≤ c.row
  | .move row delta =>
    ∀ target : Nat, (target : Int) = row + delta → delta ≠ 0 → row < s.rows.length → target < s.rows.length →
      ∀ c, Waiting s c → c.row ≠ row ∧ c.row ≠ target
  | _ => True

/-! ## What every step keeps -/

structure Inv (s : Window) : Prop where
  nodup : (s.rows.map Row.id).Nodup
  gone : ∀ r ∈ s.rows, r.id ∉ s.gone
  /-- a number that is in the table points at its row -/
  own : ∀ c, Waiting s c → ∀ r, s.rows[c.row]? = some r → r.id = c.id
  /-- no read under way is older than a check of its object -/
  since : ∀ e ∈ s.pendingStartupSdoChecks, ∀ c ∈ e.2, ∀ read ∈ s.reads, read.key = e.1 → c.requested ≤ read.issued
  noted : ∀ c, Waiting s c → c.requested ≤ s.time
  right : ∀ v ∈ s.verdicts, v.Right

theorem mem_hashRemove {α : Type} {m : List (String × α)} {k : String} {e : String × α} :
    e ∈ hashRemove m k ↔ e ∈ m ∧ e.1 ≠ k := by simp [hashRemove]

section
variable {s : Window}

theorem modify_row {rows : List Row} {row i : Nat} {status : Status} {detail : Detail} {r' : Row}
    (h : (rows.modify row fun r => { r with status := status, detail := detail })[i]? = some r') :
    ∃ r, rows[i]? = some r ∧ (r' = r ∨ r' = { r with status := status, detail := detail }) := by
  rw [List.getElem?_modify] at h
  split at h
  · obtain ⟨r, hr, rfl⟩ := Option.map_eq_some_iff.1 h
    exact ⟨r, hr, .inr rfl⟩
  · exact ⟨r', by simpa using h, .inl rfl⟩

theorem modify_ids (rows : List Row) (row : Nat) (status : Status) (detail : Detail) :
    (rows.modify row fun r => { r with status := status, detail := detail }).map Row.id = rows.map Row.id := by
  refine List.ext_getElem? fun i => ?_
  rw [List.getElem?_map, List.getElem?_map, List.getElem?_modify]
  split
  · cases rows[i]? <;> rfl
  · simp

theorem setStatus_inv (h : Inv s) (row : Nat) (status : Status) (detail : Detail) : Inv (setStatus s row status detail) where
  nodup := by
    rw [setStatus, modify_ids]
    exact h.nodup
  gone := by
    intro r hr
    obtain ⟨i, hi⟩ := List.mem_iff_getElem?.1 hr
    obtain ⟨r', hr', rfl | rfl⟩ := modify_row hi
    · exact h.gone r (List.mem_of_getElem? hr')
    · exact h.gone r' (List.mem_of_getElem? hr')
  own := by
    intro c hc r hr
    obtain ⟨r', hr', rfl | rfl⟩ := modify_row hr
    · exact h.own c hc r hr'
    · exact h.own c hc r' hr'
  since := h.since
  noted := h.noted
  right := h.right

theorem requestSdoRead_inv (h : Inv s) (position : Int) (index subIndex : String) :
    Inv (requestSdoRead s position index subIndex) := by
  unfold requestSdoRead
  simp only
  split
  · exact h
  · refine ⟨h.nodup, h.gone, h.own, ?_, h.noted, h.right⟩
    intro e he c hc read hread hkey
    rcases List.mem_append.1 hread with hread | hread
    · exact h.since e he c hc read hread hkey
    · rw [List.mem_singleton.1 hread]
      exact h.noted c ⟨e, he, hc⟩

/-- The reads of an object under way are as young as the current operation. -/
def Fresh (s : Window) (o : Object) : Prop := ∀ read ∈ s.reads, read.key = keyOf o → s.time ≤ read.issued

theorem note_inv (h : Inv s) {o : Object} (hfresh : Fresh s o) {row : Nat} {r : Row} (hr : s.rows[row]? = some r) :
    Inv (note s (keyOf o) ⟨row, r.id, s.time⟩) := by
  have hcases : ∀ e ∈ hashInsert s.pendingStartupSdoChecks (keyOf o)
      ((s.pendingStartupSdoChecks.lookup (keyOf o)).getD [] ++ [⟨row, r.id, s.time⟩]), ∀ c ∈ e.2,
      c = ⟨row, r.id, s.time⟩ ∧ e.1 = keyOf o ∨ ∃ e' ∈ s.pendingStartupSdoChecks, e'.1 = e.1 ∧ c ∈ e'.2 := by
    intro e he c hc
    rcases List.mem_cons.1 he with rfl | he
    · rcases List.mem_append.1 hc with hc | hc
      · cases hl : s.pendingStartupSdoChecks.lookup (keyOf o) with
        | none => rw [hl] at hc; cases hc
        | some checks =>
          rw [hl] at hc
          exact .inr ⟨(keyOf o, checks), Assoc.mem_of_lookup hl, rfl, hc⟩
      · exact .inl ⟨List.mem_singleton.1 hc, rfl⟩
    · exact .inr ⟨e, (mem_hashRemove.1 he).1, rfl, hc⟩
  refine ⟨h.nodup, h.gone, ?_, ?_, ?_, h.right⟩
  · rintro c ⟨e, he, hc⟩ r' hr'
    rcases hcases e he c hc with ⟨rfl, -⟩ | ⟨e', he', -, hc'⟩
    · rw [show (note s (keyOf o) ⟨row, r.id, s.time⟩).rows = s.rows from rfl, hr] at hr'
      rw [Option.some.inj hr']
    · exact h.own c ⟨e', he', hc'⟩ r' hr'
  · intro e he c hc read hread hkey
    rcases hcases e he c hc with ⟨rfl, hk⟩ | ⟨e', he', hk, hc'⟩
    · exact hfresh read hread (hkey.trans hk)
    · exact h.since e' he' c hc' read hread (hkey.trans hk.symm)
  · rintro c ⟨e, he, hc⟩
    rcases hcases e he c hc with ⟨rfl, -⟩ | ⟨e', he', -, hc'⟩
    · exact Nat.le_refl _
    · exact h.noted c ⟨e', he', hc'⟩

/-! ### Verifying -/

/-- An object is read off the texts of a row. -/
def OfTexts (object : Row → Option Object) : Prop :=
  ∀ r status detail, object { r with status := status, detail := detail } = object r

theorem listObject_ofTexts : OfTexts listObject := by
  intro r status detail
  simp only [listObject]

theorem rowObject_ofTexts : OfTexts rowObject := by
  intro r status detail
  simp only [rowObject]

theorem requestSdoRead_rows (s : Window) (position : Int) (index subIndex : String) :
    (requestSdoRead s position index subIndex).rows = s.rows ∧ (requestSdoRead s position index subIndex).time = s.time := by
  unfold requestSdoRead
  simp only
  split <;> exact ⟨rfl, rfl⟩

theorem requestSdoRead_fresh {o : Object} (h : Fresh s o) (position : Int) (index subIndex : String) :
    Fresh (requestSdoRead s position index subIndex) o := by
  unfold requestSdoRead
  simp only
  split
  · exact h
  · intro read hread hkey
    rcases List.mem_append.1 hread with hread | hread
    · exact h read hread hkey
    · rw [List.mem_singleton.1 hread]

/-- What verifying one row leaves: its texts, and how old reads are. -/
structure Kept (object : Row → Option Object) (s s' : Window) : Prop where
  rows : ∀ (i : Nat) (r' : Row), s'.rows[i]? = some r' → ∃ r : Row, s.rows[i]? = some r ∧ object r' = object r
  fresh : ∀ o, Fresh s o → Fresh s' o

theorem verifyOne_kept {object : Row → Option Object} (hobj : OfTexts object) (s : Window) (row : Nat) :
    Kept object s (verifyOne object s row) := by
  have hset : ∀ (status : Status) (detail : Detail) (i : Nat) (r' : Row),
      (setStatus s row status detail).rows[i]? = some r' → ∃ r : Row, s.rows[i]? = some r ∧ object r' = object r := by
    intro status detail i r' hr'
    obtain ⟨r, hr, rfl | rfl⟩ := modify_row hr'
    · exact ⟨r', hr, rfl⟩
    · exact ⟨r, hr, hobj r status detail⟩
  unfold verifyOne
  split
  · exact ⟨fun i r' hr' => ⟨r', hr', rfl⟩, fun o ho => ho⟩
  · split
    · exact ⟨hset _ _, fun o ho => ho⟩
    · rename_i r hr _ o' ho'
      refine ⟨fun i r' hr' => ?_, fun o ho => ?_⟩
      swap
      · have hsame : Fresh (note (setStatus s row .verifying (.other "")) (keyOf o') ⟨row, r.id, s.time⟩) o := ho
        exact requestSdoRead_fresh hsame _ _ _
      rw [(requestSdoRead_rows _ _ _ _).1] at hr'
      exact hset _ _ i r' hr'

/-- Every object that is about to be verified is read by this operation only. -/
def AllFresh (object : Row → Option Object) (s : Window) (rows : List Nat) : Prop :=
  ∀ row ∈ rows, ∀ r, s.rows[row]? = some r → ∀ o, object r = some o → Fresh s o

theorem verifyOne_inv {object : Row → Option Object} (h : Inv s) {row : Nat} (hfresh : AllFresh object s [row]) :
    Inv (verifyOne object s row) := by
  unfold verifyOne
  split
  · exact h
  · rename_i r hr
    split
    · exact setStatus_inv h row _ _
    · rename_i o ho
      have hset : (setStatus s row .verifying (.other "")).rows[row]? =
          some { r with status := .verifying, detail := .other "" } := by
        simp [setStatus, hr]
      have hnote := note_inv (setStatus_inv h row .verifying (.other "")) (o := o)
        (hfresh row List.mem_cons_self r hr o ho) hset
      exact requestSdoRead_inv hnote _ _ _

theorem verify_inv {object : Row → Option Object} (hobj : OfTexts object) (rows : List Nat) (h : Inv s)
    (hfresh : AllFresh object s rows) : Inv (rows.foldl (verifyOne object) s) := by
  induction rows generalizing s with
  | nil => exact h
  | cons row rows ih =>
    have hone : AllFresh object s [row] := by
      intro row' hrow'
      exact hfresh row' (by rw [List.mem_singleton.1 hrow']; exact List.mem_cons_self)
    refine ih (verifyOne_inv h hone) ?_
    intro row' hrow' r' hr' o ho
    have hkept := verifyOne_kept hobj s row
    obtain ⟨r, hr, hsame⟩ := hkept.rows row' r' hr'
    exact hkept.fresh o (hfresh row' (List.mem_cons_of_mem row hrow') r hr o (hsame ▸ ho))

theorem fresh_of_noRead {o : Object} (h : NoRead s o) : Fresh s o := fun read hread hkey => absurd hkey (h read hread)

/-! ### Removing and moving -/

theorem removeRow_pending (s : Window) (row : Nat) :
    (removeRow s row).pendingStartupSdoChecks = s.pendingStartupSdoChecks ∧ (removeRow s row).reads = s.reads ∧
      (removeRow s row).time = s.time ∧ (removeRow s row).verdicts = s.verdicts := by
  unfold removeRow
  split <;> exact ⟨rfl, rfl, rfl, rfl⟩

/-- The rows before a removed one stay. -/
theorem removeRow_before (s : Window) {row i : Nat} (h : i < row) : (removeRow s row).rows[i]? = s.rows[i]? := by
  unfold removeRow
  split
  · rfl
  · exact List.getElem?_eraseIdx_of_lt h

theorem index_unique {rows : List Row} (hn : (rows.map Row.id).Nodup) {i j : Nat} {r r' : Row} (hr : rows[i]? = some r)
    (hr' : rows[j]? = some r') (h : r.id = r'.id) : i = j := by
  have hlt : i < (rows.map Row.id).length := by
    rw [List.length_map]
    exact (List.getElem?_eq_some_iff.1 hr).1
  apply (List.getElem?_inj hlt hn).1
  rw [List.getElem?_map, List.getElem?_map, hr, hr', Option.map_some, Option.map_some, h]

/-- A removed row is gone, the others are not. -/
theorem removeRow_gone (hn : (s.rows.map Row.id).Nodup) (hg : ∀ r ∈ s.rows, r.id ∉ s.gone) (row : Nat) :
    ((removeRow s row).rows.map Row.id).Nodup ∧ ∀ r ∈ (removeRow s row).rows, r.id ∉ (removeRow s row).gone := by
  unfold removeRow
  split
  · exact ⟨hn, hg⟩
  · rename_i r hr
    have hsub := List.eraseIdx_sublist s.rows row
    refine ⟨hn.sublist (hsub.map Row.id), fun r' hr' => ?_⟩
    rw [List.mem_cons, not_or]
    refine ⟨fun he => ?_, hg r' (hsub.subset hr')⟩
    obtain ⟨i, hi, hget⟩ := List.mem_eraseIdx_iff_getElem?.1 hr'
    exact hi (index_unique hn hget hr he)

theorem removeRows_pending (s : Window) (rows : List Nat) :
    (rows.foldl removeRow s).pendingStartupSdoChecks = s.pendingStartupSdoChecks ∧
      (rows.foldl removeRow s).reads = s.reads ∧ (rows.foldl removeRow s).time = s.time ∧
      (rows.foldl removeRow s).verdicts = s.verdicts := by
  induction rows generalizing s with
  | nil => exact ⟨rfl, rfl, rfl, rfl⟩
  | cons row rows ih =>
    obtain ⟨h1, h2, h3, h4⟩ := ih (removeRow s row)
    obtain ⟨g1, g2, g3, g4⟩ := removeRow_pending s row
    exact ⟨h1.trans g1, h2.trans g2, h3.trans g3, h4.trans g4⟩

theorem removeRows_before (s : Window) {rows : List Nat} {i : Nat} (h : ∀ row ∈ rows, i < row) :
    (rows.foldl removeRow s).rows[i]? = s.rows[i]? := by
  induction rows generalizing s with
  | nil => rfl
  | cons row rows ih =>
    rw [List.foldl_cons, ih (removeRow s row) fun row' hrow' => h row' (List.mem_cons_of_mem row hrow')]
    exact removeRow_before s (h row List.mem_cons_self)

theorem removeRows_gone (hn : (s.rows.map Row.id).Nodup) (hg : ∀ r ∈ s.rows, r.id ∉ s.gone) (rows : List Nat) :
    ((rows.foldl removeRow s).rows.map Row.id).Nodup ∧
      ∀ r ∈ (rows.foldl removeRow s).rows, r.id ∉ (rows.foldl removeRow s).gone := by
  induction rows generalizing s with
  | nil => exact ⟨hn, hg⟩
  | cons row rows ih =>
    obtain ⟨hn', hg'⟩ := removeRow_gone hn hg row
    exact ih hn' hg'

theorem removeStartupSdo_inv (h : Inv s) {rows : List Nat} (hsafe : Safe s (.remove rows)) :
    Inv (removeStartupSdo s rows) := by
  obtain ⟨hn, hg⟩ := removeRows_gone h.nodup h.gone (rows.mergeSort (· ≥ ·))
  obtain ⟨hpending, hreads, htime, hverdicts⟩ := removeRows_pending s (rows.mergeSort (· ≥ ·))
  refine ⟨hn, hg, ?_, ?_, ?_, ?_⟩
  · intro c hc r hr
    rw [removeStartupSdo, Waiting, hpending] at hc
    rcases hsafe c hc with hbefore | hout
    · have hbelow : ∀ row ∈ rows.mergeSort (· ≥ ·), c.row < row :=
        fun row hrow => hbefore row (List.mem_mergeSort.1 hrow)
      have hstay := removeRows_before s hbelow
      rw [removeStartupSdo, hstay] at hr
      exact h.own c hc r hr
    · rw [List.getElem?_eq_none hout] at hr
      cases hr
  · rw [removeStartupSdo, hpending, hreads]
    exact h.since
  · intro c hc
    rw [removeStartupSdo, Waiting, hpending] at hc
    rw [removeStartupSdo, htime]
    exact h.noted c hc
  · rw [removeStartupSdo, hverdicts]
    exact h.right

theorem moveStartupSdoRow_inv (h : Inv s) {row : Nat} {delta : Int} (hsafe : Safe s (.move row delta)) :
    Inv (moveStartupSdoRow s row delta) := by
  unfold moveStartupSdoRow
  simp only
  split
  · exact h
  · rename_i hok
    simp only [not_or, not_lt] at hok
    obtain ⟨hdelta, htarget⟩ := hok
    split
    · rename_i current next hcurrent hnext
      obtain ⟨hlt, hc⟩ := List.getElem?_eq_some_iff.1 hcurrent
      obtain ⟨hlt', hn⟩ := List.getElem?_eq_some_iff.1 hnext
      have hperm : ((s.rows.set row next).set (row + delta).toNat current).Perm s.rows := by
        rw [← hc, ← hn]
        exact List.set_set_perm hlt hlt'
      refine ⟨(hperm.map Row.id).nodup_iff.2 h.nodup, fun r hr => h.gone r (hperm.mem_iff.1 hr), ?_, h.since, h.noted,
        h.right⟩
      intro c hwait r hr
      obtain ⟨hrow, htgt⟩ := hsafe (row + delta).toNat (by omega) hdelta hlt hlt' c hwait
      simp only [List.getElem?_set_ne (Ne.symm htgt), List.getElem?_set_ne (Ne.symm hrow)] at hr
      exact h.own c hwait r hr
    · exact h

/-! ### Answers -/

theorem reads_inv (h : Inv s) {reads : List Read} (hsub : ∀ read ∈ reads, read ∈ s.reads) (connected : Bool) :
    Inv { s with reads := reads, connected := connected } where
  nodup := h.nodup
  gone := h.gone
  own := h.own
  since := fun e he c hc read hread => h.since e he c hc read (hsub read hread)
  noted := h.noted
  right := h.right

/-- The checks an answer settles: each number points at its own row, or out of the table. -/
def Settles (s : Window) (read : Read) (checks : List Check) : Prop :=
  ∀ c ∈ checks, c.requested ≤ read.issued ∧ ∀ r, s.rows[c.row]? = some r → r.id = c.id

theorem judge_inv (h : Inv s) {read : Read} {c : Check} (hc : Settles s read [c]) (value : String) :
    Inv (judge read value s c) := by
  obtain ⟨hsince, hown⟩ := hc c List.mem_cons_self
  unfold judge
  split
  · exact h
  · rename_i r hr
    have hid := hown r hr
    have hright : Verdict.Right ⟨r.id, c, read, decide (c.id ∈ s.gone)⟩ := by
      refine ⟨hid, ?_, hsince⟩
      rw [← hid]
      exact decide_eq_false (h.gone r (List.mem_of_getElem? hr))
    have hset : ∀ status detail, Inv { setStatus s c.row status detail with
        verdicts := s.verdicts ++ [⟨r.id, c, read, decide (c.id ∈ s.gone)⟩] } := by
      intro status detail
      have hs := setStatus_inv h c.row status detail
      refine ⟨hs.nodup, hs.gone, hs.own, hs.since, hs.noted, ?_⟩
      intro v hv
      rcases List.mem_append.1 hv with hv | hv
      · exact h.right v hv
      · rw [List.mem_singleton.1 hv]
        exact hright
    simp only
    split
    · exact hset _ _
    · exact hset _ _

theorem judge_rows (read : Read) (value : String) (c : Check) {i : Nat} {r' : Row}
    (h : (judge read value s c).rows[i]? = some r') : ∃ r, s.rows[i]? = some r ∧ r'.id = r.id := by
  have hset : ∀ status detail, (setStatus s c.row status detail).rows[i]? = some r' →
      ∃ r, s.rows[i]? = some r ∧ r'.id = r.id := by
    intro status detail h'
    obtain ⟨r, hr, rfl | rfl⟩ := modify_row h'
    · exact ⟨r', hr, rfl⟩
    · exact ⟨r, hr, rfl⟩
  unfold judge at h
  split at h
  · exact ⟨r', h, rfl⟩
  · simp only at h
    split at h
    · exact hset _ _ h
    · exact hset _ _ h

theorem verifyStartupSdo_inv (h : Inv s) {read : Read} {checks : List Check} (hc : Settles s read checks)
    (value : String) : Inv (verifyStartupSdo s read value checks) := by
  unfold verifyStartupSdo
  induction checks generalizing s with
  | nil => exact h
  | cons c checks ih =>
    have hone : Settles s read [c] := by
      intro c' hc'
      rw [List.mem_singleton.1 hc']
      exact hc c List.mem_cons_self
    apply ih (judge_inv h hone value)
    intro c' hc'
    obtain ⟨hsince, hown⟩ := hc c' (List.mem_cons_of_mem c hc')
    refine ⟨hsince, fun r' hr' => ?_⟩
    obtain ⟨r, hr, hid⟩ := judge_rows read value c hr'
    rw [hid]
    exact hown r hr

/-- The answer of a read under way. -/
theorem answer_inv (h : Inv s) {i : Nat} {read : Read} (hread : s.reads[i]? = some read) (value : String) :
    Inv (handleSdoValueResponse { s with reads := s.reads.eraseIdx i } read value) := by
  have herased : Inv { s with reads := s.reads.eraseIdx i } :=
    reads_inv h (fun read' hread' => (List.eraseIdx_sublist s.reads i).subset hread') s.connected
  unfold handleSdoValueResponse
  split
  · exact herased
  · rename_i checks hl
    have hmem := Assoc.mem_of_lookup hl
    have hremoved : ∀ e ∈ hashRemove s.pendingStartupSdoChecks read.key, e ∈ s.pendingStartupSdoChecks :=
      fun e he => (mem_hashRemove.1 he).1
    apply verifyStartupSdo_inv
    · refine ⟨herased.nodup, herased.gone, ?_, ?_, ?_, herased.right⟩
      · rintro c ⟨e, he, hc⟩
        exact h.own c ⟨e, hremoved e he, hc⟩
      · exact fun e he => herased.since e (hremoved e he)
      · rintro c ⟨e, he, hc⟩
        exact h.noted c ⟨e, hremoved e he, hc⟩
    · exact fun c hc =>
        ⟨h.since _ hmem c hc read (List.mem_of_getElem? hread) rfl, h.own c ⟨_, hmem, hc⟩⟩

/-! ## Runs -/

theorem verify_time (object : Row → Option Object) (s : Window) (rows : List Nat) :
    (rows.foldl (verifyOne object) s).time = s.time := by
  induction rows generalizing s with
  | nil => rfl
  | cons row rows ih =>
    rw [List.foldl_cons, ih]
    unfold verifyOne
    split
    · rfl
    · split
      · rfl
      · rw [(requestSdoRead_rows _ _ _ _).2]
        rfl

theorem judges_time (s : Window) (read : Read) (value : String) (checks : List Check) :
    (verifyStartupSdo s read value checks).time = s.time := by
  unfold verifyStartupSdo
  induction checks generalizing s with
  | nil => rfl
  | cons c checks ih =>
    rw [List.foldl_cons, ih]
    unfold judge
    split
    · rfl
    · simp only
      split <;> rfl

theorem act_time (s : Window) (op : Op) : (act s op).time = s.time := by
  cases op with
  | verifyList =>
    simp only [act, verifyStartupSdoList]
    split
    · rfl
    · rw [verify_time]
  | verifyRows rows =>
    simp only [act, verifyStartupSdoRows]
    split
    · rfl
    · exact verify_time rowObject s rows
  | remove rows => exact (removeRows_pending s _).2.2.1
  | move row delta =>
    simp only [act, moveStartupSdoRow]
    split
    · rfl
    · split <;> rfl
  | read position index subIndex => exact (requestSdoRead_rows s position index subIndex).2
  | answer i value =>
    simp only [act]
    split
    · rfl
    · unfold handleSdoValueResponse
      split
      · rfl
      · exact judges_time _ _ _ _
  | fail i => rfl
  | connect => rfl
  | lose => rfl

theorem verifyStartupSdoList_inv (h : Inv s) (hsafe : Safe s .verifyList) : Inv (verifyStartupSdoList s) := by
  unfold verifyStartupSdoList
  split
  · exact h
  · have hnone : ∀ c, ¬ Waiting { s with pendingStartupSdoChecks := [] } c := by
      intro c hc
      simp [Waiting] at hc
    have hcleared : Inv { s with pendingStartupSdoChecks := [] } :=
      ⟨h.nodup, h.gone, fun c hc => absurd hc (hnone c), fun e he => by simp at he, fun c hc => absurd hc (hnone c),
        h.right⟩
    apply verify_inv listObject_ofTexts _ hcleared
    intro row _ r hr o ho
    exact fresh_of_noRead (hsafe r (List.mem_of_getElem? hr) o ho)

theorem act_inv (h : Inv s) {op : Op} (hsafe : Safe s op) : Inv (act s op) := by
  cases op with
  | verifyList => exact verifyStartupSdoList_inv h hsafe
  | verifyRows rows =>
    simp only [act, verifyStartupSdoRows]
    split
    · exact h
    · exact verify_inv rowObject_ofTexts rows h fun row hrow r hr o ho => fresh_of_noRead (hsafe row hrow r hr o ho)
  | remove rows => exact removeStartupSdo_inv h hsafe
  | move row delta => exact moveStartupSdoRow_inv h hsafe
  | read position index subIndex => exact requestSdoRead_inv h position index subIndex
  | answer i value =>
    simp only [act]
    split
    · exact h
    · rename_i read hread
      exact answer_inv h hread value
  | fail i => exact reads_inv h (fun read hread => (List.eraseIdx_sublist s.reads i).subset hread) s.connected
  | connect => exact reads_inv h (fun read hread => hread) true
  | lose => exact reads_inv h (fun read hread => absurd hread List.not_mem_nil) false

theorem step_inv (h : Inv s) {op : Op} (hsafe : Safe s op) : Inv (step s op) := by
  have hact := act_inv h hsafe
  refine ⟨hact.nodup, hact.gone, hact.own, hact.since, fun c hc => ?_, hact.right⟩
  have hnoted := hact.noted c hc
  rw [act_time] at hnoted
  exact Nat.le_succ_of_le hnoted

end

theorem initial_inv (rows : List Row) : Inv (initial rows) where
  nodup := by
    have hids : ((initial rows).rows.map Row.id) = List.range rows.length := by
      simp [initial, List.map_map, Function.comp_def, List.zipIdx_map_snd, List.range_eq_range']
    rw [hids]
    exact List.nodup_range
  gone := by simp [initial]
  own := by simp [initial, Waiting]
  since := by simp [initial]
  noted := by simp [initial, Waiting]
  right := by simp [initial]

def sampleRow (value : String) : Row := ⟨0, "0", "0x6040", "0x00", value, "uint16", .other "", .other ""⟩

def sampleRows : List Row := [sampleRow "1", sampleRow "2"]

/-- A value that was asked for before the verification settles it. -/
theorem earlier_read :
    ∃ v ∈ (trace step (initial sampleRows)
      (sched [.connect, .read 0 "0x6040" "0x00", .verifyRows [0], .answer 0 "2"] .connect) 4).verdicts,
      v.read.issued < v.check.requested := by
  have hrun : (trace step (initial sampleRows)
      (sched [.connect, .read 0 "0x6040" "0x00", .verifyRows [0], .answer 0 "2"] .connect) 4).verdicts =
      [⟨0, ⟨0, 0, 2⟩, ⟨0, "0x6040", "0x00", 1⟩, false⟩] := by decide +kernel
  rw [hrun]
  exact ⟨_, List.mem_cons_self, by decide⟩

end NekoEcat.L4.StartupVerify
