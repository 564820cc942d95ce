import NekoEcat.L2Daemon.Handlers

/-!
# The report of a batch of Startup SDOs

`applyStartupSdos` writes its items one after the other over the backend the daemon
has, of which only the downloads are seen here. It names the address of every item in
its answer; for an item that failed it takes the subindex from the item a second time,
under one of the two spellings only.

* `cli_eq`: over the command line it is the handler of `handlers`.
* `attempts_eq`: what is written.
* `faithful_iff`: when every row names the address that was used.
* `lost_subindex`: a row that names none.
-/
namespace NekoEcat.L2.StartupReport
open NekoEcat.Commands NekoEcat.QJson NekoEcat.L2.CliBackend NekoEcat.L2.Handlers
open NekoEcat.L2.FoE (success)

/-- `backend_->download(master, position, index, subIndex, value, type, &error)` -/
structure Download where
  master : String
  position : Int
  index : String
  subIndex : String
  value : String
  type : String
  deriving DecidableEq, Repr

/-- What it returns, and `error`. -/
structure Ended where
  ok : Bool
  error : String
  deriving DecidableEq, Repr

def downloadOf (master : String) (item : QJsonObject) : Download :=
  ⟨master, position item, text item "index", subIndexText item, text item "value", text item "type"⟩

def applyItem (master : String) (s : Applying) (value : QJsonValue) : Prog Download Ended Applying := do
  let item := toObject value
  let e ← Prog.exec (downloadOf master item)
  return s.add item e.ok e.error

/-- mirrors apps/ecatd/EcatDaemon.cpp:245-278 -/
def applyStartupSdos (id : String) (params : QJsonObject) : Prog Download Ended QJsonObject := do
  let s ← Prog.each (applyItem (requestedMaster params)) {} (toArray (value params "items"))
  return success id (ofList [("applied", .int s.applied), ("failed", .int s.failed), ("failures", .array s.failures),
    ("results", .array s.results)])

/-- The download of the command line backend. -/
def cliDownload (d : Download) : Cli Ended := do
  let (ok, error) ← CliBackend.download d.master d.position d.index d.subIndex d.value d.type
  return ⟨ok, error.getD ""⟩

/-- **Over the command line** it is the handler there. -/
theorem cli_eq (id : String) (params : QJsonObject) :
    Handlers.applyStartupSdos id params = (applyStartupSdos id params).via cliDownload := by
  have hitem : (fun s v => (applyItem (requestedMaster params) s v).via cliDownload) =
      Handlers.applyItem (requestedMaster params) := by
    funext s v
    rfl
  unfold applyStartupSdos Handlers.applyStartupSdos
  rw [Prog.bind_eq, Prog.bind_eq, Prog.via_bind, Prog.via_each, hitem]
  rfl

/-! ## The report -/

/-- The rows of the items, numbered from `row` on. -/
def rowsFrom : Int → List (QJsonValue × Ended) → List QJsonValue
  | _, [] => []
  | row, z :: zs => .object (itemResult row (toObject z.1) z.2.ok z.2.error) :: rowsFrom (row + 1) zs

def hasFailed (row : QJsonValue) : Bool := !QJson.toBool (value (toObject row) "ok")

/-- A row as it is in `failures`. -/
def failureOf (row : QJsonValue) : QJsonValue := .object (QJson.remove (toObject row) "ok")

def items (params : QJsonObject) : List QJsonValue := toArray (value params "items")

/-- The downloads that the items ask for. -/
def downloads (params : QJsonObject) : List Download :=
  (items params).map fun item => downloadOf (requestedMaster params) (toObject item)

/-- Every item was written once, and the rows are aligned with the downloads and name
their addresses. -/
structure Faithful (params : QJsonObject) (calls : List Download) (ended : List Ended) (result : QJsonObject) : Prop where
  attempts : calls = downloads params
  counts : ∃ applied failed : Int, value result "applied" = .int applied ∧ value result "failed" = .int failed ∧
    applied + failed = calls.length
  length : (toArray (value result "results")).length = calls.length
  row : ∀ (k : Nat) (d : Download) (e : Ended), calls[k]? = some d → ended[k]? = some e →
    ∃ r, (toArray (value result "results"))[k]? = some (.object r) ∧ value r "row" = .int k ∧
      value r "ok" = .bool e.ok ∧ value r "position" = .int d.position ∧ value r "index" = .string d.index ∧
      value r "subIndex" = .string d.subIndex
  failures : toArray (value result "failures") = ((toArray (value result "results")).filter hasFailed).map failureOf

section
variable (row : Int) (item : QJsonObject) (ok : Bool) (error : String)

theorem value_itemResult :
    value (itemResult row item ok error) "row" = .int row ∧ value (itemResult row item ok error) "ok" = .bool ok ∧
      value (itemResult row item ok error) "position" = .int (position item) ∧
      value (itemResult row item ok error) "index" = .string (text item "index") := by
  cases ok with
  | true => simp [itemResult, ofList, value_insert]
  | false => simp [itemResult, itemFailure, ofList, value_insert]

/-- The subindex of a row that failed is read from the item again. -/
theorem subIndex_itemResult :
    value (itemResult row item ok error) "subIndex" = .string (if ok then subIndexText item else text item "subIndex") := by
  cases ok with
  | true => simp [itemResult, ofList, value_insert]
  | false => simp [itemResult, itemFailure, ofList, value_insert]

theorem hasFailed_itemResult : hasFailed (.object (itemResult row item ok error)) = !ok := by
  rw [hasFailed, toObject, (value_itemResult row item ok error).2.1]
  rfl

theorem failureOf_itemResult :
    failureOf (.object (itemResult row item false error)) = .object (itemFailure row item error) := by
  simp only [failureOf, toObject, itemResult, itemFailure, ofList, List.foldl_cons, List.foldl_nil, QJson.insert,
    QJson.remove, String.reduceEq, String.reduceLT, Bool.false_eq_true, if_true, if_false]
  rfl

end

theorem rowsFrom_length (row : Int) (zs : List (QJsonValue × Ended)) : (rowsFrom row zs).length = zs.length := by
  induction zs generalizing row with
  | nil => rfl
  | cons z zs ih => rw [rowsFrom, List.length_cons, ih, List.length_cons]

theorem getElem?_rowsFrom (row : Int) (zs : List (QJsonValue × Ended)) (k : Nat) :
    (rowsFrom row zs)[k]? = zs[k]?.map fun z => .object (itemResult (row + k) (toObject z.1) z.2.ok z.2.error) := by
  induction zs generalizing row k with
  | nil => rfl
  | cons z zs ih =>
    cases k with
    | zero => simp [rowsFrom]
    | succ k =>
      rw [rowsFrom, List.getElem?_cons_succ, List.getElem?_cons_succ, ih]
      congr 1
      funext z'
      rw [Int.add_assoc, Int.add_comm 1]
      rfl

/-- The round of one item. -/
def addItem (s : Applying) (z : QJsonValue × Ended) : Applying := s.add (toObject z.1) z.2.ok z.2.error

/-- **The three outputs are aligned.** -/
theorem report_fold (zs : List (QJsonValue × Ended)) (s : Applying) :
    (zs.foldl addItem s).results = s.results ++ rowsFrom s.row zs ∧
      (zs.foldl addItem s).failures = s.failures ++ ((rowsFrom s.row zs).filter hasFailed).map failureOf ∧
      (zs.foldl addItem s).applied + (zs.foldl addItem s).failed = s.applied + s.failed + zs.length := by
  induction zs generalizing s with
  | nil => simp [rowsFrom]
  | cons z zs ih =>
    obtain ⟨hresults, hfailures, hcount⟩ := ih (addItem s z)
    have hfailed := hasFailed_itemResult s.row (toObject z.1) z.2.ok z.2.error
    rw [List.foldl_cons, hresults, hfailures, hcount, rowsFrom, List.filter_cons, hfailed]
    refine ⟨?_, ?_, ?_⟩
    · simp [addItem, Applying.add]
    · cases hok : z.2.ok with
      | true => simp [addItem, Applying.add, hok]
      | false => simp [addItem, Applying.add, hok, failureOf_itemResult]
    · cases hok : z.2.ok with
      | true =>
        simp only [addItem, Applying.add, hok, if_true, List.length_cons]
        push_cast
        omega
      | false =>
        simp only [addItem, Applying.add, hok, Bool.false_eq_true, if_false, List.length_cons]
        push_cast
        omega

/-! ## Runs -/

section
variable (env : List Download → Download → Ended) (h : List Download) (id : String) (params : QJsonObject)

/-- Every item is written, one after the other. -/
theorem attempts_eq : ((applyStartupSdos id params).run env h).2 = downloads params := by
  unfold applyStartupSdos
  rw [Prog.bind_eq, Prog.run_bind, Prog.lines_each env h fun _ _ _ => rfl]
  exact List.append_nil _

/-- How the downloads end. -/
def outcomes : List Ended := Prog.answers env h (downloads params)

/-- The `result` of the answer. -/
def reported : QJsonObject := toObject (value ((applyStartupSdos id params).run env h).1 "result")

theorem reported_eq :
    reported env h id params =
      let s := ((items params).zip (outcomes env h params)).foldl addItem {}
      ofList [("applied", .int s.applied), ("failed", .int s.failed), ("failures", .array s.failures),
        ("results", .array s.results)] := by
  have hitem : ∀ (s : Applying) (v : QJsonValue), applyItem (requestedMaster params) s v =
      .call (downloadOf (requestedMaster params) (toObject v)) fun e => .done (addItem s (v, e)) := fun _ _ => rfl
  have hloop := Prog.result_each env h hitem {} (items params)
  unfold reported applyStartupSdos
  rw [Prog.bind_eq, Prog.run_bind]
  have hresult : ∀ o, toObject (value (success id o) "result") = o := by
    intro o
    simp [success, ofList, value_insert, toObject]
  unfold items at hloop ⊢
  rw [hloop]
  exact hresult _

theorem length_outcomes : (outcomes env h params).length = (items params).length := by
  simp [outcomes, downloads]

/-- The rows of the items. -/
theorem results_eq :
    toArray (value (reported env h id params) "results") = rowsFrom 0 ((items params).zip (outcomes env h params)) := by
  have hfold := (report_fold ((items params).zip (outcomes env h params)) {}).1
  rw [reported_eq]
  simp only [ofList, List.foldl_cons, List.foldl_nil, value_insert]
  exact hfold

theorem results_at {k : Nat} {item : QJsonValue} {e : Ended} (hitem : (items params)[k]? = some item)
    (he : (outcomes env h params)[k]? = some e) :
    (toArray (value (reported env h id params) "results"))[k]? =
      some (.object (itemResult k (toObject item) e.ok e.error)) := by
  have hzip : ((items params).zip (outcomes env h params))[k]? = some (item, e) :=
    List.getElem?_zip_eq_some.2 ⟨hitem, he⟩
  rw [results_eq, getElem?_rowsFrom, hzip, Option.map_some, Int.zero_add]

theorem subIndexText_eq (item : QJsonObject) :
    text item "subIndex" = subIndexText item ↔ text item "subIndex" ≠ "" ∨ text item "subindex" = "" := by
  unfold subIndexText subIndexFromJson
  simp only
  split
  · rename_i hempty
    have htext : text item "subIndex" = "" := hempty
    rw [htext]
    exact ⟨fun h => .inr h.symm, fun h => (h.resolve_left fun hne => hne rfl).symm⟩
  · rename_i hsome
    exact iff_of_true rfl (.inl hsome)

/-- **The report is faithful exactly if** every item that failed has its subindex under
`subIndex`, or has none. -/
theorem faithful_iff :
    Faithful params ((applyStartupSdos id params).run env h).2 (outcomes env h params) (reported env h id params) ↔
      ∀ (k : Nat) (item : QJsonValue) (e : Ended), (items params)[k]? = some item → (outcomes env h params)[k]? = some e →
        e.ok = false → text (toObject item) "subIndex" ≠ "" ∨ text (toObject item) "subindex" = "" := by
  rw [attempts_eq]
  have hcall : ∀ {k : Nat} {item : QJsonValue}, (items params)[k]? = some item →
      (downloads params)[k]? = some (downloadOf (requestedMaster params) (toObject item)) := by
    intro k item hitem
    rw [downloads, List.getElem?_map, hitem, Option.map_some]
  constructor
  · intro hfaithful k item e hitem he hfailed
    obtain ⟨r, hr, -, -, -, -, hsub⟩ := hfaithful.row k _ e (hcall hitem) he
    rw [results_at env h id params hitem he] at hr
    obtain rfl := QJsonValue.object.inj (Option.some.inj hr)
    rw [subIndex_itemResult, hfailed] at hsub
    exact (subIndexText_eq _).1 (QJsonValue.string.inj hsub)
  · intro hspelled
    have hlength : ((items params).zip (outcomes env h params)).length = (downloads params).length := by
      rw [List.length_zip, length_outcomes, Nat.min_self, downloads, List.length_map]
    have hfold := report_fold ((items params).zip (outcomes env h params)) {}
    refine ⟨rfl, ?_, ?_, ?_, ?_⟩
    · have hcount := hfold.2.2
      rw [hlength] at hcount
      refine ⟨_, _, ?_, ?_, hcount.trans (Int.zero_add _)⟩
      · simp only [reported_eq, ofList, List.foldl_cons, List.foldl_nil, value_insert]
        rfl
      · simp only [reported_eq, ofList, List.foldl_cons, List.foldl_nil, value_insert]
        rfl
    · rw [results_eq, rowsFrom_length, hlength]
    · intro k d e hd he
      obtain ⟨item, hitem⟩ : ∃ item, (items params)[k]? = some item := by
        rw [downloads, List.getElem?_map, Option.map_eq_some_iff] at hd
        exact ⟨_, hd.choose_spec.1⟩
      obtain rfl := Option.some.inj ((hcall hitem).symm.trans hd)
      obtain ⟨hrow, hok, hposition, hindex⟩ := value_itemResult k (toObject item) e.ok e.error
      refine ⟨_, results_at env h id params hitem he, hrow, hok, hposition, hindex, ?_⟩
      rw [subIndex_itemResult]
      cases hfailed : e.ok with
      | true => rfl
      | false => exact congrArg QJsonValue.string ((subIndexText_eq _).2 (hspelled k item e hitem he hfailed))
    · rw [results_eq, reported_eq]
      simp only [ofList, List.foldl_cons, List.foldl_nil, value_insert]
      exact hfold.2.1

end

/-- An item with the other spelling. -/
def lowercaseItem : QJsonObject :=
  [("index", .string "0x6060"), ("position", .int 0), ("subindex", .string "1"), ("type", .string "uint8"),
    ("value", .string "8")]

def oneItem : QJsonObject := [("items", .array [.object lowercaseItem])]

/-- The slave does not answer. -/
def unanswered : List Download → Download → Ended := fun _ _ => ⟨false, "No such slave"⟩

/-- The download went to subindex 1, the row of the failure names none. -/
theorem lost_subindex :
    ¬ Faithful oneItem ((applyStartupSdos "7" oneItem).run unanswered []).2 (outcomes unanswered [] oneItem)
      (reported unanswered [] "7" oneItem) := by
  intro hfaithful
  have hcall : ((applyStartupSdos "7" oneItem).run unanswered []).2[0]? =
      some ⟨"0", 0, "0x6060", "1", "8", "uint8"⟩ := by decide +kernel
  have hended : (outcomes unanswered [] oneItem)[0]? = some ⟨false, "No such slave"⟩ := by decide +kernel
  have hitem : (items oneItem)[0]? = some (.object lowercaseItem) := rfl
  obtain ⟨r, hr, -, -, -, -, hsub⟩ := hfaithful.row 0 _ _ hcall hended
  rw [results_at unanswered [] "7" oneItem hitem hended] at hr
  obtain rfl := QJsonValue.object.inj (Option.some.inj hr)
  rw [subIndex_itemResult] at hsub
  have htext : text lowercaseItem "subIndex" = "" := rfl
  exact absurd (htext.symm.trans (QJsonValue.string.inj hsub)) (by decide)

end NekoEcat.L2.StartupReport
