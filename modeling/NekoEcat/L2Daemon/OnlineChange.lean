import Mathlib.Data.List.DropRight
import NekoEcat.L2Daemon.Handlers

/-!
# The online change

`OnlineChangeHandler::handleApply` over any backend: the affected slaves are
brought to `PREOP`, every change is written, the slaves are brought to the target
state. The slaves are those the items name by a `position`, but an item without
one is written too, to slave 0. The success counts the writes only.

* `calls_handleApply`: the requests of a run do not depend on how they end.
* `bracketed_iff`: when every write is made between the two changes of state.
* `reports_iff`: when the success covers all requests.
* `safe_iff`: both, for every handler, request and failure.
* `handleApply_via`: over the command line it is the handler of `Handlers`.
-/
namespace NekoEcat.L2.OnlineChange
open NekoEcat.Commands NekoEcat.QJson NekoEcat.L2.Handlers
open NekoEcat.L2.FoE (success failure)

/-! ## The handler -/

/-- The calls of the backend that the handler makes.
mirrors core/EcatService.h:83-99 -/
inductive Request where
  | setState (master : String) (position : Int) (state : String)
  | download (master : String) (position : Int) (index subIndex value type : String)
  deriving DecidableEq, Repr

/-- What a call returns, and the error it stores. -/
abbrev Answer := Bool × Option String

abbrev Service (α : Type) := Prog Request Answer α

/-- mirrors apps/ecatd/handlers/OnlineChangeHandler.h:52-58 -/
structure OnlineChangeHandler where
  backend : Bool
  inProgress : Bool := false
  currentPhase : String := "idle"
  deriving DecidableEq, Repr

def preopFailure (pos : Int) (error : Option String) : QJsonValue :=
  .object (ofList [("position", .int pos), ("phase", .string "preop"), ("ok", .bool false),
    ("error", .string (error.getD ""))])

/-- Phase 1, for one slave: a failure is noted, the others follow. -/
def toPreop (master : String) (results : List QJsonValue) (pos : Int) : Service (List QJsonValue) := do
  let (ok, error) ← Prog.exec (.setState master pos "PREOP")
  return if ok then results else results ++ [preopFailure pos error]

/-- The write that an item asks for. -/
def write (master : String) (change : QJsonValue) : Request :=
  let obj := toObject change
  .download master (position obj) (text obj "index") (text obj "subIndex") (text obj "value") (text obj "type")

/-- The counters and the results after one write. -/
def noteWrite (s : Changing) (change : QJsonValue) (answer : Answer) : Changing :=
  let obj := toObject change
  let outcome := [("position", QJsonValue.int (position obj)), ("phase", .string "sdo"), ("ok", .bool answer.1),
    ("index", .string (text obj "index")), ("subIndex", .string (text obj "subIndex"))]
  if answer.1 then { s with applied := s.applied + 1, results := s.results ++ [.object (ofList outcome)] }
  else
    { s with
      failed := s.failed + 1
      results := s.results ++ [.object (ofList (outcome ++ [("error", .string (answer.2.getD ""))]))] }

/-- Phase 2, for one item. -/
def applyChange (master : String) (s : Changing) (change : QJsonValue) : Service Changing := do
  let answer ← Prog.exec (write master change)
  return noteWrite s change answer

/-- Phase 3, for one slave. -/
def restore (master targetState : String) (results : List QJsonValue) (pos : Int) : Service (List QJsonValue) := do
  let (ok, error) ← Prog.exec (.setState master pos targetState)
  return results ++ [.object (ofList [("position", .int pos), ("targetState", .string targetState), ("ok", .bool ok),
    ("error", .string (if ok then "" else error.getD ""))])]

/-- The text with which the request is refused before anything is done. -/
def refusal (h : OnlineChangeHandler) (params : QJsonObject) : Option String :=
  if h.inProgress then some "An online change is already in progress."
  else if toArray (value params "changes") = [] then some "No changes specified."
  else if ¬ h.backend then some "No backend available."
  else none

def applied (s : Changing) (restoreResults : List QJsonValue) (affected : List Int) : QJsonObject :=
  ofList [("success", .bool (s.failed = 0)), ("applied", .int s.applied), ("failed", .int s.failed),
    ("results", .array s.results), ("restoreResults", .array restoreResults),
    ("affectedSlaves", .array (affected.map .int))]

/-- mirrors apps/ecatd/handlers/OnlineChangeHandler.cpp:71-150 -/
def handleApply (h : OnlineChangeHandler) (id : String) (params : QJsonObject) :
    Service (QJsonObject × OnlineChangeHandler) :=
  let master := requestedMaster params
  let changes := toArray (value params "changes")
  let targetState := toStringD (value params "targetState") "OP"
  match refusal h params with
  | some message => .done (failure id message, h)
  | none => do
    let affected := affectedSlaves changes
    let results ← Prog.each (toPreop master) [] affected
    let s ← Prog.each (applyChange master) ⟨0, 0, results⟩ changes
    let restoreResults ← Prog.each (restore master targetState) [] affected
    return (success id (applied s restoreResults affected), { h with inProgress := false, currentPhase := "idle" })

/-- mirrors apps/ecatd/handlers/OnlineChangeHandler.cpp:154-160 -/
def handleStatus (h : OnlineChangeHandler) (id : String) : QJsonObject :=
  success id (ofList [("inProgress", .bool h.inProgress), ("phase", .string h.currentPhase)])

/-- No change is in progress. -/
def Idle (h : OnlineChangeHandler) : Prop := h.inProgress = false ∧ h.currentPhase = "idle"

/-- **A change is over when its request is answered**, however its calls end. -/
theorem idle_handleApply (env : List Request → Request → Answer) {h : OnlineChangeHandler} (id : String)
    (params : QJsonObject) (hidle : Idle h) :
    Idle ((handleApply h id params).run env []).1.2 ∧ ((handleApply h id params).run env []).1.2.backend = h.backend := by
  unfold handleApply
  cases refusal h params with
  | some message => exact ⟨hidle, rfl⟩
  | none =>
    simp only [Prog.bind_eq, Prog.run_bind]
    exact ⟨⟨rfl, rfl⟩, rfl⟩

/-! ## Its requests -/

section
variable (params : QJsonObject)

/-- The requests of the three phases. -/
def preops : List Request :=
  (affectedSlaves (toArray (value params "changes"))).map fun pos => .setState (requestedMaster params) pos "PREOP"

def writes : List Request := (toArray (value params "changes")).map (write (requestedMaster params))

def restores : List Request :=
  (affectedSlaves (toArray (value params "changes"))).map fun pos =>
    .setState (requestedMaster params) pos (toStringD (value params "targetState") "OP")

variable (env : List Request → Request → Answer) (h : OnlineChangeHandler) (id : String)

/-- **The requests do not depend on how they end.** -/
theorem calls_handleApply (hr : refusal h params = none) :
    ((handleApply h id params).run env []).2 = preops params ++ writes params ++ restores params := by
  unfold handleApply
  rw [hr]
  simp only [Prog.bind_eq, Prog.run_bind]
  rw [Prog.lines_each env _ fun _ _ _ => rfl, Prog.lines_each env _ fun _ _ _ => rfl,
    Prog.lines_each env _ fun _ _ _ => rfl]
  simp only [Prog.pure_eq, Prog.run_done, List.append_nil, List.append_assoc, preops, writes, restores]

end

/-! ## Writes between the changes of state -/

def Request.isWrite : Request → Bool
  | .setState .. => false
  | .download .. => true

/-- `PREOP` is asked of the slave of every write before the first write, and its
target state after the last. -/
def Bracketed (targetState : String) (calls : List Request) : Prop :=
  ∀ master pos index subIndex value type, .download master pos index subIndex value type ∈ calls →
    .setState master pos "PREOP" ∈ calls.takeWhile (fun c => !c.isWrite) ∧
      .setState master pos targetState ∈ calls.rtakeWhile fun c => !c.isWrite

/-- Every item has a position, or some item has the position 0. -/
def Named (changes : List QJsonValue) : Prop :=
  (∀ c ∈ changes, contains (toObject c) "position" = true) ∨
    ∃ c ∈ changes, contains (toObject c) "position" = true ∧ position (toObject c) = 0

section
variable {changes : List QJsonValue}

theorem position_absent {obj : QJsonObject} (h : contains obj "position" = false) : position obj = 0 := by
  have hlookup : obj.lookup "position" = none := by
    rw [List.lookup_eq_none_iff]
    intro f hf
    have hne : f.1 ≠ "position" := fun heq => List.any_eq_false.1 h f hf (beq_iff_eq.2 heq)
    exact bne_iff_ne.2 hne.symm
  simp [position, value, hlookup, toIntD]

theorem mem_affectedSlaves {pos : Int} :
    pos ∈ affectedSlaves changes ↔
      ∃ c ∈ changes, contains (toObject c) "position" = true ∧ position (toObject c) = pos := by
  simp [affectedSlaves, and_assoc]

/-- **The slaves written to are affected** exactly if every item has a position or
slave 0 is affected. -/
theorem written_affected_iff : (∀ c ∈ changes, position (toObject c) ∈ affectedSlaves changes) ↔ Named changes := by
  constructor
  · intro h
    by_cases hall : ∀ c ∈ changes, contains (toObject c) "position" = true
    · exact Or.inl hall
    · push Not at hall
      obtain ⟨c, hc, habsent⟩ := hall
      have hpos := h c hc
      rw [position_absent (Bool.eq_false_iff.2 habsent)] at hpos
      exact Or.inr (mem_affectedSlaves.1 hpos)
  · intro h c hc
    cases hcontains : contains (toObject c) "position" with
    | true => exact mem_affectedSlaves.2 ⟨c, hc, hcontains, rfl⟩
    | false =>
      rw [position_absent hcontains]
      obtain hall | hzero := h
      · rw [hall c hc] at hcontains
        cases hcontains
      · exact mem_affectedSlaves.2 hzero

end

section
variable {params : QJsonObject}

theorem preops_state : ∀ c ∈ preops params, c.isWrite = false := by
  simp [preops, Request.isWrite]

theorem writes_write : ∀ c ∈ writes params, c.isWrite = true := by
  simp [writes, write, Request.isWrite]

theorem restores_state : ∀ c ∈ restores params, c.isWrite = false := by
  simp [restores, Request.isWrite]

/-- The requests before the first write. -/
theorem takeWhile_calls (hne : writes params ≠ []) :
    (preops params ++ writes params ++ restores params).takeWhile (fun c => !c.isWrite) = preops params := by
  obtain ⟨w, ws, hw⟩ := List.exists_cons_of_ne_nil hne
  have hwrite : w.isWrite = true := writes_write w (by rw [hw]; exact List.mem_cons_self)
  have hpre : ∀ c ∈ preops params, (!c.isWrite) = true := fun c hc => by simp [preops_state c hc]
  rw [List.append_assoc, List.takeWhile_append_of_pos hpre, hw]
  simp [hwrite]

/-- The requests after the last write. -/
theorem rtakeWhile_calls (hne : writes params ≠ []) :
    (preops params ++ writes params ++ restores params).rtakeWhile (fun c => !c.isWrite) = restores params := by
  have hne' : (writes params).reverse ≠ [] := by simpa using hne
  obtain ⟨w, ws, hw⟩ := List.exists_cons_of_ne_nil hne'
  have hmem : w ∈ writes params := by
    rw [← List.mem_reverse, hw]
    exact List.mem_cons_self
  have hpost : ∀ c ∈ (restores params).reverse, (!c.isWrite) = true := fun c hc => by
    simp [restores_state c (List.mem_reverse.1 hc)]
  rw [List.rtakeWhile, List.reverse_append, List.reverse_append, List.takeWhile_append_of_pos hpost, hw]
  simp [writes_write w hmem]

/-- **When every write is made between the two changes of state.** -/
theorem bracketed_iff (hne : toArray (value params "changes") ≠ []) :
    Bracketed (toStringD (value params "targetState") "OP") (preops params ++ writes params ++ restores params) ↔
      Named (toArray (value params "changes")) := by
  have hwrites : writes params ≠ [] := by simpa [writes] using hne
  unfold Bracketed
  rw [takeWhile_calls hwrites, rtakeWhile_calls hwrites, ← written_affected_iff]
  constructor
  · intro h c hc
    have hmem : write (requestedMaster params) c ∈ preops params ++ writes params ++ restores params := by
      simp only [List.mem_append, writes, List.mem_map]
      exact Or.inl (Or.inr ⟨c, hc, rfl⟩)
    obtain ⟨hpre, -⟩ := h _ _ _ _ _ _ hmem
    simp only [preops, List.mem_map, Request.setState.injEq, true_and, and_true] at hpre
    obtain ⟨pos, hpos, heq⟩ := hpre
    rwa [← heq]
  · intro h master pos index subIndex v type hmem
    have hwrite : .download master pos index subIndex v type ∈ writes params := by
      simp only [List.mem_append] at hmem
      rcases hmem with (hpre | hwrite) | hpost
      · exact absurd (preops_state _ hpre) (by simp [Request.isWrite])
      · exact hwrite
      · exact absurd (restores_state _ hpost) (by simp [Request.isWrite])
    simp only [writes, write, List.mem_map, Request.download.injEq] at hwrite
    obtain ⟨c, hc, rfl, rfl, -⟩ := hwrite
    have haffected := h c hc
    exact ⟨List.mem_map.2 ⟨_, haffected, rfl⟩, List.mem_map.2 ⟨_, haffected, rfl⟩⟩

end

/-! ## What the success says -/

/-- The success that the answer reports. -/
def reported (response : QJsonObject) : Bool := toBool (value (toObject (value response "result")) "success")

theorem not_reported_failure (id message : String) : reported (failure id message) = false := by
  have hresult : value (failure id message) "result" = .null := by
    simp [FoE.failure, ofList, value_insert]
    rfl
  rw [reported, hresult]
  rfl

theorem reported_applied (id : String) (s : Changing) (restoreResults : List QJsonValue) (affected : List Int) :
    reported (success id (applied s restoreResults affected)) = decide (s.failed = 0) := by
  have hresult : value (success id (applied s restoreResults affected)) "result" = .object (applied s restoreResults affected) := by
    simp [FoE.success, ofList, value_insert]
  have hsuccess : value (applied s restoreResults affected) "success" = .bool (decide (s.failed = 0)) := by
    simp [applied, ofList, value_insert]
  rw [reported, hresult, toObject, hsuccess]
  rfl

section
variable (env : List Request → Request → Answer) (h : OnlineChangeHandler) (id : String) {params : QJsonObject}

theorem noteWrite_failed (s : Changing) (change : QJsonValue) (a : Answer) :
    (noteWrite s change a).failed = if a.1 then s.failed else s.failed + 1 := by
  unfold noteWrite
  cases a.1 <;> rfl

/-- The writes that failed are counted. -/
theorem failed_foldl (l : List (QJsonValue × Answer)) (s : Changing) (hs : 0 ≤ s.failed) :
    (l.foldl (fun s x => noteWrite s x.1 x.2) s).failed = 0 ↔ s.failed = 0 ∧ ∀ x ∈ l, x.2.1 = true := by
  induction l generalizing s with
  | nil => simp
  | cons x l ih =>
    rw [List.foldl_cons, ih _ (by rw [noteWrite_failed]; split <;> omega), noteWrite_failed, List.forall_mem_cons]
    cases hx : x.2.1 with
    | true => simp
    | false =>
      have hpos : s.failed + 1 ≠ 0 := by omega
      simp [hpos]

theorem result_applyChange (hist : List Request) (master : String) (s : Changing) (changes : List QJsonValue) :
    ((Prog.each (applyChange master) s changes).run env hist).1 =
      (changes.zip (Prog.answers env hist (changes.map (write master)))).foldl (fun s x => noteWrite s x.1 x.2) s :=
  Prog.result_each env hist (fun _ _ => rfl) s changes

/-- **The success reported is that of the writes.** -/
theorem reported_handleApply (hr : refusal h params = none) :
    reported ((handleApply h id params).run env []).1.1 = true ↔
      ∀ a ∈ Prog.answers env (preops params) (writes params), a.1 = true := by
  unfold handleApply
  rw [hr]
  simp only [Prog.bind_eq, Prog.run_bind, Prog.pure_eq, Prog.run_done, List.nil_append]
  rw [reported_applied, decide_eq_true_eq, Prog.lines_each env _ fun _ _ _ => rfl,
    result_applyChange, failed_foldl _ _ (Int.le_refl 0)]
  have hzip : ((toArray (value params "changes")).zip (Prog.answers env (preops params) (writes params))).map Prod.snd =
      Prog.answers env (preops params) (writes params) :=
    List.map_snd_zip (by simp [writes])
  constructor
  · rintro ⟨-, hall⟩ a ha
    rw [← hzip] at ha
    obtain ⟨x, hx, rfl⟩ := List.mem_map.1 ha
    exact hall x hx
  · intro hall
    refine ⟨rfl, fun x hx => hall x.2 ?_⟩
    rw [← hzip]
    exact List.mem_map_of_mem hx

/-- If every write succeeds, every change of state does. -/
def Counted (env : List Request → Request → Answer) (params : QJsonObject) : Prop :=
  (∀ a ∈ Prog.answers env (preops params) (writes params), a.1 = true) →
    (∀ a ∈ Prog.answers env [] (preops params), a.1 = true) ∧
      ∀ a ∈ Prog.answers env (preops params ++ writes params) (restores params), a.1 = true

/-- What a call has to keep: its writes are between the changes of state, and it
reports a success only if every request succeeded. -/
structure Safe (targetState : String) (run : (QJsonObject × OnlineChangeHandler) × List Request) : Prop where
  bracketed : Bracketed targetState run.2
  honest : reported run.1.1 = true → ∀ a ∈ Prog.answers env [] run.2, a.1 = true

/-- **Which calls are safe**: those that are refused, and those whose items name
slave 0 or all have a position, if no change of state fails alone. -/
theorem safe_iff : Safe env (toStringD (value params "targetState") "OP") ((handleApply h id params).run env []) ↔
    refusal h params ≠ none ∨ Named (toArray (value params "changes")) ∧ Counted env params := by
  cases hr : refusal h params with
  | some message =>
    have hrun : (handleApply h id params).run env [] = ((failure id message, h), []) := by
      unfold handleApply
      rw [hr]
      rfl
    rw [hrun]
    refine iff_of_true ⟨by simp [Bracketed], fun hrep => ?_⟩ (Or.inl (Option.some_ne_none message))
    rw [not_reported_failure] at hrep
    cases hrep
  | none =>
    have hne : toArray (value params "changes") ≠ [] := by
      unfold refusal at hr
      split_ifs at hr with hprogress hempty
      exact hempty
    have hcalls := calls_handleApply params env h id hr
    have hreported := reported_handleApply env h id hr
    simp only [ne_eq, not_true_eq_false, false_or]
    constructor
    · rintro ⟨hbracketed, hhonest⟩
      rw [hcalls] at hbracketed hhonest
      refine ⟨(bracketed_iff hne).1 hbracketed, fun hwrites => ?_⟩
      have hall := hhonest (hreported.2 hwrites)
      rw [Prog.answers_append, Prog.answers_append] at hall
      exact ⟨fun a ha => hall a (List.mem_append_left _ (List.mem_append_left _ ha)),
        fun a ha => hall a (List.mem_append_right _ ha)⟩
    · rintro ⟨hnamed, hcounted⟩
      refine ⟨by rw [hcalls]; exact (bracketed_iff hne).2 hnamed, fun hrep => ?_⟩
      have hwrites := hreported.1 hrep
      obtain ⟨hpreops, hrestores⟩ := hcounted hwrites
      rw [hcalls, Prog.answers_append, Prog.answers_append]
      intro a ha
      simp only [List.mem_append, List.nil_append] at ha
      rcases ha with (hpre | hwrite) | hpost
      · exact hpreops a hpre
      · exact hwrites a hwrite
      · exact hrestores a hpost

end

/-- One item without a position. -/
def unplaced : QJsonObject :=
  ofList [("changes", .array [.object (ofList [("index", .string "0x6060"), ("subIndex", .string "0x00"),
    ("value", .string "8"), ("type", .string "int8")])])]

/-- Slave 0 is written to in the state it is in. -/
theorem unplaced_write :
    ((handleApply ⟨true, false, "idle"⟩ "1" unplaced).run (fun _ _ => (true, none)) []).2 =
        [.download "0" 0 "0x6060" "0x00" "8" "int8"] ∧
      ¬ ∀ env h id params, Safe env (toStringD (value params "targetState") "OP") ((handleApply h id params).run env []) := by
  have hcalls : ((handleApply ⟨true, false, "idle"⟩ "1" unplaced).run (fun _ _ => (true, none)) []).2 =
      [.download "0" 0 "0x6060" "0x00" "8" "int8"] := by
    decide +kernel
  refine ⟨hcalls, fun h => ?_⟩
  have hbracketed := (h (fun _ _ => (true, none)) ⟨true, false, "idle"⟩ "1" unplaced).bracketed
  rw [hcalls] at hbracketed
  have hpreop := (hbracketed "0" 0 "0x6060" "0x00" "8" "int8" List.mem_cons_self).1
  simp [Request.isWrite] at hpreop

/-! ## Over the command line -/

/-- The calls of the backend that runs the command line. -/
def cli : Request → CliBackend.Cli Answer
  | .setState master position state => CliBackend.setState master position state
  | .download master position index subIndex value type => CliBackend.download master position index subIndex value type

/-- **Over the command line this is the handler of the daemon.** -/
theorem handleApply_via (id : String) (params : QJsonObject) :
    ((handleApply ⟨true, false, "idle"⟩ id params).via cli).bind (fun r => .done r.1) = Handlers.handleApply id params := by
  by_cases hempty : toArray (value params "changes") = []
  · simp [handleApply, Handlers.handleApply, refusal, hempty, Prog.via]
  · have hr : refusal ⟨true, false, "idle"⟩ params = none := by simp [refusal, hempty]
    unfold handleApply Handlers.handleApply
    rw [hr]
    simp only [if_neg hempty, Prog.bind_eq, Prog.via_bind, Prog.via_each, Prog.bind_assoc]
    rfl

end NekoEcat.L2.OnlineChange
