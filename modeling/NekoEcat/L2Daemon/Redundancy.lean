import NekoEcat.Core.Newest
import NekoEcat.L2Daemon.Handlers

/-!
# The redundancy commands

`RedundancyHandler` reads the state of the two links off the text that the backend
gives for a master. IgH does the switching itself, so the commands only say what
the case is; each is entered into a history of the last 500.

* `command_records`: a command records one event, a success iff it answers with one.
* `history_run`: what the history is after any commands.
* `reports_all`, `same_reports_iff`: what is reported of it.
-/
namespace NekoEcat.L2.Redundancy
open NekoEcat.QJson NekoEcat.Regex NekoEcat.QNumber NekoEcat.L2.CliBackend NekoEcat.L2.Handlers
open NekoEcat.L2.FoE (success failure)

/-! ## The links -/

/-- A letter of a pattern that ignores the case. Of the other characters only the
Kelvin sign is the same as an ASCII letter of the patterns. -/
def sameLetter (x c : Char) : Bool := c.toLower == x.toLower || (x.toLower == 'k' && c.toNat == 0x212a)

def caseless (text : String) : Re := .seq (text.toList.map fun x => .char (sameLetter x))

/-- `(up|down)` -/
def upOrDown : Re := .group (.alt (caseless "up") (caseless "down"))

/-- `Link:\s*(\d+):\s*(up|down)\s+(\d+):\s*(up|down)` -/
def linkRe : Re :=
  .seq [caseless "Link:", .many isBlank, .group (.plus (isDigitOf 10)), caseless ":", .many isBlank, upOrDown,
    .plus isBlank, .group (.plus (isDigitOf 10)), caseless ":", .many isBlank, upOrDown]

/-- `\w` -/
def isWord (c : Char) : Bool := c.isAlphanum || c == '_'

/-- `Main:\s*(\w+)` -/
def mainRe : Re := .seq [caseless "Main:", .many isBlank, .group (.plus isWord)]

/-- `Redundant:\s*(\w+)` -/
def redRe : Re := .seq [caseless "Redundant:", .many isBlank, .group (.plus isWord)]

/-- What `parseLinkStatus` returns and stores. -/
structure Links where
  hasRedundancy : Bool
  primaryUp : Bool
  secondaryUp : Bool
  deriving DecidableEq, Repr

def isUp (cs : List Char) : Bool := lower cs == "up".toList

/-- mirrors apps/ecatd/handlers/RedundancyHandler.cpp:248-284 -/
def parseLinkStatus (masterOutput : String) : Links :=
  match firstMatch linkRe masterOutput.toList with
  | some g => ⟨true, isUp (captured g 2), isUp (captured g 4)⟩
  | none =>
    match firstMatch redRe masterOutput.toList with
    | some red =>
      let primaryUp := match firstMatch mainRe masterOutput.toList with
        | some main => isUp (captured main 1)
        | none => false
      ⟨true, primaryUp, isUp (captured red 1)⟩
    | none => ⟨false, true, false⟩

/-! ## The handler -/

/-- mirrors apps/ecatd/handlers/RedundancyHandler.h:24-30 -/
structure RedundancyEventRecord (Time : Type) where
  type : String
  pathId : Int
  reason : String
  timestamp : Time
  success : Bool
  deriving DecidableEq

/-- `Backend` are the addresses of backends.
mirrors apps/ecatd/handlers/RedundancyHandler.h:67-72 -/
structure RedundancyHandler (Backend Time : Type) where
  backend : Option Backend
  history : List (RedundancyEventRecord Time)
  deriving DecidableEq

def kMaxHistory : Nat := 500

section
variable {Backend Time : Type} (h : RedundancyHandler Backend Time) (id : String) (params : QJsonObject)
-- the text for a master and the error of `runCliCommand(master, {"master"}, &error)`
variable (masterText : String → String × String) (now : Time)

/-- mirrors apps/ecatd/handlers/RedundancyHandler.cpp:207-218 -/
def addEvent (type : String) (pathId : Int) (reason : String) (success : Bool) : RedundancyHandler Backend Time :=
  let history := h.history ++ [⟨type, pathId, reason, now, success⟩]
  { h with history := if history.length > kMaxHistory then history.tail else history }

def linkState (links : Links) : String :=
  if ¬ links.hasRedundancy then "SinglePath"
  else if links.primaryUp ∧ links.secondaryUp then "DualPath"
  else if links.primaryUp then "PrimaryOnly"
  else if links.secondaryUp then "SecondaryOnly"
  else "BothDown"

def pathObject (pathId : Int) (up : Bool) : QJsonValue :=
  .object (ofList [("pathId", .int pathId), ("state", .string (if up then "Active" else "Down")),
    ("isHealthy", .bool up)])

/-- mirrors apps/ecatd/handlers/RedundancyHandler.cpp:19-63 -/
def handleStatus : QJsonObject :=
  let master := requestedMaster params
  let (masterOutput, error) := masterText master
  if error ≠ "" then failure id error
  else
    let links := parseLinkStatus masterOutput
    success id (ofList [("enabled", .bool links.hasRedundancy), ("state", .string (linkState links)),
      ("primaryPath", pathObject 0 links.primaryUp), ("secondaryPath", pathObject 1 links.secondaryUp),
      ("master", .string master)])

/-- mirrors apps/ecatd/handlers/RedundancyHandler.cpp:67-93 -/
def handleEnable : QJsonObject × RedundancyHandler Backend Time :=
  let (masterOutput, error) := masterText (requestedMaster params)
  if error ≠ "" then (failure id error, addEvent h now "enable" (-1) error false)
  else if (parseLinkStatus masterOutput).hasRedundancy then
    (success id (ofList [("success", .bool true), ("message", .string "Redundancy is already active")]),
      addEvent h now "enable" 0 "Redundancy already active" true)
  else
    let msg := "Redundancy must be configured at IgH master load time " ++
      "(ec_master redundancy=1). Restart the master with redundancy enabled."
    (failure id msg, addEvent h now "enable" (-1) msg false)

/-- mirrors apps/ecatd/handlers/RedundancyHandler.cpp:97-103 -/
def handleDisable : QJsonObject × RedundancyHandler Backend Time :=
  let msg := "Redundancy cannot be disabled at runtime. " ++ "Restart the master without the redundancy parameter."
  (failure id msg, addEvent h now "disable" (-1) msg false)

/-- The result of a command that switches the path. -/
def switched (fromPath toPath : Int) (message : String) : QJsonObject :=
  ofList [("success", .bool true), ("fromPath", .int fromPath), ("toPath", .int toPath), ("message", .string message)]

/-- mirrors apps/ecatd/handlers/RedundancyHandler.cpp:107-147 -/
def handleFailover : QJsonObject × RedundancyHandler Backend Time :=
  let (masterOutput, error) := masterText (requestedMaster params)
  let links := parseLinkStatus masterOutput
  if error ≠ "" then (failure id error, addEvent h now "failover" (-1) error false)
  else if ¬ links.hasRedundancy then
    let msg := "Redundancy is not active. Cannot perform failover."
    (failure id msg, addEvent h now "failover" (-1) msg false)
  else if ¬ links.secondaryUp then
    let msg := "Secondary path is down. Cannot failover."
    (failure id msg, addEvent h now "failover" 1 msg false)
  else if links.primaryUp ∧ links.secondaryUp then
    let msg := "Both paths are healthy. IgH handles failover automatically " ++ "when the primary link goes down."
    (success id (switched 0 1 msg), addEvent h now "failover" 0 msg true)
  else
    (success id (switched 0 1 "Already operating on secondary path"),
      addEvent h now "failover" 1 "Already failed over to secondary" true)

/-- mirrors apps/ecatd/handlers/RedundancyHandler.cpp:151-182 -/
def handleFailback : QJsonObject × RedundancyHandler Backend Time :=
  let (masterOutput, error) := masterText (requestedMaster params)
  let links := parseLinkStatus masterOutput
  if error ≠ "" then (failure id error, addEvent h now "failback" (-1) error false)
  else if ¬ links.hasRedundancy then
    let msg := "Redundancy is not active. Cannot perform failback."
    (failure id msg, addEvent h now "failback" (-1) msg false)
  else if links.primaryUp then
    (success id (switched 1 0 "Primary path is active. IgH uses it automatically."),
      addEvent h now "failback" 0 "Primary path is up, IgH uses it automatically" true)
  else
    let msg := "Primary path is still down. Cannot failback."
    (failure id msg, addEvent h now "failback" 0 msg false)

/-- The requests that are recorded. -/
inductive Command where
  | redundancyEnable
  | redundancyDisable
  | redundancyFailover
  | redundancyFailback
  deriving DecidableEq, Repr

def handle : Command → QJsonObject × RedundancyHandler Backend Time
  | .redundancyEnable => handleEnable h id params masterText now
  | .redundancyDisable => handleDisable h id now
  | .redundancyFailover => handleFailover h id params masterText now
  | .redundancyFailback => handleFailback h id params masterText now

-- `toString(Qt::ISODate)`
variable (isoDate : Time → String)

def eventObject (evt : RedundancyEventRecord Time) : QJsonValue :=
  .object (ofList [("type", .string evt.type), ("pathId", .int evt.pathId), ("reason", .string evt.reason),
    ("timestamp", .string (isoDate evt.timestamp)), ("success", .bool evt.success)])

/-- mirrors apps/ecatd/handlers/RedundancyHandler.cpp:186-203 -/
def handleHistory : QJsonObject :=
  let limit := toIntD (value params "limit") 100
  let start := max 0 (h.history.length - limit)
  success id (ofList [("events", .array ((h.history.drop start.toNat).map (eventObject isoDate)))])

end

/-! ## The history -/

section
variable {Backend Time : Type} {h h' : RedundancyHandler Backend Time}

/-- `h'` has one event more than `h`, entered at `now`, a success iff `ok`. -/
def Records (h h' : RedundancyHandler Backend Time) (now : Time) (ok : Bool) : Prop :=
  h'.backend = h.backend ∧
    ∃ evt, evt.timestamp = now ∧ evt.success = ok ∧ h'.history = Newest.keep kMaxHistory h.history evt

theorem records_addEvent (now : Time) (type : String) (pathId : Int) (reason : String) (success : Bool) :
    Records h (addEvent h now type pathId reason success) now success :=
  ⟨rfl, _, rfl, rfl, rfl⟩

theorem ok_success (id : String) (result : QJsonObject) : toBool (value (success id result) "ok") = true := by
  have hok : value (success id result) "ok" = .bool true := by
    simp [FoE.success, ofList, value_insert]
  rw [hok]
  rfl

theorem ok_failure (id message : String) : toBool (value (failure id message) "ok") = false := by
  have hok : value (failure id message) "ok" = .bool false := by
    simp [FoE.failure, ofList, value_insert]
  rw [hok]
  rfl

/-- **A command records one event**, and answers as it has ended. -/
theorem command_records (h : RedundancyHandler Backend Time) (id : String) (params : QJsonObject)
    (masterText : String → String × String) (now : Time) (c : Command) :
    Records h (handle h id params masterText now c).2 now
      (toBool (value (handle h id params masterText now c).1 "ok")) := by
  cases c with
  | redundancyEnable =>
    simp only [handle, handleEnable]
    split_ifs
    all_goals simp only [ok_success, ok_failure]
    all_goals exact records_addEvent now _ _ _ _
  | redundancyDisable =>
    simp only [handle, handleDisable, ok_failure]
    exact records_addEvent now _ _ _ _
  | redundancyFailover =>
    simp only [handle, handleFailover]
    split_ifs
    all_goals simp only [ok_success, ok_failure]
    all_goals exact records_addEvent now _ _ _ _
  | redundancyFailback =>
    simp only [handle, handleFailback]
    split_ifs
    all_goals simp only [ok_success, ok_failure]
    all_goals exact records_addEvent now _ _ _ _

/-- One command after the other, each with the request, the texts and the time. -/
def handleAll (h : RedundancyHandler Backend Time)
    (cs : List (Command × String × QJsonObject × (String → String × String) × Time)) :
    RedundancyHandler Backend Time :=
  cs.foldl (fun h c => (handle h c.2.1 c.2.2.1 c.2.2.2.1 c.2.2.2.2 c.1).2) h

/-- **The history is that of the last commands**, one event each, in their order. -/
theorem history_run (h : RedundancyHandler Backend Time)
    (cs : List (Command × String × QJsonObject × (String → String × String) × Time))
    {events : List (RedundancyEventRecord Time)} (hstart : h.history = events.rtake kMaxHistory) :
    ∃ recorded : List (RedundancyEventRecord Time), recorded.map (·.timestamp) = cs.map (·.2.2.2.2) ∧
      (handleAll h cs).history = (events ++ recorded).rtake kMaxHistory := by
  induction cs generalizing h events with
  | nil => exact ⟨[], rfl, by rw [List.append_nil]; exact hstart⟩
  | cons c cs ih =>
    obtain ⟨-, evt, htime, -, hrecord⟩ := command_records h c.2.1 c.2.2.1 c.2.2.2.1 c.2.2.2.2 c.1
    rw [hstart, Newest.keep_rtake] at hrecord
    obtain ⟨recorded, htimes, hrun⟩ := ih _ hrecord
    refine ⟨evt :: recorded, by rw [List.map_cons, List.map_cons, htime, htimes], ?_⟩
    rw [List.append_assoc, List.singleton_append] at hrun
    exact hrun

end

/-! ## The reports -/

section
variable {Backend Time : Type} (h : RedundancyHandler Backend Time) (isoDate : Time → String) (id : String)

/-- A limit of as many events reports them all. -/
theorem reports_all {params : QJsonObject} (hlimit : h.history.length ≤ toIntD (value params "limit") 100) :
    handleHistory h id params isoDate =
      success id (ofList [("events", .array (h.history.map (eventObject isoDate)))]) := by
  have hstart : (max 0 (h.history.length - toIntD (value params "limit") 100)).toNat = 0 := by omega
  simp only [handleHistory, hstart, List.drop_zero]

/-- The events of a report. -/
def events (report : QJsonObject) : QJsonValue := value (toObject (value report "result")) "events"

theorem events_success (vs : List QJsonValue) : events (success id (ofList [("events", .array vs)])) = .array vs := by
  have hresult : value (success id (ofList [("events", .array vs)])) "result" =
      .object (ofList [("events", .array vs)]) := by
    simp [FoE.success, ofList, value_insert]
  have hevents : value (ofList [("events", .array vs)]) "events" = .array vs := by
    simp [ofList, value_insert]
  rw [events, hresult, toObject, hevents]

/-- Two histories are told apart by their reports iff they are by the events they show. -/
theorem same_reports_iff {h h' : RedundancyHandler Backend Time} (hlength : h.history.length ≤ kMaxHistory)
    (hlength' : h'.history.length ≤ kMaxHistory) :
    (∀ id params, handleHistory h id params isoDate = handleHistory h' id params isoDate) ↔
      h.history.map (eventObject isoDate) = h'.history.map (eventObject isoDate) := by
  constructor
  · intro hsame
    have hlimit : toIntD (value [("limit", .int 500)] "limit") 100 = 500 := rfl
    have hreport := hsame "" [("limit", .int 500)]
    unfold kMaxHistory at hlength hlength'
    rw [reports_all h isoDate "" (by rw [hlimit]; omega), reports_all h' isoDate "" (by rw [hlimit]; omega)] at hreport
    have hevents := congrArg events hreport
    rw [events_success, events_success] at hevents
    exact QJsonValue.array.inj hevents
  · intro hsame id params
    have hcount : h.history.length = h'.history.length := by
      rw [← List.length_map (eventObject isoDate), hsame, List.length_map]
    simp only [handleHistory, List.map_drop, hsame, hcount]

end

end NekoEcat.L2.Redundancy
