import NekoEcat.L2Daemon.CliAnswers
import NekoEcat.L2Daemon.DcStatus
import NekoEcat.L2Daemon.Registration

/-!
# Live data of the distributed clocks

While Free Run is on, a timer samples the master and sets `rtDataValid_`. Nothing
takes it back: it stays set when Free Run stops, and when another master is started
that was not sampled yet.

* `valid_exec`: the flag is set once there was a sample.
* `reportsLive_iff`: which replies report live data.
* `live_iff`: the runs in which all that do are right.

Limitations: the configuration that `dcConfigure` reads of the ESI XML is given.
-/
namespace NekoEcat.L2.DcLive
open NekoEcat.QJson NekoEcat.Trace NekoEcat.L2.CliAnswers NekoEcat.L2.DcStatus
open NekoEcat.L2.FoE (success failure)

/-- mirrors apps/ecatd/handlers/DcSyncHandler.h:34-40 -/
structure DcConfig where
  assignActivate : UInt32 := 0
  sync0CycleNs : UInt32 := 0
  sync0ShiftNs : Int32 := 0
  sync1CycleNs : UInt32 := 0
  sync1ShiftNs : Int32 := 0

/-- mirrors apps/ecatd/handlers/DcSyncHandler.h:90-99 -/
structure DcSyncHandler where
  refClockTime : UInt32 := 0
  syncMaxDiff : UInt32 := 0
  rtDataValid : Bool := false
  dcActivated : Bool := false
  dcRefClockSlave : Int := -1
  activeDcConfig : DcConfig := {}

/-- Free Run and the handler, in one daemon. -/
structure EcatDaemon where
  freeRun : FreeRunStart.State
  dcSyncHandler : DcSyncHandler := {}
  /-- ghost: how often Free Run took a master -/
  starts : Nat := 0
  /-- ghost: which of them was sampled last -/
  sampled : Option Nat := none

/-- A request, with what the command line answers. -/
inductive Request where
  | dcSyncStatus (id : String) (slaveOutput masterOutput : Text)
  | dcActivate (id : String) (refClockSlave : Int) (slaveOutput : Text)
  | dcDeactivate (id : String)

inductive Ev where
  | freeRun (e : FreeRunStart.Ev)
  /-- the timer; `refTime` and `maxDiff` are what the master tells -/
  | dcPoll (refTime maxDiff : UInt32)
  | dcConfigure (config : DcConfig)
  | request (r : Request)

/-! ## The handler -/

/-- Whether there is something to sample. -/
def sampleable (master : Option Nat) (slaveCount : Nat) : Bool := master.isSome && decide (0 < slaveCount)

/-- mirrors apps/ecatd/handlers/DcSyncHandler.cpp:91-124 -/
def update (master : Option Nat) (slaveCount : Nat) (refTime maxDiff : UInt32) (h : DcSyncHandler) : DcSyncHandler :=
  if sampleable master slaveCount then { h with refClockTime := refTime, syncMaxDiff := maxDiff, rtDataValid := true }
  else h

/-- mirrors apps/ecatd/handlers/DcSyncHandler.cpp:51-87 -/
def handle (id : String) (slaveOutput masterOutput : Text) (h : DcSyncHandler) : QJsonObject :=
  if slaveOutput = [] ∧ masterOutput = [] then
    failure id "Failed to query DC status. Is the EtherCAT master running?"
  else
    success id (ofList [
      ("refClock", .int (detectRefClock masterOutput)),
      ("hasRefClock", .bool (decide (0 ≤ detectRefClock masterOutput))),
      ("slaves", .array ((queryDcStatus slaveOutput).map fun info => .object (slaveInfoToJson info))),
      ("refClockTime", .int h.refClockTime.toNat),
      ("syncMaxDiff", .int h.syncMaxDiff.toNat),
      ("rtDataValid", .bool h.rtDataValid),
      ("dcActivated", .bool h.dcActivated),
      ("dcRefClockSlave", .int h.dcRefClockSlave),
      ("assignActivate", .int h.activeDcConfig.assignActivate.toNat),
      ("sync0CycleNs", .int h.activeDcConfig.sync0CycleNs.toNat)])

/-- The slave asked for, or the first one with a clock. -/
def effectiveRef (refClockSlave : Int) (slaveOutput : Text) : Int :=
  if refClockSlave < 0 then
    match (queryDcStatus slaveOutput).find? (·.dcCapable) with
    | some info => info.position
    | none => refClockSlave
  else refClockSlave

/-- mirrors apps/ecatd/handlers/DcSyncHandler.cpp:413-471 -/
def handleDcActivate (id : String) (refClockSlave : Int) (slaveOutput : Text) (h : DcSyncHandler) :
    QJsonObject × DcSyncHandler :=
  if effectiveRef refClockSlave slaveOutput < 0 then
    (failure id ("No DC-capable slave found on the bus for reference clock selection. " ++
      "Specify 'refClockSlave' explicitly or ensure a DC-capable slave is connected."), h)
  else
    let h := { h with dcRefClockSlave := effectiveRef refClockSlave slaveOutput, dcActivated := true }
    (success id (ofList [
      ("dcActivated", .bool true),
      ("refClockSlave", .int (effectiveRef refClockSlave slaveOutput)),
      ("ecrtRefSet", .bool h.rtDataValid),
      ("assignActivate", .int h.activeDcConfig.assignActivate.toNat),
      ("sync0CycleNs", .int h.activeDcConfig.sync0CycleNs.toNat)]), h)

/-- mirrors apps/ecatd/handlers/DcSyncHandler.cpp:475-490 -/
def handleDcDeactivate (id : String) (h : DcSyncHandler) : QJsonObject × DcSyncHandler :=
  (success id (ofList [("dcActivated", .bool false), ("message", .string "DC synchronization deactivated.")]),
    { h with dcActivated := false, dcRefClockSlave := -1, activeDcConfig := {} })

/-! ## The daemon -/

/-- The reply to a request, and the handler behind it. -/
def answer (h : DcSyncHandler) : Request → QJsonObject × DcSyncHandler
  | .dcSyncStatus id slaveOutput masterOutput => (handle id slaveOutput masterOutput h, h)
  | .dcActivate id refClockSlave slaveOutput => handleDcActivate id refClockSlave slaveOutput h
  | .dcDeactivate id => handleDcDeactivate id h

/-- mirrors apps/ecatd/EcatDaemon.cpp:63-70 -/
def dcPoll (refTime maxDiff : UInt32) (s : EcatDaemon) : EcatDaemon :=
  let c := s.freeRun.c
  if c.running then
    { s with
      dcSyncHandler := update c.master c.runtimeSlaves.length refTime maxDiff s.dcSyncHandler
      sampled := if sampleable c.master c.runtimeSlaves.length then some s.starts else s.sampled }
  else s

def step (s : EcatDaemon) : Ev → EcatDaemon
  | .freeRun e =>
    let after := FreeRunStart.step s.freeRun e
    { s with freeRun := after, starts := if !s.freeRun.c.running && after.c.running then s.starts + 1 else s.starts }
  | .dcPoll refTime maxDiff => dcPoll refTime maxDiff s
  | .dcConfigure config => { s with dcSyncHandler := { s.dcSyncHandler with activeDcConfig := config } }
  | .request r => { s with dcSyncHandler := (answer s.dcSyncHandler r).2 }

/-- A new daemon; `foreign`: a shared-memory object of that name exists already. -/
def initial (foreign : Bool) : EcatDaemon where
  freeRun := FreeRunStart.initial foreign

/-! ## What is reported -/

/-- The reply says that there is live data. -/
def ReportsLive (reply : QJsonObject) : Prop :=
  toBool (value (result reply) "rtDataValid") = true ∨ toBool (value (result reply) "ecrtRefSet") = true

/-- Free Run is on, and its master was sampled since it was started. -/
def Live (s : EcatDaemon) : Prop := s.freeRun.c.running = true ∧ s.sampled = some s.starts

/-- The reply tells of the flag. -/
def Tells : Request → Prop
  | .dcSyncStatus _ slaveOutput masterOutput => slaveOutput ≠ [] ∨ masterOutput ≠ []
  | .dcActivate _ refClockSlave slaveOutput => 0 ≤ effectiveRef refClockSlave slaveOutput
  | .dcDeactivate _ => False

/-- A request that tells of the flag comes before the first sample, or while there
is live data. -/
def Timely (s : EcatDaemon) : Ev → Prop
  | .request r => Tells r → s.sampled = none ∨ Live s
  | _ => True

theorem not_reportsLive_failure (id message : String) : ¬ ReportsLive (failure id message) := by
  simp [ReportsLive, result, FoE.failure, ofList, value_insert, value_nil, toObject, QJson.toBool]

/-- **The replies that report live data.** -/
theorem reportsLive_iff (h : DcSyncHandler) (r : Request) :
    ReportsLive (answer h r).1 ↔ Tells r ∧ h.rtDataValid = true := by
  cases r with
  | dcSyncStatus id slaveOutput masterOutput =>
    simp only [answer, handle, Tells]
    split
    · rename_i hempty
      exact iff_of_false (not_reportsLive_failure _ _) fun htells => htells.1.elim (absurd hempty.1) (absurd hempty.2)
    · rename_i hsome
      have htells : slaveOutput ≠ [] ∨ masterOutput ≠ [] := Decidable.not_and_iff_not_or_not.1 hsome
      simp [ReportsLive, ofList, value_insert, value_nil, QJson.toBool, htells]
  | dcActivate id refClockSlave slaveOutput =>
    simp only [answer, handleDcActivate, Tells]
    split
    · rename_i hneg
      exact iff_of_false (not_reportsLive_failure _ _) fun htells => absurd htells.1 (Int.not_le.2 hneg)
    · rename_i hpos
      simp [ReportsLive, ofList, value_insert, value_nil, QJson.toBool, Int.not_lt.1 hpos]
  | dcDeactivate id => simp [answer, handleDcDeactivate, Tells, ReportsLive, ofList, value_insert, value_nil, QJson.toBool]

/-- The flag is set iff there was a sample. -/
def Flagged (s : EcatDaemon) : Prop := s.dcSyncHandler.rtDataValid = true ↔ s.sampled ≠ none

theorem answer_valid (h : DcSyncHandler) (r : Request) : (answer h r).2.rtDataValid = h.rtDataValid := by
  cases r with
  | dcSyncStatus id slaveOutput masterOutput => rfl
  | dcActivate id refClockSlave slaveOutput =>
    simp only [answer, handleDcActivate]
    split <;> rfl
  | dcDeactivate id => rfl

theorem flagged_step (s : EcatDaemon) (e : Ev) (h : Flagged s) : Flagged (step s e) := by
  cases e with
  | freeRun e => exact h
  | dcPoll refTime maxDiff =>
    simp only [step, dcPoll]
    split
    · unfold update Flagged
      split
      · simp
      · exact h
    · exact h
  | dcConfigure config => exact h
  | request r =>
    unfold Flagged step
    rw [answer_valid]
    exact h

theorem flagged_exec (foreign : Bool) (evs : List Ev) : Flagged (exec step (initial foreign) evs) := by
  have hinit : Flagged (initial foreign) := ⟨fun h => (nomatch h), fun h => absurd rfl h⟩
  exact List.foldlRecOn evs step hinit fun s hs e _ => flagged_step s e hs

/-- A reply is right iff its request is in time. -/
theorem right_iff {s : EcatDaemon} (h : Flagged s) (r : Request) :
    (ReportsLive (answer s.dcSyncHandler r).1 → Live s) ↔ Timely s (.request r) := by
  rw [reportsLive_iff, Timely]
  constructor
  · intro hright htells
    by_cases hnone : s.sampled = none
    · exact Or.inl hnone
    · exact Or.inr (hright ⟨htells, h.2 hnone⟩)
  · rintro htimely ⟨htells, hvalid⟩
    exact (htimely htells).resolve_left (h.1 hvalid)

/-- **Live data is reported** in a run only while Free Run is on and its master was
sampled since it was started, iff every request that tells of the flag comes before
the first sample or while there is live data. -/
theorem live_iff (foreign : Bool) (evs : List Ev) :
    (∀ pre r, pre ++ [.request r] <+: evs →
        ReportsLive (answer (exec step (initial foreign) pre).dcSyncHandler r).1 → Live (exec step (initial foreign) pre)) ↔
      Along step Timely (initial foreign) evs := by
  rw [along_iff_forall]
  constructor
  · intro h pre e hpre
    cases e with
    | request r => exact (right_iff (flagged_exec foreign pre) r).1 (h pre r hpre)
    | freeRun e => exact trivial
    | dcPoll refTime maxDiff => exact trivial
    | dcConfigure config => exact trivial
  · intro h pre r hpre
    exact (right_iff (flagged_exec foreign pre) r).2 (h pre _ hpre)

/-- Free Run is started, sampled and stopped. -/
def stopped : List Ev :=
  [.freeRun (.start (FreeRunStart.allSucceed (FreeRunStart.txPdo [0x6041])) 0), .dcPoll 100 2, .freeRun .stop]

theorem live_after_stop : ¬ ∀ (foreign : Bool) (evs : List Ev) (pre : List Ev) (r : Request),
    pre ++ [.request r] <+: evs →
      ReportsLive (answer (exec step (initial foreign) pre).dcSyncHandler r).1 → Live (exec step (initial foreign) pre) := by
  intro h
  have hvalid : (exec step (initial false) stopped).dcSyncHandler.rtDataValid = true := rfl
  have hidle : (exec step (initial false) stopped).freeRun.c.running = false := rfl
  have hlive := h false _ stopped (.dcSyncStatus "1" ['x'] []) List.prefix_rfl
    ((reportsLive_iff _ _).2 ⟨Or.inl (List.cons_ne_nil _ _), hvalid⟩)
  rw [Live, hidle] at hlive
  cases hlive.1

end NekoEcat.L2.DcLive
