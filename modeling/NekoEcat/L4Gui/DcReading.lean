import NekoEcat.Core.Double
import NekoEcat.L2Daemon.DcLive

/-!
# Reading the DC status

`DcSyncPrecisionService` and `DcSyncPlugin` read the object that `DcSyncHandler`
makes. They look for other keys than it writes: only the drift has one name.

* `service_iff`, `table_iff`: the statuses that each of them reads right.
* `readers_agree_iff`: the output of the command line for which both do.

Limitations: what the service makes of the values (status, statistics, quality) is
left out, and so are the texts of the table's numbers.
-/
namespace NekoEcat.L4.DcReading
open NekoEcat.QJson NekoEcat.QNumber NekoEcat.Regex
open NekoEcat.L2.CliAnswers NekoEcat.L2.CliBackend NekoEcat.L2.DcStatus NekoEcat.L2.DcLive

/-- The values of a slave. -/
structure SlaveValues where
  position : Int
  driftNs : Rat
  /-- least and greatest, if there are any -/
  jitter : Option (Rat × Rat)

structure Status where
  refClock : Int
  slaves : List SlaveValues

/-- What the handler puts into a status. -/
def put (refClock : Int) (infos : List DcSyncSlaveInfo) : Status :=
  ⟨refClock, infos.map fun info => ⟨info.position, info.driftNs, some (info.jitterMinNs, info.jitterMaxNs)⟩⟩

section
variable (parse : String → Rat)

/-- `toDouble()` -/
def toDouble : QJsonValue → Rat
  | .int n => Double.ofInt n
  | .double text => parse text
  | .null | .bool _ | .string _ | .array _ | .object _ => 0

/-- mirrors apps/ecat-studio/services/DcSyncPrecisionService.cpp:56-93 -/
def processData (data : QJsonObject) : Status where
  refClock := toIntD (value data "referenceClockPosition") (-1)
  slaves := (toArray (value data "slaves")).map fun entry =>
    let s := toObject entry
    { position := toIntD (value s "position") 0
      driftNs := toDouble parse (value s "driftNs")
      jitter :=
        if contains s "jitterAvg" then
          some (toDouble parse (value s "jitterMin"), toDouble parse (value s "jitterMax"))
        else none }

/-- A row of the table. -/
structure Row where
  position : Int
  name : String
  dcCapable : Bool
  syncing : Bool
  driftNs : Rat
  jitterMin : Rat
  jitterMax : Rat
  jitterAvg : Rat

structure Table where
  /-- the row of the reference clock -/
  reference : Option (Int × String)
  slaves : List Row

/-- mirrors apps/ecat-studio/plugins/dcsync/DcSyncPlugin.cpp:64-97 -/
def populateTable (data : QJsonObject) : Table where
  reference :=
    let refPos := toIntD (value data "referenceClockPosition") (-1)
    if 0 ≤ refPos then some (refPos, toStringD (value data "referenceClockName") "") else none
  slaves := (toArray (value data "slaves")).map fun entry =>
    let s := toObject entry
    { position := toIntD (value s "position") 0
      name := toStringD (value s "name") ""
      dcCapable := toBool (value s "dcCapable")
      syncing := toBool (value s "syncing")
      driftNs := toDouble parse (value s "driftNs")
      jitterMin := toDouble parse (value s "jitterMin")
      jitterMax := toDouble parse (value s "jitterMax")
      jitterAvg := toDouble parse (value s "jitterAvg") }

end

/-- The status that a table shows. -/
def Table.status (table : Table) : Status :=
  ⟨(table.reference.map (·.1)).getD (-1), table.slaves.map fun row => ⟨row.position, row.driftNs, some (row.jitterMin, row.jitterMax)⟩⟩

/-! ## What is found in the objects -/

section
variable (parse : String → Rat) (info : DcSyncSlaveInfo)

theorem slaveInfo_drift : value (slaveInfoToJson info) "driftNs" = .int info.driftNs := by
  unfold slaveInfoToJson
  split <;> simp [ofList, value_insert]

/-- The keys that are written. -/
theorem slaveInfo_contains {key : String} (h : contains (slaveInfoToJson info) key = true) :
    key ∈ ["pos", "dcCapable", "syncing", "driftNs", "jitterMinNs", "jitterMaxNs", "jitterAvgNs", "refClockName"] := by
  unfold slaveInfoToJson at h
  split at h
  · rw [contains_insert, contains_ofList, Bool.or_eq_true, beq_iff_eq, List.contains_iff_mem] at h
    rcases h with rfl | h
    · decide
    · exact List.mem_append_left ["refClockName"] h
  · rw [contains_ofList, List.contains_iff_mem] at h
    exact List.mem_append_left ["refClockName"] h

theorem slaveInfo_absent {key : String} (h : key ∉ ["pos", "dcCapable", "syncing", "driftNs", "jitterMinNs", "jitterMaxNs",
    "jitterAvgNs", "refClockName"]) : contains (slaveInfoToJson info) key = false :=
  Bool.eq_false_iff.2 fun hcontains => h (slaveInfo_contains info hcontains)

theorem slaveInfo_null {key : String} (h : key ∉ ["pos", "dcCapable", "syncing", "driftNs", "jitterMinNs", "jitterMaxNs",
    "jitterAvgNs", "refClockName"]) : value (slaveInfoToJson info) key = .null := value_absent (slaveInfo_absent info h)

/-- What both find of a reply: no reference clock, and the slaves. -/
theorem handle_reads (id : String) (slaveOutput masterOutput : Text) (h : DcSyncHandler) :
    let data := result (handle id slaveOutput masterOutput h)
    value data "referenceClockPosition" = .null ∧
      toArray (value data "slaves") = (queryDcStatus slaveOutput).map fun info => .object (slaveInfoToJson info) := by
  unfold handle
  split
  · rename_i hempty
    rw [hempty.1]
    simp [result, L2.FoE.failure, ofList, value_insert, value_nil, toObject, toArray, queryDcStatus]
  · rw [result_success]
    refine ⟨value_absent ?_, ?_⟩
    · rw [contains_ofList]
      rfl
    · simp [ofList, value_insert, toArray]

/-- What the service finds of a status. -/
theorem processData_eq (id : String) (slaveOutput masterOutput : Text) (h : DcSyncHandler) :
    processData parse (result (handle id slaveOutput masterOutput h)) =
      ⟨-1, (queryDcStatus slaveOutput).map fun info => ⟨0, Double.ofInt info.driftNs, none⟩⟩ := by
  obtain ⟨hclock, hslaves⟩ := handle_reads id slaveOutput masterOutput h
  unfold processData
  rw [hclock, hslaves, List.map_map]
  refine congrArg (Status.mk (-1)) (List.map_congr_left fun info _ => ?_)
  have hposition : value (slaveInfoToJson info) "position" = .null := slaveInfo_null info (by decide)
  have hjitter : contains (slaveInfoToJson info) "jitterAvg" = false := slaveInfo_absent info (by decide)
  simp only [Function.comp, toObject, slaveInfo_drift, hposition, hjitter]
  rfl

/-- What the table shows of one. -/
theorem populateTable_eq (id : String) (slaveOutput masterOutput : Text) (h : DcSyncHandler) :
    (populateTable parse (result (handle id slaveOutput masterOutput h))).status =
      ⟨-1, (queryDcStatus slaveOutput).map fun info => ⟨0, Double.ofInt info.driftNs, some (0, 0)⟩⟩ := by
  obtain ⟨hclock, hslaves⟩ := handle_reads id slaveOutput masterOutput h
  unfold populateTable Table.status
  rw [hclock, hslaves, List.map_map, List.map_map]
  refine congrArg (Status.mk (-1)) (List.map_congr_left fun info _ => ?_)
  have hposition : value (slaveInfoToJson info) "position" = .null := slaveInfo_null info (by decide)
  have hmin : value (slaveInfoToJson info) "jitterMin" = .null := slaveInfo_null info (by decide)
  have hmax : value (slaveInfoToJson info) "jitterMax" = .null := slaveInfo_null info (by decide)
  simp only [Function.comp, toObject, slaveInfo_drift, hposition, hmin, hmax]
  rfl

end

/-! ## When they agree -/

/-- What is put into the reply. -/
def reported (slaveOutput masterOutput : Text) : Status := put (detectRefClock masterOutput) (queryDcStatus slaveOutput)

/-- The master's output names no reference clock. -/
def NoClock (masterOutput : Text) : Prop := firstMatch dcRefRe masterOutput = none ∧ firstMatch slaveRefRe masterOutput = none

/-- The output about the slaves has no header. -/
def NoSlave (slaveOutput : Text) : Prop := ∀ line ∈ lines slaveOutput, header line = none

theorem captured_dcRef {text : Text} {g : Groups} (h : firstMatch dcRefRe text = some g) : ∀ c ∈ captured g 1, isDec c = true := by
  obtain ⟨a, -, hreads⟩ := firstMatch_reads h
  obtain ⟨_, _, -, -, h₁⟩ := reads_cat_plain rfl hreads
  obtain ⟨_, _, -, -, h₂⟩ := reads_cat_plain rfl h₁
  obtain ⟨_, _, -, -, h₃⟩ := reads_cat_plain rfl h₂
  obtain ⟨_, _, -, -, h₄⟩ := reads_cat_plain rfl h₃
  obtain ⟨t, _, _, rfl, ht⟩ := reads_cat_group h₄
  exact (reads_plus ht).2.1

theorem captured_slaveRef {text : Text} {g : Groups} (h : firstMatch slaveRefRe text = some g) :
    ∀ c ∈ captured g 1, isDec c = true := by
  obtain ⟨a, -, hreads⟩ := firstMatch_reads h
  obtain ⟨_, _, -, -, h₁⟩ := reads_cat_plain rfl hreads
  obtain ⟨_, _, -, -, h₂⟩ := reads_cat_plain rfl h₁
  obtain ⟨t, _, _, rfl, ht⟩ := reads_cat_group h₂
  exact (reads_plus ht).2.1

theorem detectRefClock_iff (masterOutput : Text) : detectRefClock masterOutput = -1 ↔ NoClock masterOutput := by
  have hclock {g : Groups} (hdigits : ∀ c ∈ captured g 1, isDec c = true) : (toInt 10 (captured g 1)).getD 0 ≠ -1 := by
    have hnonneg := toInt_nonneg (by decide) hdigits
    omega
  unfold detectRefClock NoClock
  split
  · rename_i hempty
    rw [hempty]
    exact iff_of_true rfl ⟨rfl, rfl⟩
  · split
    · rename_i g hg
      rw [hg]
      exact iff_of_false (hclock (captured_dcRef hg)) fun h => nomatch h.1
    · rename_i hnone
      rw [hnone]
      split
      · rename_i g hg
        rw [hg]
        exact iff_of_false (hclock (captured_slaveRef hg)) fun h => nomatch h.2
      · rename_i hnone'
        exact iff_of_true rfl ⟨rfl, hnone'⟩

theorem queryDcStatus_iff (slaveOutput : Text) : queryDcStatus slaveOutput = [] ↔ NoSlave slaveOutput := by
  rw [queryDcStatus_eq, List.map_eq_nil_iff]
  unfold NoSlave
  induction lines slaveOutput with
  | nil => exact iff_of_true rfl fun line hline => nomatch hline
  | cons line ls ih =>
    cases hheader : header line with
    | none => rw [sections_detail ls hheader, ih, List.forall_mem_cons, hheader, eq_self, true_and]
    | some info =>
      rw [sections_header ls hheader, List.forall_mem_cons, hheader]
      exact iff_of_false (fun h => nomatch h) fun h => nomatch h.1

section
variable (parse : String → Rat) (id : String) (slaveOutput masterOutput : Text) (h : DcSyncHandler)

/-- The service reads a status right iff there is nothing to read. -/
theorem service_iff : processData parse (result (handle id slaveOutput masterOutput h)) = reported slaveOutput masterOutput ↔
    detectRefClock masterOutput = -1 ∧ queryDcStatus slaveOutput = [] := by
  rw [processData_eq, reported, put, Status.mk.injEq, List.map_inj_left]
  have hnever (info : DcSyncSlaveInfo) : (⟨0, Double.ofInt info.driftNs, none⟩ : SlaveValues) ≠
      ⟨info.position, info.driftNs, some (info.jitterMinNs, info.jitterMaxNs)⟩ := by simp
  refine and_congr eq_comm ⟨fun hsame => ?_, fun hnil info hinfo => ?_⟩
  · exact List.eq_nil_iff_forall_not_mem.2 fun info hinfo => hnever info (hsame info hinfo)
  · rw [hnil] at hinfo
    cases hinfo

/-- The table shows a status right iff there is no reference clock, and each slave
is at position 0, without jitter, and its drift is a double. -/
theorem table_iff : (populateTable parse (result (handle id slaveOutput masterOutput h))).status = reported slaveOutput masterOutput ↔
    detectRefClock masterOutput = -1 ∧ ∀ info ∈ queryDcStatus slaveOutput,
      info.position = 0 ∧ Double.ofInt info.driftNs = info.driftNs ∧ info.jitterMinNs = 0 ∧ info.jitterMaxNs = 0 := by
  rw [populateTable_eq, reported, put, Status.mk.injEq, List.map_inj_left]
  refine and_congr eq_comm (forall₂_congr fun info _ => ?_)
  simp only [SlaveValues.mk.injEq, Option.some.injEq, Prod.mk.injEq, Rat.intCast_inj, eq_comm (a := (0 : Int)),
    eq_comm (a := (0 : Rat)), Rat.intCast_eq_zero_iff]

/-- **Writer and readers agree** on a reply iff it has no reference clock and no
slaves. -/
theorem readers_agree_iff : (processData parse (result (handle id slaveOutput masterOutput h)) = reported slaveOutput masterOutput ∧
      (populateTable parse (result (handle id slaveOutput masterOutput h))).status = reported slaveOutput masterOutput) ↔
    NoClock masterOutput ∧ NoSlave slaveOutput := by
  rw [service_iff, table_iff, ← detectRefClock_iff, ← queryDcStatus_iff]
  refine ⟨fun hboth => hboth.1, fun hnone => ⟨hnone, hnone.1, fun info hinfo => ?_⟩⟩
  rw [hnone.2] at hinfo
  cases hinfo

end

/-- A slave at position 1 is shown at position 0. -/
theorem position_lost : ¬ ∀ (parse : String → Rat) (id : String) (slaveOutput masterOutput : Text) (h : DcSyncHandler),
    processData parse (result (handle id slaveOutput masterOutput h)) = reported slaveOutput masterOutput ∧
      (populateTable parse (result (handle id slaveOutput masterOutput h))).status = reported slaveOutput masterOutput := by
  intro h
  have hboth := h (fun _ => 0) "1" "Alias 0x0000, Position 0x0001".toList [] {}
  rw [processData_eq] at hboth
  have hpositions := congrArg (fun s => s.slaves.map (·.position)) hboth.1
  exact absurd hpositions (by decide)

end NekoEcat.L4.DcReading
