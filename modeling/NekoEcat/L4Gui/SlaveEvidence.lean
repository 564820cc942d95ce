import NekoEcat.Core.QString
import NekoEcat.Core.SortByKey
import Mathlib.Data.List.Infix
import Mathlib.Data.List.Nodup

/-!
# The evidence matrix of the slaves

Each slave has a row: what it shows of the evidence that is collected for a
commissioning, the risks that follow, what to do next and how urgent that is.
The matrix counts the rows and sorts them, the urgent ones first.

Risks, next action and urgency are read off the same fields by ladders of their
own. The readiness counts the process rows for each slave; the risks and the next
action ask for them in SAFEOP and OP only. Below these states a slave without
them has nothing left to do and is not ready.

* `row_risks_iff`, `row_nextAction_iff`, `row_urgent_iff`, `row_priority_ready_iff`:
  the ladders, each by the risks.
* `build_eq`: what the loop over the slaves collects.
* `evidence_matrix`: rows, order, counters, next actions, no matter in which order
  the slaves come.
* `nothing_left`: a slave with nothing left to do that is not ready.
* `row_percent_iff`, `row_route_iff`: which rows are shown as complete, and which
  stay on the overview.
-/
namespace NekoEcat.L4.SlaveEvidence
open NekoEcat.QString NekoEcat.SortByKey

/-! ## The rows -/

inductive Priority where
  | fault
  | risk
  | action
  | ready
  deriving DecidableEq, Repr

inductive RiskKind where
  | identityMissing
  | odMissing
  | pdoMissing
  | watchMissing
  | processMissing
  | startupDiff
  | pdoMapIssue
  | topologyBaselineIssue
  | driveFault
  deriving DecidableEq, Repr

inductive NextAction where
  | reviewOd
  | loadPdo
  | addWatch
  | reviewStartup
  | validateProcess
  | reviewRisk
  | ready
  deriving DecidableEq, Repr

inductive RouteTarget where
  | overview
  | objectDictionary
  | pdoMap
  | watch
  | startup
  | process
  | stateMachine
  deriving DecidableEq, Repr

/-- mirrors apps/ecat-studio/models/SlaveEvidenceModel.h:56-75 -/
structure Input where
  position : Int
  name : String
  state : String
  identityRows : Int
  odRows : Int
  pdoRows : Int
  watchRows : Int
  watchValueRows : Int
  startupRows : Int
  startupDiffs : Int
  processRows : Int
  mapIssues : Int
  topologyIssue : Bool
  driveFault : Bool
  driveStatusword : String
  driveModeDisplay : String
  driveErrorCode : String
  driveEvidence : String
  deriving DecidableEq

structure Risk where
  kind : RiskKind
  count : Int
  deriving DecidableEq

/-- mirrors apps/ecat-studio/models/SlaveEvidenceModel.h:82-104 -/
structure Row where
  position : Int
  name : String
  state : String
  readiness : Int
  maxReadiness : Int
  identityRows : Int
  odRows : Int
  pdoRows : Int
  watchRows : Int
  watchValueRows : Int
  startupRows : Int
  startupDiffs : Int
  processRows : Int
  mapIssues : Int
  driveStatusword : String
  driveModeDisplay : String
  driveErrorCode : String
  driveEvidence : String
  risks : List Risk
  nextAction : NextAction
  priority : Priority
  deriving DecidableEq

structure Matrix where
  rows : List Row
  readyRows : Nat
  actionRows : Nat
  riskRows : Nat
  evidenceGaps : Nat
  deriving DecidableEq

/-- mirrors apps/ecat-studio/models/SlaveEvidenceModel.cpp:32-44 -/
def slaveEvidencePriorityRank : Priority → Nat
  | .fault => 0
  | .risk => 1
  | .action => 2
  | .ready => 3

/-- mirrors apps/ecat-studio/models/SlaveEvidenceModel.cpp:47-49 -/
def slaveEvidenceReadinessPercent (row : Row) : Int :=
  max 0 (min ((row.readiness * 100).tdiv (max 1 row.maxReadiness)) 100)

/-- The loop over the risks. -/
def riskRoute (hasRisk : Bool) : List Risk → RouteTarget
  | [] => if hasRisk then .stateMachine else .overview
  | risk :: risks =>
    if risk.kind = .pdoMapIssue ∨ risk.kind = .processMissing then .process
    else if risk.kind = .topologyBaselineIssue then .stateMachine
    else riskRoute true risks

/-- mirrors apps/ecat-studio/models/SlaveEvidenceModel.cpp:52-86 -/
def slaveEvidenceRouteTarget (row : Row) : RouteTarget :=
  match row.nextAction with
  | .reviewOd => .objectDictionary
  | .loadPdo => .pdoMap
  | .addWatch => .watch
  | .reviewStartup => .startup
  | .validateProcess => .process
  | .reviewRisk => riskRoute false row.risks
  | .ready => .overview

section
-- `QString::toUpper`
variable (toUpper : String → String)

/-- mirrors apps/ecat-studio/models/SlaveEvidenceModel.cpp:9-13 -/
def stateNeedsPdoOrWatch (state : String) : Bool :=
  let normalized := (toUpper (trimmed state)).toList
  decide ("PREOP".toList <:+: normalized) || decide ("SAFEOP".toList <:+: normalized) ||
    normalized == "OP".toList || "OP ".toList.isPrefixOf normalized

/-- mirrors apps/ecat-studio/models/SlaveEvidenceModel.cpp:16-19 -/
def stateNeedsProcessEvidence (state : String) : Bool :=
  let normalized := (toUpper (trimmed state)).toList
  decide ("SAFEOP".toList <:+: normalized) || normalized == "OP".toList || "OP ".toList.isPrefixOf normalized

/-- `risks->append({kind, count})` under a condition -/
def appendRisk (missing : Bool) (kind : RiskKind) (count : Int) : List Risk :=
  if missing then [⟨kind, count⟩] else []

/-- The risks that are counted as gaps of the evidence.
mirrors apps/ecat-studio/models/SlaveEvidenceModel.cpp:121-140 -/
def evidenceRisks (row : Row) : List Risk :=
  appendRisk (row.identityRows ≤ 0) .identityMissing 0 ++
  appendRisk (row.odRows ≤ 0) .odMissing 0 ++
  appendRisk (stateNeedsPdoOrWatch toUpper row.state && row.pdoRows ≤ 0) .pdoMissing 0 ++
  appendRisk (stateNeedsPdoOrWatch toUpper row.state && row.watchValueRows ≤ 0) .watchMissing 0 ++
  appendRisk (stateNeedsProcessEvidence toUpper row.state && row.processRows ≤ 0) .processMissing 0

/-- mirrors apps/ecat-studio/models/SlaveEvidenceModel.cpp:141-152 -/
def issueRisks (input : Input) (row : Row) : List Risk :=
  appendRisk (0 < row.startupDiffs) .startupDiff row.startupDiffs ++
  appendRisk (0 < row.mapIssues) .pdoMapIssue row.mapIssues ++
  appendRisk input.topologyIssue .topologyBaselineIssue 0 ++
  appendRisk input.driveFault .driveFault 0

/-- mirrors apps/ecat-studio/models/SlaveEvidenceModel.cpp:154-168 -/
def nextActionOf (row : Row) : NextAction :=
  if row.odRows ≤ 0 then .reviewOd
  else if row.pdoRows ≤ 0 then .loadPdo
  else if row.watchValueRows ≤ 0 then .addWatch
  else if 0 < row.startupDiffs then .reviewStartup
  else if row.processRows ≤ 0 ∧ stateNeedsProcessEvidence toUpper row.state then .validateProcess
  else if row.risks ≠ [] then .reviewRisk
  else .ready

/-- mirrors apps/ecat-studio/models/SlaveEvidenceModel.cpp:170-178 -/
def priorityOf (input : Input) (row : Row) : Priority :=
  if input.driveFault ∨ 0 < row.mapIssues ∨ 0 < row.startupDiffs then .fault
  else if row.risks ≠ [] then .risk
  else if row.readiness < row.maxReadiness then .action
  else .ready

/-- `rows > 0 ? 1 : 0` -/
def shown (rows : Int) : Int := if 0 < rows then 1 else 0

/-- The fields that are copied, and the readiness.
mirrors apps/ecat-studio/models/SlaveEvidenceModel.cpp:96-119 -/
def copied (input : Input) : Row where
  position := input.position
  name := trimmed input.name
  state := trimmed input.state
  readiness := 1 + shown input.identityRows + shown input.odRows + shown input.pdoRows +
    shown input.watchValueRows + shown input.processRows
  maxReadiness := 6
  identityRows := input.identityRows
  odRows := input.odRows
  pdoRows := input.pdoRows
  watchRows := input.watchRows
  watchValueRows := input.watchValueRows
  startupRows := input.startupRows
  startupDiffs := input.startupDiffs
  processRows := input.processRows
  mapIssues := input.mapIssues
  driveStatusword := trimmed input.driveStatusword
  driveModeDisplay := trimmed input.driveModeDisplay
  driveErrorCode := trimmed input.driveErrorCode
  driveEvidence := trimmed input.driveEvidence
  risks := []
  nextAction := .reviewOd
  priority := .action

/-- mirrors apps/ecat-studio/models/SlaveEvidenceModel.cpp:95-178 -/
def rowOf (input : Input) : Row :=
  let row := copied input
  let row := { row with risks := evidenceRisks toUpper row ++ issueRisks input row }
  { row with nextAction := nextActionOf toUpper row, priority := priorityOf input row }

/-- The body of the loop.
mirrors apps/ecat-studio/models/SlaveEvidenceModel.cpp:94-188 -/
def addInput (m : Matrix) (input : Input) : Matrix :=
  let row := rowOf toUpper input
  let m := { m with evidenceGaps := m.evidenceGaps + (evidenceRisks toUpper row).length }
  let m :=
    if row.risks ≠ [] then { m with riskRows := m.riskRows + 1 }
    else if row.maxReadiness ≤ row.readiness then { m with readyRows := m.readyRows + 1 }
    else { m with actionRows := m.actionRows + 1 }
  { m with rows := m.rows ++ [row] }

/-- The comparison that sorts the rows.
mirrors apps/ecat-studio/models/SlaveEvidenceModel.cpp:191-203 -/
def less (left right : Row) : Bool :=
  let leftPriority := slaveEvidencePriorityRank left.priority
  let rightPriority := slaveEvidencePriorityRank right.priority
  if leftPriority ≠ rightPriority then decide (leftPriority < rightPriority)
  else if left.risks.length ≠ right.risks.length then decide (right.risks.length < left.risks.length)
  else if left.readiness ≠ right.readiness then decide (left.readiness < right.readiness)
  else decide (left.position < right.position)

/-- mirrors apps/ecat-studio/models/SlaveEvidenceModel.cpp:89-206 -/
def buildSlaveEvidenceMatrix (inputs : List Input) : Matrix :=
  let matrix := inputs.foldl (addInput toUpper) ⟨[], 0, 0, 0, 0⟩
  { matrix with rows := stableSort less matrix.rows }

end

section
variable {toUpper : String → String}

/-! ## The ladders -/

theorem appendRisk_eq_nil_iff {missing : Bool} {kind : RiskKind} {count : Int} :
    appendRisk missing kind count = [] ↔ missing = false := by
  cases missing <;> simp [appendRisk]

/-- When a row has no risks. -/
theorem row_risks_iff (input : Input) :
    (rowOf toUpper input).risks = [] ↔
      (0 < input.identityRows ∧ 0 < input.odRows ∧
        (stateNeedsPdoOrWatch toUpper (trimmed input.state) = true → 0 < input.pdoRows ∧ 0 < input.watchValueRows) ∧
        (stateNeedsProcessEvidence toUpper (trimmed input.state) = true → 0 < input.processRows)) ∧
      input.startupDiffs ≤ 0 ∧ input.mapIssues ≤ 0 ∧ input.topologyIssue = false ∧ input.driveFault = false := by
  simp only [rowOf, evidenceRisks, issueRisks, copied, List.append_eq_nil_iff, appendRisk_eq_nil_iff,
    Bool.and_eq_false_iff]
  grind

theorem row_nextAction_eq (input : Input) :
    (rowOf toUpper input).nextAction =
      if input.odRows ≤ 0 then .reviewOd
      else if input.pdoRows ≤ 0 then .loadPdo
      else if input.watchValueRows ≤ 0 then .addWatch
      else if 0 < input.startupDiffs then .reviewStartup
      else if input.processRows ≤ 0 ∧ stateNeedsProcessEvidence toUpper (trimmed input.state) then .validateProcess
      else if (rowOf toUpper input).risks ≠ [] then .reviewRisk
      else .ready := rfl

theorem row_priority_eq (input : Input) :
    (rowOf toUpper input).priority =
      if input.driveFault ∨ 0 < input.mapIssues ∨ 0 < input.startupDiffs then .fault
      else if (rowOf toUpper input).risks ≠ [] then .risk
      else if (rowOf toUpper input).readiness < (rowOf toUpper input).maxReadiness then .action
      else .ready := rfl

/-- Nothing is left to do without risks and with PDO rows and Watch values. -/
theorem row_nextAction_iff (input : Input) :
    (rowOf toUpper input).nextAction = .ready ↔
      (rowOf toUpper input).risks = [] ∧ 0 < input.pdoRows ∧ 0 < input.watchValueRows := by
  rw [row_nextAction_eq]
  constructor
  · intro h
    split_ifs at h with hod hpdo hwatch hdiffs hprocess hrisks
    exact ⟨not_not.1 hrisks, not_le.1 hpdo, not_le.1 hwatch⟩
  · rintro ⟨hrisks, hpdo, hwatch⟩
    obtain ⟨⟨-, hod, -, hprocess⟩, hdiffs, -⟩ := (row_risks_iff input).1 hrisks
    rw [if_neg (not_le.2 hod), if_neg (not_le.2 hpdo), if_neg (not_le.2 hwatch), if_neg (not_lt.2 hdiffs),
      if_neg fun h => not_le.2 (hprocess h.2) h.1, if_neg (not_not.2 hrisks)]

/-- What makes a row a fault is one of its risks. -/
theorem fault_risk {input : Input} (h : input.driveFault ∨ 0 < input.mapIssues ∨ 0 < input.startupDiffs) :
    (rowOf toUpper input).risks ≠ [] := by
  intro hrisks
  obtain ⟨-, hdiffs, hmap, -, hdrive⟩ := (row_risks_iff input).1 hrisks
  rw [hdrive] at h
  rcases h with h | h | h
  · exact Bool.false_ne_true h
  · exact not_lt.2 hmap h
  · exact not_lt.2 hdiffs h

theorem row_priority_of_risks {input : Input} (hrisks : (rowOf toUpper input).risks ≠ []) :
    (rowOf toUpper input).priority = .fault ∨ (rowOf toUpper input).priority = .risk := by
  rw [row_priority_eq, if_pos hrisks]
  split_ifs
  · exact Or.inl rfl
  · exact Or.inr rfl

theorem row_priority_of_no_risks {input : Input} (hrisks : (rowOf toUpper input).risks = []) :
    (rowOf toUpper input).priority =
      if (rowOf toUpper input).maxReadiness ≤ (rowOf toUpper input).readiness then .ready else .action := by
  rw [row_priority_eq, if_neg fun h => fault_risk h hrisks, if_neg (not_not.2 hrisks)]
  split_ifs
  all_goals first | rfl | omega

/-- Complete is a row that has all its evidence. -/
theorem row_complete_iff (input : Input) :
    (rowOf toUpper input).maxReadiness ≤ (rowOf toUpper input).readiness ↔
      0 < input.identityRows ∧ 0 < input.odRows ∧ 0 < input.pdoRows ∧ 0 < input.watchValueRows ∧
        0 < input.processRows := by
  simp only [rowOf, copied, shown]
  grind

theorem row_urgent_iff (input : Input) :
    (rowOf toUpper input).priority = .fault ∨ (rowOf toUpper input).priority = .risk ↔
      (rowOf toUpper input).risks ≠ [] := by
  refine ⟨fun h hrisks => ?_, row_priority_of_risks⟩
  rw [row_priority_of_no_risks hrisks] at h
  split_ifs at h
  all_goals simp at h

theorem row_priority_ready_iff (input : Input) :
    (rowOf toUpper input).priority = .ready ↔
      (rowOf toUpper input).risks = [] ∧ (rowOf toUpper input).maxReadiness ≤ (rowOf toUpper input).readiness := by
  by_cases hrisks : (rowOf toUpper input).risks = []
  · simp [row_priority_of_no_risks hrisks, hrisks]
  · rcases row_priority_of_risks hrisks with h | h
    all_goals simp [h, hrisks]

/-- Nothing is left to do for the rows that are ready and for those that lack the
process rows only, in a state that does not need them. -/
theorem row_nextAction_ready (input : Input) :
    (rowOf toUpper input).nextAction = .ready ↔
      (rowOf toUpper input).priority = .ready ∨
        (rowOf toUpper input).priority = .action ∧ 0 < input.pdoRows ∧ 0 < input.watchValueRows ∧
          input.processRows ≤ 0 ∧ stateNeedsProcessEvidence toUpper (trimmed input.state) = false := by
  rw [row_nextAction_iff]
  by_cases hrisks : (rowOf toUpper input).risks = []
  · obtain ⟨⟨hidentity, hod, -, hprocess⟩, -⟩ := (row_risks_iff input).1 hrisks
    rw [row_priority_of_no_risks hrisks]
    simp only [row_complete_iff, hrisks, hidentity, hod]
    grind
  · rcases row_priority_of_risks hrisks with h | h
    all_goals simp [h, hrisks]

/-! ## The matrix -/

def isUrgent (row : Row) : Bool := decide (row.priority = .fault ∨ row.priority = .risk)

def isAction (row : Row) : Bool := decide (row.priority = .action)

def isReady (row : Row) : Bool := decide (row.priority = .ready)

/-- The rows and the counters that the loop adds for a list of rows. -/
def counted (toUpper : String → String) (rows : List Row) : Matrix where
  rows := rows
  readyRows := rows.countP isReady
  actionRows := rows.countP isAction
  riskRows := rows.countP isUrgent
  evidenceGaps := (rows.map fun row => (evidenceRisks toUpper row).length).sum

theorem addInput_counted (rows : List Row) (input : Input) :
    addInput toUpper (counted toUpper rows) input = counted toUpper (rows ++ [rowOf toUpper input]) := by
  simp only [addInput, counted, List.countP_append, List.countP_singleton, List.map_append, List.map_singleton,
    List.sum_append, List.sum_singleton, isUrgent, isAction, isReady]
  by_cases hrisks : (rowOf toUpper input).risks = []
  · have hpriority := row_priority_of_no_risks hrisks
    by_cases hcomplete : (rowOf toUpper input).maxReadiness ≤ (rowOf toUpper input).readiness
    · rw [if_pos hcomplete] at hpriority
      simp [hrisks, hcomplete, hpriority]
    · rw [if_neg hcomplete] at hpriority
      simp [hrisks, hcomplete, hpriority]
  · rcases row_priority_of_risks hrisks with hpriority | hpriority
    all_goals simp [hrisks, hpriority]

theorem collect_eq (rows : List Row) (inputs : List Input) :
    inputs.foldl (addInput toUpper) (counted toUpper rows) =
      counted toUpper (rows ++ inputs.map (rowOf toUpper)) := by
  induction inputs generalizing rows with
  | nil => rw [List.foldl_nil, List.map_nil, List.append_nil]
  | cons input inputs ih =>
    rw [List.foldl_cons, addInput_counted, ih, List.map_cons, List.append_assoc, List.singleton_append]

/-- The counters are those of the rows, sorted or not. -/
theorem build_eq (inputs : List Input) :
    buildSlaveEvidenceMatrix toUpper inputs = counted toUpper (stableSort less (inputs.map (rowOf toUpper))) := by
  have hloop : inputs.foldl (addInput toUpper) (counted toUpper []) =
      counted toUpper ([] ++ inputs.map (rowOf toUpper)) := collect_eq [] inputs
  have hperm := stableSort_perm less (inputs.map (rowOf toUpper))
  have hstart : counted toUpper [] = ⟨[], 0, 0, 0, 0⟩ := rfl
  rw [hstart, List.nil_append] at hloop
  rw [buildSlaveEvidenceMatrix, hloop]
  simp only [counted, hperm.countP_eq, (hperm.map _).sum_nat]

/-- Each row is of one of the three kinds. -/
theorem urgent_add_action_add_ready (rows : List Row) :
    rows.countP isUrgent + rows.countP isAction + rows.countP isReady = rows.length := by
  induction rows with
  | nil => rfl
  | cons row rows ih =>
    rw [List.countP_cons, List.countP_cons, List.countP_cons, List.length_cons, ← ih]
    cases h : row.priority
    all_goals simp [isUrgent, isAction, isReady, h]
    all_goals omega

theorem rows_perm (inputs : List Input) :
    (buildSlaveEvidenceMatrix toUpper inputs).rows.Perm (inputs.map (rowOf toUpper)) := by
  rw [build_eq]
  exact stableSort_perm less _

theorem mem_rows_iff {inputs : List Input} {row : Row} :
    row ∈ (buildSlaveEvidenceMatrix toUpper inputs).rows ↔ ∃ input ∈ inputs, rowOf toUpper input = row :=
  (rows_perm inputs).mem_iff.trans List.mem_map

/-- The keys by which the rows are sorted: the most urgent ones first, of these
those with the most risks, of these the least complete ones, then by position. -/
def sortKey (row : Row) : Nat ×ₗ Natᵒᵈ ×ₗ Int ×ₗ Int :=
  toLex (slaveEvidencePriorityRank row.priority,
    toLex (OrderDual.toDual row.risks.length, toLex (row.readiness, row.position)))

theorem compares_less : Compares less sortKey := by
  intro a b
  simp only [less, sortKey, lt_lex_iff, OrderDual.toDual_lt_toDual, OrderDual.toDual_inj]
  split_ifs
  all_goals simp_all

/-- The order of the rows. -/
theorem key_le {a b : Row} (h : sortKey a ≤ sortKey b) :
    slaveEvidencePriorityRank a.priority ≤ slaveEvidencePriorityRank b.priority ∧
      (a.priority = b.priority → b.risks.length ≤ a.risks.length) := by
  unfold sortKey at h
  rw [Prod.Lex.toLex_le_toLex, Prod.Lex.toLex_le_toLex] at h
  rcases h with hlt | ⟨heq, hle⟩
  · refine ⟨hlt.le, fun hsame => ?_⟩
    rw [hsame] at hlt
    exact absurd hlt (lt_irrefl _)
  · refine ⟨heq.le, fun _ => ?_⟩
    rcases hle with hlt | ⟨hsize, -⟩
    · exact (OrderDual.toDual_lt_toDual.1 hlt).le
    · exact (OrderDual.toDual_inj.1 hsize).ge

theorem key_position {a b : Row} (h : sortKey a = sortKey b) : a.position = b.position := by
  simp only [sortKey, toLex_inj, Prod.mk.injEq] at h
  exact h.2.2.2

/-- Slaves at positions of their own have rows with keys of their own. -/
theorem build_of_perm {inputs inputs' : List Input} (hpositions : (inputs.map Input.position).Nodup)
    (hperm : inputs.Perm inputs') :
    buildSlaveEvidenceMatrix toUpper inputs = buildSlaveEvidenceMatrix toUpper inputs' := by
  rw [build_eq, build_eq]
  rw [stableSort_of_perm compares_less ?_ (hperm.map (rowOf toUpper))]
  intro a ha b hb hkey
  obtain ⟨i, hi, rfl⟩ := List.mem_map.1 ha
  obtain ⟨j, hj, rfl⟩ := List.mem_map.1 hb
  have hposition : i.position = j.position := key_position hkey
  rw [List.inj_on_of_nodup_map hpositions hi hj hposition]

/-- What a matrix says about the slaves. -/
structure Shows (toUpper : String → String) (inputs : List Input) (m : Matrix) : Prop where
  /-- one row for each slave -/
  rows : m.rows.Perm (inputs.map (rowOf toUpper))
  sorted : m.rows.Pairwise fun a b =>
    slaveEvidencePriorityRank a.priority ≤ slaveEvidencePriorityRank b.priority ∧
      (a.priority = b.priority → b.risks.length ≤ a.risks.length)
  riskRows : m.riskRows = m.rows.countP isUrgent
  actionRows : m.actionRows = m.rows.countP isAction
  readyRows : m.readyRows = m.rows.countP isReady
  sum : m.riskRows + m.actionRows + m.readyRows = inputs.length
  /-- Nothing is left to do for the rows that are ready and for those that lack the
  process rows only, where these are not needed. -/
  nextAction : ∀ row ∈ m.rows, row.nextAction = .ready ↔
    row.priority = .ready ∨
      row.priority = .action ∧ 0 < row.pdoRows ∧ 0 < row.watchValueRows ∧ row.processRows ≤ 0 ∧
        stateNeedsProcessEvidence toUpper row.state = false
  /-- Slaves at positions of their own may come in any order. -/
  anyOrder : (inputs.map Input.position).Nodup → ∀ inputs', inputs.Perm inputs' →
    buildSlaveEvidenceMatrix toUpper inputs' = m

variable (toUpper) in
theorem evidence_matrix (inputs : List Input) : Shows toUpper inputs (buildSlaveEvidenceMatrix toUpper inputs) where
  rows := rows_perm inputs
  sorted := by
    rw [build_eq]
    exact (pairwise_stableSort compares_less).imp key_le
  riskRows := by rw [build_eq, counted]
  actionRows := by rw [build_eq, counted]
  readyRows := by rw [build_eq, counted]
  sum := by
    have hlength : (buildSlaveEvidenceMatrix toUpper inputs).rows.length = inputs.length := by
      rw [(rows_perm inputs).length_eq, List.length_map]
    rw [← hlength, build_eq]
    exact urgent_add_action_add_ready _
  nextAction := by
    intro row hrow
    obtain ⟨input, -, rfl⟩ := mem_rows_iff.1 hrow
    exact row_nextAction_ready input
  anyOrder := fun hpositions _ h => (build_of_perm hpositions h).symm

def asciiUpper (s : String) : String := String.ofList (s.toList.map Char.toUpper)

/-- A slave in PREOP with all the evidence but the process rows. -/
def preop : Input :=
  { position := 1, name := "Drive", state := "PREOP", identityRows := 4, odRows := 20, pdoRows := 8, watchRows := 3,
    watchValueRows := 3, startupRows := 0, startupDiffs := 0, processRows := 0, mapIssues := 0, topologyIssue := false,
    driveFault := false, driveStatusword := "", driveModeDisplay := "", driveErrorCode := "", driveEvidence := "" }

/-- Nothing is left to do for a row that is not ready. -/
theorem nothing_left :
    ∃ row ∈ (buildSlaveEvidenceMatrix asciiUpper [preop]).rows, ¬ (row.nextAction = .ready ↔ row.priority = .ready) :=
  ⟨rowOf asciiUpper preop, mem_rows_iff.2 ⟨preop, List.mem_singleton_self _, rfl⟩, by decide +kernel⟩

/-! ## Percentage and route -/

theorem row_readiness_bounds (input : Input) :
    1 ≤ (rowOf toUpper input).readiness ∧ (rowOf toUpper input).readiness ≤ (rowOf toUpper input).maxReadiness := by
  simp only [rowOf, copied, shown]
  grind

/-- The percentage is full for the complete rows only. -/
theorem row_percent_iff (input : Input) :
    slaveEvidenceReadinessPercent (rowOf toUpper input) = 100 ↔
      (rowOf toUpper input).maxReadiness ≤ (rowOf toUpper input).readiness := by
  have hbounds : 1 ≤ (rowOf toUpper input).readiness ∧ (rowOf toUpper input).readiness ≤ 6 :=
    row_readiness_bounds input
  have hmax : (rowOf toUpper input).maxReadiness = 6 := rfl
  have hsix : max (1 : Int) 6 = 6 := rfl
  rw [slaveEvidenceReadinessPercent, hmax, hsix, Int.tdiv_eq_ediv_of_nonneg (by omega)]
  omega

theorem riskRoute_true (risks : List Risk) : riskRoute true risks ≠ .overview := by
  induction risks with
  | nil => simp [riskRoute]
  | cons risk risks ih =>
    unfold riskRoute
    split_ifs
    · simp
    · simp
    · exact ih

theorem riskRoute_overview_iff (risks : List Risk) : riskRoute false risks = .overview ↔ risks = [] := by
  cases risks with
  | nil => simp [riskRoute]
  | cons risk risks =>
    unfold riskRoute
    split_ifs
    · simp
    · simp
    · simp [riskRoute_true]

/-- The rows that stay on the overview are those with nothing left to do. -/
theorem row_route_iff (input : Input) :
    slaveEvidenceRouteTarget (rowOf toUpper input) = .overview ↔ (rowOf toUpper input).nextAction = .ready := by
  have hreview : (rowOf toUpper input).nextAction = .reviewRisk → (rowOf toUpper input).risks ≠ [] := by
    intro h
    rw [row_nextAction_eq] at h
    split_ifs at h with hod hpdo hwatch hdiffs hprocess hrisks
    exact hrisks
  unfold slaveEvidenceRouteTarget
  split
  all_goals rename_i haction
  all_goals simp [haction]
  exact mt (riskRoute_overview_iff _).1 (hreview haction)

end

end NekoEcat.L4.SlaveEvidence
