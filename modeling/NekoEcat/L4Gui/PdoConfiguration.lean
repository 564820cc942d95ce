import NekoEcat.Core.Grouping
import NekoEcat.Core.QHash
import NekoEcat.Core.QNumber
import NekoEcat.Core.Trace

/-!
# The store of PDO configurations

`PdoConfigurationService` keeps mappings, assignments and sync managers of each
slave position. What comes in is checked and takes the place of an entry of the
same key, or goes behind the others. The key of a mapping is its two texts, and
an assignment must not have one text twice, up to the blanks around it; a number
has many texts that pass the check.

* `configure_refused`: what is refused changes nothing.
* `distinct_step`: which calls keep the entries apart as numbers.
* `distinct_iff`: the same for any number of calls.
-/
namespace NekoEcat.L4.PdoConfiguration
open NekoEcat.Grouping NekoEcat.QNumber NekoEcat.QString NekoEcat.Trace

/-! ## Data -/

inductive PdoConfigDirection where
  | input | output
  deriving DecidableEq, Repr

structure PdoMappingConfig where
  index : String
  subIndex : String
  name : String := ""
  bitSize : Int := 0
  dataType : String := ""
  direction : PdoConfigDirection := .input
  deriving DecidableEq, Repr

structure PdoAssignmentConfig where
  smIndex : Int := 0
  pdoIndices : List String := []
  enabled : Bool := true
  deriving DecidableEq, Repr

structure PdoSyncManagerConfig where
  smIndex : Int := 0
  direction : PdoConfigDirection := .input
  startAddress : Int := 0
  length : Int := 0
  enable : Bool := true
  watchdog : Bool := false
  deriving DecidableEq, Repr

structure DcSyncConfig where
  assignActivate : Bool := false
  sync0CycleTime : Int := 0
  sync1CycleTime : Int := 0
  sync0ShiftTime : Int := 0
  sync1ShiftTime : Int := 0
  deriving DecidableEq, Repr

/-- Without `lastApplied` and `lastError`, which no configure call sets. -/
structure PdoConfigurationStatus where
  position : Int := -1
  mappingConfigured : Bool := false
  assignmentConfigured : Bool := false
  syncManagerConfigured : Bool := false
  dcSyncConfigured : Bool := false
  deriving DecidableEq, Repr

structure SlaveConfig where
  mappings : List PdoMappingConfig := []
  assignments : List PdoAssignmentConfig := []
  smConfigs : List PdoSyncManagerConfig := []
  dcSync : DcSyncConfig := {}
  status : PdoConfigurationStatus := {}
  deriving DecidableEq, Repr

/-- The store, and the `configurationError` signals so far. -/
structure Service where
  configs : QHash Int SlaveConfig
  errors : List (Int × String)

def initial : Service := ⟨.empty, []⟩

/-! ## Checks -/

/-- `^0x[0-9A-Fa-f]+$`, on the trimmed text.
mirrors apps/ecat-studio/services/PdoConfigurationService.cpp:11-14 -/
def isHexAddress (value : String) : Bool :=
  match trim value.toList with
  | '0' :: 'x' :: ds => !ds.isEmpty && ds.all (isDigitOf 16)
  | _ => false

/-- mirrors apps/ecat-studio/services/PdoConfigurationService.cpp:191-213 -/
def validateMapping (config : PdoMappingConfig) : Option String :=
  if trimmed config.index = "" then some "PDO index cannot be empty"
  else if isHexAddress config.index = false then some "PDO index must be a hexadecimal address"
  else if trimmed config.subIndex ≠ "" ∧ isHexAddress config.subIndex = false then
    some "PDO sub-index must be a hexadecimal address"
  else if config.bitSize ≤ 0 then some "Bit size must be positive"
  else if config.bitSize > 1500 * 8 then some (arg "Bit size exceeds maximum (%1)" (number (1500 * 8)))
  else none

/-- The loop of `validateAssignment`, with the texts seen so far. -/
def validateIndices : List String → List String → Option String
  | _, [] => none
  | seen, pdoIndex :: rest =>
    let normalized := trimmed pdoIndex
    if normalized = "" then some "PDO assignment index cannot be empty"
    else if isHexAddress normalized = false then some "PDO assignment index must be a hexadecimal address"
    else if normalized ∈ seen then some (arg "PDO assignment contains duplicate index: %1" normalized)
    else validateIndices (normalized :: seen) rest

/-- mirrors apps/ecat-studio/services/PdoConfigurationService.cpp:215-242 -/
def validateAssignment (config : PdoAssignmentConfig) : Option String :=
  if config.smIndex < 0 ∨ config.smIndex > 7 then some (arg "Invalid sync manager index: %1" (number config.smIndex))
  else if config.pdoIndices = [] then some "PDO assignment must contain at least one PDO index"
  else validateIndices [] config.pdoIndices

/-- The checks of `configureSyncManager`. -/
def validateSyncManager (config : PdoSyncManagerConfig) : Option String :=
  if config.smIndex < 0 ∨ config.smIndex > 7 then some (arg "Invalid sync manager index: %1" (number config.smIndex))
  else if config.startAddress < 0 then some "Sync manager start address cannot be negative"
  else if config.enable = true ∧ config.length ≤ 0 then some "Enabled sync manager length must be positive"
  else none

/-- The checks of `configureDcSync`. -/
def validateDcSync (config : DcSyncConfig) : Option String :=
  if config.sync0CycleTime < 0 ∨ config.sync1CycleTime < 0 ∨ config.sync0ShiftTime < 0 ∨ config.sync1ShiftTime < 0 then
    some "DC sync timing values cannot be negative"
  else none

/-! ## Calls -/

/-- `ensureSlave`, as a value: the configuration of a position, or a new one.
mirrors apps/ecat-studio/services/PdoConfigurationService.cpp:182-189 -/
def Service.slave (s : Service) (position : Int) : SlaveConfig :=
  (s.configs.value position).getD { status := { position := position } }

/-- What the configure calls have in common: a position, a check, and a change of
the slave's configuration. -/
def configure (s : Service) (position : Int) (problem : Option String) (change : SlaveConfig → SlaveConfig) :
    Bool × Service :=
  if position < 0 then
    (false, { s with errors := s.errors ++ [(position, arg "Invalid slave position: %1" (number position))] })
  else
    match problem with
    | some error => (false, { s with errors := s.errors ++ [(position, error)] })
    | none => (true, { s with configs := s.configs.insert position (change (s.slave position)) })

def PdoMappingConfig.texts (m : PdoMappingConfig) : String × String := (m.index, m.subIndex)

def SlaveConfig.addMapping (config : PdoMappingConfig) (slave : SlaveConfig) : SlaveConfig :=
  { slave with
    mappings := replace PdoMappingConfig.texts slave.mappings config
    status := { slave.status with mappingConfigured := true } }

def SlaveConfig.addAssignment (config : PdoAssignmentConfig) (slave : SlaveConfig) : SlaveConfig :=
  { slave with
    assignments := replace PdoAssignmentConfig.smIndex slave.assignments config
    status := { slave.status with assignmentConfigured := true } }

def SlaveConfig.addSyncManager (config : PdoSyncManagerConfig) (slave : SlaveConfig) : SlaveConfig :=
  { slave with
    smConfigs := replace PdoSyncManagerConfig.smIndex slave.smConfigs config
    status := { slave.status with syncManagerConfigured := true } }

def SlaveConfig.setDcSync (config : DcSyncConfig) (slave : SlaveConfig) : SlaveConfig :=
  { slave with dcSync := config, status := { slave.status with dcSyncConfigured := true } }

/-- mirrors apps/ecat-studio/services/PdoConfigurationService.cpp:19-43 -/
def configurePdoMapping (s : Service) (position : Int) (config : PdoMappingConfig) : Bool × Service :=
  configure s position (validateMapping config) (.addMapping config)

/-- mirrors apps/ecat-studio/services/PdoConfigurationService.cpp:45-69 -/
def configurePdoAssignment (s : Service) (position : Int) (config : PdoAssignmentConfig) : Bool × Service :=
  configure s position (validateAssignment config) (.addAssignment config)

/-- mirrors apps/ecat-studio/services/PdoConfigurationService.cpp:71-101 -/
def configureSyncManager (s : Service) (position : Int) (config : PdoSyncManagerConfig) : Bool × Service :=
  configure s position (validateSyncManager config) (.addSyncManager config)

/-- mirrors apps/ecat-studio/services/PdoConfigurationService.cpp:103-118 -/
def configureDcSync (s : Service) (position : Int) (config : DcSyncConfig) : Bool × Service :=
  configure s position (validateDcSync config) (.setDcSync config)

inductive Call where
  | mapping (position : Int) (config : PdoMappingConfig)
  | assignment (position : Int) (config : PdoAssignmentConfig)
  | syncManager (position : Int) (config : PdoSyncManagerConfig)
  | dcSync (position : Int) (config : DcSyncConfig)
  deriving DecidableEq, Repr

def run (s : Service) : Call → Bool × Service
  | .mapping position config => configurePdoMapping s position config
  | .assignment position config => configurePdoAssignment s position config
  | .syncManager position config => configureSyncManager s position config
  | .dcSync position config => configureDcSync s position config

def step (s : Service) (c : Call) : Service := (run s c).2

/-! ## What the texts denote -/

/-- The number of an address text; a blank text has none. -/
def addressOf (text : String) : Option Nat := natural 16 text.toList

/-- Index and subindex as numbers. -/
def PdoMappingConfig.object (m : PdoMappingConfig) : Option Nat × Option Nat := (addressOf m.index, addressOf m.subIndex)

structure SlaveConfig.Distinct (slave : SlaveConfig) : Prop where
  mappings : (slave.mappings.map (·.object)).Nodup
  assignments : (slave.assignments.map (·.smIndex)).Nodup
  syncManagers : (slave.smConfigs.map (·.smIndex)).Nodup
  pdos : ∀ a ∈ slave.assignments, (a.pdoIndices.map addressOf).Nodup

/-- No two entries of a slave concern the same, and no assignment has a PDO twice. -/
def Distinct (s : Service) : Prop := ∀ position slave, s.configs.value position = some slave → slave.Distinct

/-- A mapping that is accepted is spelled like the stored one of its object, if
there is one; an assignment that is accepted has no two texts of one number. -/
def Spelled (s : Service) : Call → Prop
  | .mapping position config => 0 ≤ position → validateMapping config = none →
    ∀ m ∈ (s.slave position).mappings, m.object = config.object → m.texts = config.texts
  | .assignment position config => 0 ≤ position → validateAssignment config = none →
    (config.pdoIndices.map addressOf).Nodup
  | .syncManager _ _ => True
  | .dcSync _ _ => True

/-! ## One call -/

theorem configure_refused {s : Service} {position : Int} {problem : Option String} {change : SlaveConfig → SlaveConfig}
    (h : (configure s position problem change).1 = false) : (configure s position problem change).2.configs = s.configs := by
  unfold configure at h ⊢
  split at h
  · rw [if_pos ‹_›]
  · rw [if_neg ‹_›]
    cases problem with
    | some error => rfl
    | none => cases h

theorem run_refused {s : Service} {c : Call} (h : (run s c).1 = false) : (step s c).configs = s.configs := by
  cases c with
  | mapping position config => exact configure_refused h
  | assignment position config => exact configure_refused h
  | syncManager position config => exact configure_refused h
  | dcSync position config => exact configure_refused h

/-- What is stored after a call, when the call keeps the entries of its slave apart
exactly under the condition `P`. -/
theorem distinct_configure {s : Service} {position : Int} {problem : Option String} {change : SlaveConfig → SlaveConfig}
    {P : Prop} (hs : Distinct s) (hP : (s.slave position).Distinct → ((change (s.slave position)).Distinct ↔ P)) :
    Distinct (configure s position problem change).2 ↔ (0 ≤ position → problem = none → P) := by
  have hslave : (s.slave position).Distinct := by
    unfold Service.slave
    cases hv : s.configs.value position with
    | none => exact ⟨List.nodup_nil, List.nodup_nil, List.nodup_nil, fun a ha => absurd ha List.not_mem_nil⟩
    | some slave => exact hs position slave hv
  unfold configure
  split
  · rename_i hneg
    exact iff_of_true hs fun hpos => absurd hpos (by omega)
  · rename_i hpos
    cases problem with
    | some error => exact iff_of_true hs fun _ h => absurd h (by simp)
    | none =>
      rw [← hP hslave]
      constructor
      · intro h _ _
        exact h position _ (by simp)
      · intro h p slave hv
        rw [QHash.value_insert] at hv
        split at hv
        · cases hv
          exact h (by omega) rfl
        · exact hs p slave hv

section
variable {slave : SlaveConfig} (h : slave.Distinct)

include h

theorem distinct_addMapping (config : PdoMappingConfig) :
    (slave.addMapping config).Distinct ↔ ∀ m ∈ slave.mappings, m.object = config.object → m.texts = config.texts := by
  have hobject : ∀ m ∈ slave.mappings, m.texts = config.texts → m.object = config.object := by
    intro m _ heq
    obtain ⟨hi, hj⟩ := Prod.mk.inj heq
    rw [PdoMappingConfig.object, PdoMappingConfig.object, hi, hj]
  have hmap := map_replace PdoMappingConfig.object hobject
  constructor
  · intro hd m hm heq
    have hn : ((replace PdoMappingConfig.texts slave.mappings config).map (·.object)).Nodup := hd.mappings
    rw [hmap] at hn
    split at hn
    · rename_i hmem
      obtain ⟨m', hm', htexts⟩ := List.mem_map.1 hmem
      have hsame : m = m' := List.inj_on_of_nodup_map h.mappings hm hm' (heq.trans (hobject m' hm' htexts).symm)
      rw [hsame, htexts]
    · rw [← List.concat_eq_append] at hn
      exact absurd (List.mem_map.2 ⟨m, hm, heq⟩) ((List.nodup_concat _ _).1 hn).1
  · intro hspelled
    refine ⟨?_, h.assignments, h.syncManagers, h.pdos⟩
    change ((replace PdoMappingConfig.texts slave.mappings config).map (·.object)).Nodup
    rw [hmap]
    split
    · exact h.mappings
    · rename_i hnot
      rw [← List.concat_eq_append]
      refine (List.nodup_concat _ _).2 ⟨fun hmem => hnot ?_, h.mappings⟩
      obtain ⟨m, hm, heq⟩ := List.mem_map.1 hmem
      exact List.mem_map.2 ⟨m, hm, hspelled m hm heq⟩

theorem distinct_addAssignment (config : PdoAssignmentConfig) :
    (slave.addAssignment config).Distinct ↔ (config.pdoIndices.map addressOf).Nodup := by
  constructor
  · intro hd
    exact hd.pdos config (self_mem_replace _ _ _)
  · intro hn
    refine ⟨h.mappings, nodup_replace h.assignments config, h.syncManagers, fun a ha => ?_⟩
    rcases mem_replace ha with rfl | ha
    · exact hn
    · exact h.pdos a ha

theorem distinct_addSyncManager (config : PdoSyncManagerConfig) : (slave.addSyncManager config).Distinct :=
  ⟨h.mappings, h.assignments, nodup_replace h.syncManagers config, h.pdos⟩

theorem distinct_setDcSync (config : DcSyncConfig) : (slave.setDcSync config).Distinct :=
  ⟨h.mappings, h.assignments, h.syncManagers, h.pdos⟩

end

/-- **One call**: the entries stay apart as numbers if and only if the texts are
spelled in one way. -/
theorem distinct_step {s : Service} (h : Distinct s) (c : Call) : Distinct (step s c) ↔ Spelled s c := by
  cases c with
  | mapping position config => exact distinct_configure h fun hslave => distinct_addMapping hslave config
  | assignment position config => exact distinct_configure h fun hslave => distinct_addAssignment hslave config
  | syncManager position config =>
    exact (distinct_configure h fun hslave => iff_true_intro (distinct_addSyncManager hslave config)).trans (by simp [Spelled])
  | dcSync position config =>
    exact (distinct_configure h fun hslave => iff_true_intro (distinct_setDcSync hslave config)).trans (by simp [Spelled])

/-! ## Any number of calls -/

/-- The entries are apart in every state, and no refused call changes what is stored. -/
structure Kept (calls : List Call) : Prop where
  distinct : ∀ pre, pre <+: calls → Distinct (exec step initial pre)
  refused : ∀ pre c, pre ++ [c] <+: calls → (run (exec step initial pre) c).1 = false →
    (exec step initial (pre ++ [c])).configs = (exec step initial pre).configs

/-- **The store, exactly.** After any calls the stored entries are apart as numbers
if and only if every accepted call was spelled like what is stored. -/
theorem distinct_iff (calls : List Call) : Kept calls ↔ Along step Spelled initial calls := by
  have hinitial : Distinct initial := fun position slave h => by simp [initial] at h
  have hrun := along_iff step (J := fun _ => True) (I := Distinct) (G := Spelled) (fun _ _ _ => trivial)
    (fun s c _ h => distinct_step h c) calls trivial hinitial
  refine ⟨fun h => hrun.1 h.distinct, fun h => ⟨hrun.2 h, fun pre c _ hno => ?_⟩⟩
  rw [exec, List.foldl_append]
  exact run_refused hno

/-- The same object, once with a leading zero. -/
def twoSpellings : List Call :=
  [.mapping 0 { index := "0x6000", subIndex := "0x01", bitSize := 16 },
    .mapping 0 { index := "0x06000", subIndex := "0x01", bitSize := 16 }]

/-- **Two mappings of one object** are stored when the texts differ. -/
theorem stored_twice : ¬ Kept twoSpellings := by
  intro h
  have hdistinct := h.distinct twoSpellings List.prefix_rfl
  have hslave := hdistinct 0 ((exec step initial twoSpellings).slave 0) (by decide +kernel)
  exact absurd hslave.mappings (by decide +kernel)

end NekoEcat.L4.PdoConfiguration
