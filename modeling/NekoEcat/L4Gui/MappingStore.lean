import Mathlib.Data.List.Basic
import NekoEcat.Core.QHash
import NekoEcat.Core.QNumber
import NekoEcat.Core.Trace

/-!
# The store of PDO mappings

`PdoMappingService` keeps a list of mappings for each slave. One mapping is put
in the place of the one of its index and subindex; an import and a layout take
the place of the whole list. Each mapping is checked alone: nothing compares the
mappings of a list with each other, nor their sum with the limit that the layout
of a slave is held to.

* `layout_valid_iff`: the layout of a list is valid iff its inputs and its
  outputs are within the limit.
* `bitsOf_upsert`: what one mapping changes in the sums.
* `Safe`: what an operation must bring along.
* `consistent_iff`: a run keeps every slave consistent iff all its operations do.
-/
namespace NekoEcat.L4.MappingStore
open NekoEcat.QJson NekoEcat.QString NekoEcat.QNumber NekoEcat.Trace

/-! ## The data -/

inductive PdoDirection where
  | input
  | output
  deriving DecidableEq, Repr

/-- mirrors apps/ecat-studio/services/PdoMappingService.h:52-61 -/
structure PdoMapping where
  index : String
  subIndex : String
  name : String
  dataType : String
  bitSize : Int
  direction : PdoDirection
  slavePosition : Int
  enabled : Bool
  deriving DecidableEq, Repr

/-- mirrors apps/ecat-studio/services/PdoMappingService.h:64-72 -/
structure PdoEntryLayout where
  index : String
  subIndex : String
  name : String
  dataType : String
  bitSize : Int
  direction : PdoDirection
  enabled : Bool
  deriving DecidableEq, Repr

/-- mirrors apps/ecat-studio/services/PdoMappingService.h:75-81 -/
structure SyncManagerLayout where
  smIndex : Int
  direction : PdoDirection
  pdoEntries : List PdoEntryLayout
  size : Int
  enabled : Bool
  deriving DecidableEq, Repr

structure MappingLayout where
  syncManagers : List SyncManagerLayout
  totalSize : Int
  deriving DecidableEq, Repr

/-- mirrors apps/ecat-studio/services/PdoMappingService.h:93-98 -/
structure PdoValidationResult where
  valid : Bool := true
  errorMessage : String := ""
  totalBitSize : Int := 0
  maxBitSize : Int := 0
  deriving DecidableEq, Repr

structure PdoMappingService where
  mappings : QHash Int (List PdoMapping)

/-- No mappings yet. -/
def started : PdoMappingService := ⟨QHash.empty⟩

def maxBitSize : Int := 1500 * 8

/-! ## The operations -/

def isValidPosition (position : Int) : Bool := decide (0 ≤ position)

/-- `^0x[0-9A-Fa-f]+$` -/
def isHexAddress (value : String) : Bool :=
  match (trimmed value).toList with
  | '0' :: 'x' :: ds => decide (ds ≠ []) && ds.all (isDigitOf 16)
  | _ => false

/-- The first check of a mapping that fails. -/
def mappingError (mapping : PdoMapping) : Option String :=
  if mapping.slavePosition < 0 then some "Slave position must be non-negative"
  else if trimmed mapping.index = "" then some "Index cannot be empty"
  else if !isHexAddress mapping.index then some "Index must be a hexadecimal address"
  else if trimmed mapping.subIndex ≠ "" ∧ !isHexAddress mapping.subIndex then
    some "Sub-index must be a hexadecimal address"
  else if mapping.bitSize ≤ 0 then some "Bit size must be positive"
  else if mapping.bitSize > maxBitSize then some (arg "Bit size exceeds maximum (%1)" (number maxBitSize))
  else none

def currentMappings (s : PdoMappingService) (position : Int) : List PdoMapping := (s.mappings.value position).getD []

/-- The sum is reported, and compared with nothing.
mirrors apps/ecat-studio/services/PdoMappingService.cpp:62-107 -/
def validateMapping (s : PdoMappingService) (mapping : PdoMapping) : PdoValidationResult :=
  match mappingError mapping with
  | some message => { valid := false, errorMessage := message, maxBitSize := maxBitSize }
  | none =>
    match s.mappings.value mapping.slavePosition with
    | none => { maxBitSize := maxBitSize }
    | some ms =>
      { totalBitSize := ((ms.filter (·.enabled)).map (·.bitSize)).sum + mapping.bitSize, maxBitSize := maxBitSize }

/-- The mapping in the place of the first of its index and subindex, or behind all. -/
def upsert (mapping : PdoMapping) : List PdoMapping → List PdoMapping
  | [] => [mapping]
  | m :: ms =>
    if m.index = mapping.index ∧ m.subIndex = mapping.subIndex then mapping :: ms else m :: upsert mapping ms

/-- What an operation leaves, or the error it reports, if it reports one. -/
abbrev Result := Except (Option String) PdoMappingService

def store (s : PdoMappingService) (position : Int) (ms : List PdoMapping) : PdoMappingService :=
  ⟨s.mappings.insert position ms⟩

/-- mirrors apps/ecat-studio/services/PdoMappingService.cpp:33-60 -/
def configureMapping (s : PdoMappingService) (position : Int) (mapping : PdoMapping) : Result :=
  if !isValidPosition position then .error (some (arg "Invalid slave position: %1" (number position)))
  else if mapping.slavePosition ≠ position then
    .error (some "Mapping slave position does not match target position")
  else
    let vr := validateMapping s mapping
    if !vr.valid then .error (some vr.errorMessage)
    else .ok (store s position (upsert mapping (currentMappings s position)))

/-- The mapping that an object of the file stands for. -/
def readMapping (position : Int) (obj : QJsonObject) : PdoMapping where
  index := toStringD (value obj "index") ""
  subIndex := toStringD (value obj "subIndex") ""
  name := toStringD (value obj "name") ""
  dataType := toStringD (value obj "dataType") ""
  bitSize := toIntD (value obj "bitSize") 0
  direction := if toStringD (value obj "direction") "" = "output" then .output else .input
  slavePosition := position
  enabled := match value obj "enabled" with
    | .bool b => b
    | _ => true

/-- Every mapping is checked; the first that fails ends it. -/
def checkEach (s : PdoMappingService) : List PdoMapping → Except (Option String) (List PdoMapping)
  | [] => .ok []
  | m :: ms => do
    let vr := validateMapping s m
    if !vr.valid then .error (some vr.errorMessage)
    else return m :: (← checkEach s ms)

/-- The objects of the file, each read and checked before the next is looked at. -/
def readEach (s : PdoMappingService) (position : Int) : List QJsonValue → Except (Option String) (List PdoMapping)
  | [] => .ok []
  | .object obj :: vs => do
    let m := readMapping position obj
    let vr := validateMapping s m
    if !vr.valid then .error (some vr.errorMessage)
    else return m :: (← readEach s position vs)
  | _ :: _ => .error none

/-- The array of mappings of a file, if it has one. `doc`: what the file parses to,
if it can be read. -/
def fileMappings : Option QJsonValue → Option (List QJsonValue)
  | some (.object root) =>
    match value root "mappings" with
    | .array arr => some arr
    | _ => none
  | _ => none

/-- mirrors apps/ecat-studio/services/PdoMappingService.cpp:144-188 -/
def importMapping (s : PdoMappingService) (position : Int) (filePath : String) (doc : Option QJsonValue) : Result :=
  if !isValidPosition position || filePath.isEmpty then .error none
  else
    match fileMappings doc with
    | none => .error none
    | some arr => do
      let imported ← readEach s position arr
      return store s position imported

/-- mirrors apps/ecat-studio/services/PdoMappingService.cpp:230-246 -/
def validateMappingLayout (layout : MappingLayout) : PdoValidationResult :=
  match layout.syncManagers.find? fun sm => decide (sm.size > maxBitSize) with
  | some sm =>
    { valid := false
      errorMessage := arg (arg (arg "SM%1 total size %2 bits exceeds maximum %3 bits" (number sm.smIndex))
        (number sm.size)) (number maxBitSize)
      totalBitSize := layout.totalSize
      maxBitSize := maxBitSize }
  | none => { totalBitSize := layout.totalSize, maxBitSize := maxBitSize }

/-- The mapping that an entry of a layout stands for. -/
def entryMapping (position : Int) (entry : PdoEntryLayout) : PdoMapping where
  index := entry.index
  subIndex := entry.subIndex
  name := entry.name
  dataType := entry.dataType
  bitSize := entry.bitSize
  direction := entry.direction
  slavePosition := position
  enabled := entry.enabled

/-- The mappings of a layout. -/
def layoutMappings (position : Int) (layout : MappingLayout) : List PdoMapping :=
  layout.syncManagers.flatMap fun sm => sm.pdoEntries.map (entryMapping position)

/-- mirrors apps/ecat-studio/services/PdoMappingService.cpp:248-284 -/
def applyMappingLayout (s : PdoMappingService) (position : Int) (layout : MappingLayout) : Result :=
  if !isValidPosition position then .error (some (arg "Invalid slave position: %1" (number position)))
  else
    let vr := validateMappingLayout layout
    if !vr.valid then .error (some vr.errorMessage)
    else do
      let newMappings ← checkEach s (layoutMappings position layout)
      return store s position newMappings

def smIndexOf (d : PdoDirection) : Int := if d = .output then 2 else 3

def mappingEntry (m : PdoMapping) : PdoEntryLayout :=
  ⟨m.index, m.subIndex, m.name, m.dataType, m.bitSize, m.direction, m.enabled⟩

/-- One mapping added to its sync manager and to the total. -/
def addToLayout (acc : QHash Int SyncManagerLayout × Int) (m : PdoMapping) : QHash Int SyncManagerLayout × Int :=
  let sm := (acc.1.value (smIndexOf m.direction)).getD ⟨smIndexOf m.direction, m.direction, [], 0, true⟩
  (acc.1.insert (smIndexOf m.direction)
    { sm with pdoEntries := sm.pdoEntries ++ [mappingEntry m], size := sm.size + m.bitSize }, acc.2 + m.bitSize)

/-- mirrors apps/ecat-studio/services/PdoMappingService.cpp:194-228 -/
def getMappingLayout (s : PdoMappingService) (position : Int) : MappingLayout :=
  match s.mappings.value position with
  | none => ⟨[], 0⟩
  | some ms =>
    let acc := ms.foldl addToLayout (QHash.empty, 0)
    ⟨acc.1.entries.map (·.2), acc.2⟩

/-! ## The layout of a list -/

/-- The bits of the mappings of one direction. -/
def bitsOf (d : PdoDirection) (ms : List PdoMapping) : Int := ((ms.filter (·.direction = d)).map (·.bitSize)).sum

section
variable (d : PdoDirection) (m : PdoMapping) (ms : List PdoMapping)

@[simp] theorem bitsOf_nil : bitsOf d [] = 0 := rfl

@[simp] theorem bitsOf_cons : bitsOf d (m :: ms) = (if m.direction = d then m.bitSize else 0) + bitsOf d ms := by
  unfold bitsOf
  by_cases h : m.direction = d <;> simp [h]

theorem bitsOf_concat : bitsOf d (ms ++ [m]) = bitsOf d ms + if m.direction = d then m.bitSize else 0 := by
  induction ms with
  | nil => simp
  | cons x ms ih =>
    rw [List.cons_append, bitsOf_cons, bitsOf_cons, ih]
    omega

end

theorem smIndexOf_inj {d d' : PdoDirection} : smIndexOf d = smIndexOf d' ↔ d = d' := by
  cases d <;> cases d' <;> decide

/-- What the sync managers hold after a list: one for each direction in it, as
large as the mappings of the direction. -/
structure Summed (smMap : QHash Int SyncManagerLayout) (ms : List PdoMapping) : Prop where
  size : ∀ d, (((smMap.value (smIndexOf d)).map (·.size)).getD 0) = bitsOf d ms
  index : ∀ i sm, smMap.value i = some sm → ∃ d, i = smIndexOf d

theorem summed_foldl (ms : List PdoMapping) : Summed (ms.foldl addToLayout (QHash.empty, 0)).1 ms := by
  induction ms using List.reverseRecOn with
  | nil => exact ⟨fun d => by simp, fun i sm h => by simp at h⟩
  | append_singleton ms m ih =>
    rw [List.foldl_append, List.foldl_cons, List.foldl_nil]
    generalize ms.foldl addToLayout (QHash.empty, 0) = acc at ih ⊢
    constructor
    · intro d
      rw [bitsOf_concat, ← ih.size d, addToLayout]
      by_cases hd : m.direction = d
      · subst hd
        simp only [QHash.value_insert, if_true, Option.map_some, Option.getD_some]
        cases acc.1.value (smIndexOf m.direction) <;> rfl
      · have hne : smIndexOf d ≠ smIndexOf m.direction := fun h => hd (smIndexOf_inj.1 h).symm
        simp [QHash.value_insert, hne, hd]
    · intro i sm h
      rw [addToLayout, QHash.value_insert] at h
      by_cases hi : i = smIndexOf m.direction
      · exact ⟨m.direction, hi⟩
      · rw [if_neg hi] at h
        exact ih.index i sm h

theorem validateMappingLayout_valid (layout : MappingLayout) :
    (validateMappingLayout layout).valid = true ↔ ∀ sm ∈ layout.syncManagers, sm.size ≤ maxBitSize := by
  unfold validateMappingLayout
  cases hf : layout.syncManagers.find? fun sm => decide (sm.size > maxBitSize) with
  | some sm =>
    have hgt := List.find?_some hf
    rw [decide_eq_true_eq] at hgt
    refine iff_of_false Bool.false_ne_true fun h => ?_
    have hle := h sm (List.mem_of_find?_eq_some hf)
    omega
  | none =>
    refine iff_of_true rfl fun sm hsm => ?_
    have hnot := List.find?_eq_none.1 hf sm hsm
    rw [decide_eq_true_eq] at hnot
    omega

/-- **The layout of a list is valid** iff the mappings of each direction are
within the limit. -/
theorem layout_valid_iff (s : PdoMappingService) (position : Int) :
    (validateMappingLayout (getMappingLayout s position)).valid = true ↔
      ∀ d, bitsOf d (currentMappings s position) ≤ maxBitSize := by
  rw [validateMappingLayout_valid, getMappingLayout, currentMappings]
  cases hms : s.mappings.value position with
  | none => exact iff_of_true (fun sm hsm => absurd hsm List.not_mem_nil) fun d => Int.le_of_lt (by decide : (0 : Int) < maxBitSize)
  | some ms =>
    have hsum := summed_foldl ms
    simp only [Option.getD_some, List.forall_mem_map]
    constructor
    · intro h d
      rw [← hsum.size d]
      cases hv : (ms.foldl addToLayout (QHash.empty, 0)).1.value (smIndexOf d) with
      | none => simp [maxBitSize]
      | some sm => exact h (smIndexOf d, sm) (QHash.mem_iff.2 hv)
    · rintro h ⟨i, sm⟩ he
      have hv := QHash.mem_iff.1 he
      obtain ⟨d, rfl⟩ := hsum.index i sm hv
      have hle := h d
      rw [← hsum.size d, hv] at hle
      exact hle

/-! ## One mapping -/

def keyOf (m : PdoMapping) : String × String := (m.index, m.subIndex)

/-- The mappings of other keys. -/
def others (mapping : PdoMapping) (ms : List PdoMapping) : List PdoMapping := ms.filter fun m => keyOf m ≠ keyOf mapping

section
variable {mapping : PdoMapping} {ms : List PdoMapping}

theorem keyOf_eq {m m' : PdoMapping} : keyOf m = keyOf m' ↔ m.index = m'.index ∧ m.subIndex = m'.subIndex := by
  simp [keyOf]

theorem others_of_not_mem (h : keyOf mapping ∉ ms.map keyOf) : others mapping ms = ms := by
  refine List.filter_eq_self.2 fun m hm => ?_
  rw [decide_eq_true_eq]
  exact fun heq => h (heq ▸ List.mem_map_of_mem hm)

theorem mem_upsert {m : PdoMapping} (h : m ∈ upsert mapping ms) : m = mapping ∨ m ∈ ms := by
  induction ms with
  | nil => simpa [upsert] using h
  | cons x ms ih =>
    unfold upsert at h
    split at h
    · rcases List.mem_cons.1 h with rfl | hm
      · exact Or.inl rfl
      · exact Or.inr (List.mem_cons_of_mem x hm)
    · rcases List.mem_cons.1 h with rfl | hm
      · exact Or.inr List.mem_cons_self
      · exact (ih hm).imp_right (List.mem_cons_of_mem x)

/-- **No key comes twice** by putting one mapping in. -/
theorem nodup_upsert (h : (ms.map keyOf).Nodup) : ((upsert mapping ms).map keyOf).Nodup := by
  induction ms with
  | nil => simp [upsert]
  | cons x ms ih =>
    obtain ⟨hx, hms⟩ := List.nodup_cons.1 h
    unfold upsert
    split
    · rename_i heq
      rw [List.map_cons, List.nodup_cons, ← keyOf_eq.2 heq]
      exact ⟨hx, hms⟩
    · rename_i hne
      rw [List.map_cons, List.nodup_cons]
      refine ⟨fun hmem => ?_, ih hms⟩
      obtain ⟨m, hm, hkey⟩ := List.mem_map.1 hmem
      rcases mem_upsert hm with rfl | hm
      · exact hne (keyOf_eq.1 hkey.symm)
      · exact hx (hkey ▸ List.mem_map_of_mem hm)

/-- **The bits of a direction** after a mapping is put in: those of the other
keys, and its own. -/
theorem bitsOf_upsert (h : (ms.map keyOf).Nodup) (d : PdoDirection) :
    bitsOf d (upsert mapping ms) = bitsOf d (others mapping ms) + if mapping.direction = d then mapping.bitSize else 0 := by
  induction ms with
  | nil => simp [upsert, others]
  | cons x ms ih =>
    obtain ⟨hx, hms⟩ := List.nodup_cons.1 h
    unfold upsert
    by_cases heq : keyOf x = keyOf mapping
    · have hothers : others mapping (x :: ms) = ms := by
        rw [others, List.filter_cons_of_neg (by simpa using heq)]
        exact others_of_not_mem (heq ▸ hx)
      rw [if_pos (keyOf_eq.1 heq), hothers, bitsOf_cons]
      omega
    · have hothers : others mapping (x :: ms) = x :: others mapping ms :=
        List.filter_cons_of_pos (by simpa using heq)
      rw [if_neg (mt keyOf_eq.2 heq), hothers, bitsOf_cons, bitsOf_cons, ih hms]
      omega

theorem bitsOf_others_le (h : ∀ m ∈ ms, 0 < m.bitSize) (d : PdoDirection) : bitsOf d (others mapping ms) ≤ bitsOf d ms := by
  induction ms with
  | nil => simp [others]
  | cons x ms ih =>
    have hx := h x List.mem_cons_self
    have hle := ih fun m hm => h m (List.mem_cons_of_mem x hm)
    rw [others, List.filter_cons]
    split
    · rw [bitsOf_cons, bitsOf_cons]
      exact Int.add_le_add_left hle _
    · rw [bitsOf_cons]
      change bitsOf d (others mapping ms) ≤ _
      split <;> omega

end

/-! ## Runs -/

inductive Op where
  | configure (position : Int) (mapping : PdoMapping)
  | importFile (position : Int) (filePath : String) (doc : Option QJsonValue)
  | apply (position : Int) (layout : MappingLayout)

namespace Op

def run (s : PdoMappingService) : Op → Result
  | configure position mapping => configureMapping s position mapping
  | importFile position filePath doc => importMapping s position filePath doc
  | apply position layout => applyMappingLayout s position layout

/-- The slave whose list is replaced. -/
def position : Op → Int
  | configure position _ => position
  | importFile position _ _ => position
  | apply position _ => position

/-- The mappings that take the place of the list. -/
def brought : Op → List PdoMapping
  | configure _ mapping => [mapping]
  | importFile position _ doc => ((fileMappings doc).getD []).map fun v => readMapping position (toObject v)
  | apply position layout => layoutMappings position layout

/-- The operation is well formed; of a mapping its own fields are checked. -/
def WellFormed : Op → Prop
  | configure position mapping => mapping.slavePosition = position
  | importFile _ filePath doc =>
    filePath ≠ "" ∧ ∃ arr, fileMappings doc = some arr ∧ ∀ v ∈ arr, ∃ obj, v = .object obj
  | apply _ layout => ∀ sm ∈ layout.syncManagers, sm.size ≤ maxBitSize

/-- What is let through. -/
def Accepted (op : Op) : Prop := 0 ≤ op.position ∧ op.WellFormed ∧ ∀ m ∈ op.brought, mappingError m = none

/-- The list after the operation. -/
def stored (s : PdoMappingService) : Op → List PdoMapping
  | configure position mapping => upsert mapping (currentMappings s position)
  | op => op.brought

end Op

section
variable (s : PdoMappingService)

theorem validateMapping_valid (m : PdoMapping) : (validateMapping s m).valid = true ↔ mappingError m = none := by
  unfold validateMapping
  cases mappingError m with
  | some message => simp
  | none => cases s.mappings.value m.slavePosition <;> simp

theorem exceptMap_eq_ok {ε α β : Type} {x : Except ε α} {f : α → β} {b : β} :
    x.map f = .ok b ↔ ∃ a, x = .ok a ∧ b = f a := by
  cases x <;> simp [Except.map, eq_comm]

theorem checkEach_eq_ok {ms ms' : List PdoMapping} :
    checkEach s ms = .ok ms' ↔ ms' = ms ∧ ∀ m ∈ ms, mappingError m = none := by
  induction ms generalizing ms' with
  | nil => simp [checkEach, eq_comm]
  | cons m ms ih =>
    by_cases hm : mappingError m = none
    · have hvalid := (validateMapping_valid s m).2 hm
      have hstep : checkEach s (m :: ms) = (checkEach s ms).map (m :: ·) := by
        simp only [checkEach, hvalid, Bool.not_true, Bool.false_eq_true, if_false]
        rfl
      rw [hstep, exceptMap_eq_ok]
      simp only [ih, List.forall_mem_cons, hm, true_and]
      constructor
      · rintro ⟨r, ⟨rfl, hall⟩, rfl⟩
        exact ⟨rfl, hall⟩
      · rintro ⟨rfl, hall⟩
        exact ⟨ms, ⟨rfl, hall⟩, rfl⟩
    · have hvalid : ¬ (validateMapping s m).valid = true := mt (validateMapping_valid s m).1 hm
      simp [checkEach, hvalid, hm]

theorem readEach_eq_ok {position : Int} {vs : List QJsonValue} {ms : List PdoMapping} :
    readEach s position vs = .ok ms ↔
      (∀ v ∈ vs, ∃ obj, v = .object obj) ∧ ms = vs.map (fun v => readMapping position (toObject v)) ∧
        ∀ v ∈ vs, mappingError (readMapping position (toObject v)) = none := by
  induction vs generalizing ms with
  | nil => simp [readEach, eq_comm]
  | cons v vs ih =>
    cases v with
    | object obj =>
      by_cases hm : mappingError (readMapping position obj) = none
      · have hvalid := (validateMapping_valid s _).2 hm
        have hstep : readEach s position (.object obj :: vs) = (readEach s position vs).map (readMapping position obj :: ·) := by
          simp only [readEach, hvalid, Bool.not_true, Bool.false_eq_true, if_false]
          rfl
        rw [hstep, exceptMap_eq_ok]
        simp only [ih, List.forall_mem_cons, List.map_cons, toObject, hm, true_and]
        constructor
        · rintro ⟨r, ⟨hobj, rfl, hall⟩, rfl⟩
          exact ⟨⟨⟨obj, rfl⟩, hobj⟩, rfl, hall⟩
        · rintro ⟨⟨-, hobj⟩, rfl, hall⟩
          exact ⟨_, ⟨hobj, rfl, hall⟩, rfl⟩
      · have hvalid : ¬ (validateMapping s (readMapping position obj)).valid = true := mt (validateMapping_valid s _).1 hm
        simp [readEach, hvalid, hm, toObject]
    | _ => simp [readEach]

/-- An operation leaves a new list iff it is let through. -/
theorem run_eq_ok {op : Op} {s' : PdoMappingService} :
    op.run s = .ok s' ↔ op.Accepted ∧ s' = store s op.position (op.stored s) := by
  cases op with
  | configure position mapping =>
    change configureMapping s position mapping = .ok s' ↔
      (0 ≤ position ∧ mapping.slavePosition = position ∧ ∀ m ∈ [mapping], mappingError m = none) ∧
        s' = store s position (upsert mapping (currentMappings s position))
    rw [List.forall_mem_singleton, ← validateMapping_valid s]
    unfold configureMapping isValidPosition
    by_cases hpos : 0 ≤ position <;> by_cases hslave : mapping.slavePosition = position <;>
      cases hv : (validateMapping s mapping).valid <;> simp [hpos, hslave, hv, eq_comm]
  | importFile position filePath doc =>
    change importMapping s position filePath doc = .ok s' ↔
      (0 ≤ position ∧ (filePath ≠ "" ∧ ∃ arr, fileMappings doc = some arr ∧ ∀ v ∈ arr, ∃ obj, v = .object obj) ∧
        ∀ m ∈ ((fileMappings doc).getD []).map fun v => readMapping position (toObject v), mappingError m = none) ∧
        s' = store s position (((fileMappings doc).getD []).map fun v => readMapping position (toObject v))
    by_cases hpos : 0 ≤ position
    · by_cases hpath : filePath = ""
      · simp [importMapping, hpath]
      · cases harr : fileMappings doc with
        | none => simp [importMapping, harr]
        | some arr =>
          have hrun : importMapping s position filePath doc = (readEach s position arr).map (store s position) := by
            simp only [importMapping, isValidPosition, hpos, hpath, harr, decide_true, Bool.not_true, Bool.false_or,
              String.isEmpty_iff, if_false]
            rfl
          rw [hrun, exceptMap_eq_ok]
          simp only [readEach_eq_ok, Option.getD_some, List.forall_mem_map]
          constructor
          · rintro ⟨ms, ⟨hobj, rfl, hall⟩, rfl⟩
            exact ⟨⟨hpos, ⟨hpath, arr, rfl, hobj⟩, hall⟩, rfl⟩
          · rintro ⟨⟨-, ⟨-, arr', harr', hobj⟩, hall⟩, rfl⟩
            cases harr'
            exact ⟨_, ⟨hobj, rfl, hall⟩, rfl⟩
    · simp [importMapping, isValidPosition, hpos]
  | apply position layout =>
    change applyMappingLayout s position layout = .ok s' ↔
      (0 ≤ position ∧ (∀ sm ∈ layout.syncManagers, sm.size ≤ maxBitSize) ∧
        ∀ m ∈ layoutMappings position layout, mappingError m = none) ∧ s' = store s position (layoutMappings position layout)
    rw [← validateMappingLayout_valid]
    by_cases hpos : 0 ≤ position
    · cases hv : (validateMappingLayout layout).valid with
      | false => simp [applyMappingLayout, isValidPosition, hpos, hv]
      | true =>
        have hrun : applyMappingLayout s position layout =
            (checkEach s (layoutMappings position layout)).map (store s position) := by
          simp only [applyMappingLayout, isValidPosition, hpos, hv, decide_true, Bool.not_true, Bool.false_eq_true,
            if_false]
          rfl
        rw [hrun, exceptMap_eq_ok]
        simp [checkEach_eq_ok, hpos, and_comm]
    · simp [applyMappingLayout, isValidPosition, hpos]

/-- A refused operation changes nothing. -/
def step (s : PdoMappingService) (op : Op) : PdoMappingService :=
  match op.run s with
  | .ok s' => s'
  | .error _ => s

variable {s} {op : Op}

theorem step_accepted (h : op.Accepted) : step s op = store s op.position (op.stored s) := by
  rw [step, (run_eq_ok s).2 ⟨h, rfl⟩]

theorem step_refused (h : ¬ op.Accepted) : step s op = s := by
  unfold step
  cases hrun : op.run s with
  | ok s' => exact absurd ((run_eq_ok s).1 hrun).1 h
  | error e => rfl

theorem currentMappings_store {p p' : Int} {ms : List PdoMapping} :
    currentMappings (store s p ms) p' = if p' = p then ms else currentMappings s p' := by
  rw [currentMappings, store, QHash.value_insert]
  split <;> rfl

end

/-! ## What the store promises -/

/-- For every slave: no two mappings of one key, and a valid layout. -/
structure Consistent (s : PdoMappingService) : Prop where
  keys : ∀ position, ((currentMappings s position).map keyOf).Nodup
  layout : ∀ position, (validateMappingLayout (getMappingLayout s position)).valid = true

/-- The same for one list. -/
structure Fitting (ms : List PdoMapping) : Prop where
  keys : (ms.map keyOf).Nodup
  bits : ∀ d, bitsOf d ms ≤ maxBitSize

/-- Every mapping has passed its own checks. -/
def Checked (s : PdoMappingService) : Prop := ∀ position, ∀ m ∈ currentMappings s position, mappingError m = none

/-- What the checks of the single mappings leave out: a mapping must leave the bits
of its direction within the limit, a list must have no key twice and both
directions within the limit. -/
def Op.Fits (s : PdoMappingService) : Op → Prop
  | .configure position mapping =>
    bitsOf mapping.direction (others mapping (currentMappings s position)) + mapping.bitSize ≤ maxBitSize
  | op => Fitting op.brought

/-- What is let through fits. -/
def Safe (s : PdoMappingService) (op : Op) : Prop := op.Accepted → op.Fits s

section
variable {s : PdoMappingService} {op : Op}

theorem bitSize_pos {m : PdoMapping} (h : mappingError m = none) : 0 < m.bitSize := by
  grind [mappingError]

theorem checked_step (h : Checked s) : Checked (step s op) := by
  by_cases hacc : op.Accepted
  · intro p m hm
    rw [step_accepted hacc, currentMappings_store] at hm
    split at hm
    · cases op with
      | configure position mapping =>
        rcases mem_upsert hm with rfl | hm
        · exact hacc.2.2 m List.mem_cons_self
        · exact h position m hm
      | importFile position filePath doc => exact hacc.2.2 m hm
      | apply position layout => exact hacc.2.2 m hm
    · exact h p m hm
  · rw [step_refused hacc]
    exact h

theorem consistent_iff_fitting : Consistent s ↔ ∀ position, Fitting (currentMappings s position) := by
  constructor
  · intro h position
    exact ⟨h.keys position, (layout_valid_iff s position).1 (h.layout position)⟩
  · intro h
    exact ⟨fun position => (h position).keys, fun position => (layout_valid_iff s position).2 (h position).bits⟩

theorem consistent_store {p : Int} {ms : List PdoMapping} (h : Consistent s) : Consistent (store s p ms) ↔ Fitting ms := by
  rw [consistent_iff_fitting] at h ⊢
  simp only [currentMappings_store]
  constructor
  · intro hall
    simpa using hall p
  · intro hms p'
    split
    · exact hms
    · exact h p'

theorem fitting_upsert {mapping : PdoMapping} {ms : List PdoMapping} (h : Fitting ms) (hpos : ∀ m ∈ ms, 0 < m.bitSize) :
    Fitting (upsert mapping ms) ↔ bitsOf mapping.direction (others mapping ms) + mapping.bitSize ≤ maxBitSize := by
  constructor
  · intro hup
    have hle := hup.bits mapping.direction
    rw [bitsOf_upsert h.keys, if_pos rfl] at hle
    exact hle
  · intro hle
    refine ⟨nodup_upsert h.keys, fun d => ?_⟩
    rw [bitsOf_upsert h.keys]
    by_cases hd : mapping.direction = d
    · rw [if_pos hd, ← hd]
      exact hle
    · have hothers : bitsOf d (others mapping ms) ≤ bitsOf d ms := bitsOf_others_le hpos d
      have hms := h.bits d
      rw [if_neg hd]
      omega

/-- **One operation** keeps the store consistent iff what it lets through fits. -/
theorem consistent_step (hc : Checked s) (h : Consistent s) : Consistent (step s op) ↔ Safe s op := by
  by_cases hacc : op.Accepted
  · rw [step_accepted hacc, consistent_store h]
    have hfits : Fitting (op.stored s) ↔ op.Fits s := by
      cases op with
      | configure position mapping =>
        exact fitting_upsert (consistent_iff_fitting.1 h position) fun m hm => bitSize_pos (hc position m hm)
      | importFile position filePath doc => exact Iff.rfl
      | apply position layout => exact Iff.rfl
    rw [hfits]
    exact ⟨fun hf _ => hf, fun hf => hf hacc⟩
  · rw [step_refused hacc]
    exact iff_of_true h fun h' => absurd h' hacc

end

/-- **Every state of a run is consistent** iff all that the run lets through fits. -/
theorem consistent_iff (ops : List Op) :
    (∀ pre, pre <+: ops → Consistent (exec step started pre)) ↔ Along step Safe started ops := by
  have hnone : ∀ position, currentMappings started position = [] := fun position => rfl
  have hchecked : Checked started := fun position m hm => by simp [hnone] at hm
  have hfitting : Fitting [] := ⟨List.nodup_nil, fun d => Int.le_of_lt (by decide : (0 : Int) < maxBitSize)⟩
  refine along_iff step (J := Checked) (fun s op => checked_step) (fun s op => consistent_step) ops hchecked ?_
  exact consistent_iff_fitting.2 fun position => hnone position ▸ hfitting

/-- An object of a file. -/
def twice : QJsonValue :=
  .object [("index", .string "0x6000"), ("subIndex", .string "0x01"), ("bitSize", .int 8)]

/-- The mapping that it stands for. -/
def twiceMapping : PdoMapping := ⟨"0x6000", "0x01", "", "", 8, .input, 0, true⟩

theorem twiceMapping_checked : mappingError twiceMapping = none := by
  simp [twiceMapping, mappingError, isHexAddress, trimmed, isSpace, isDigitOf, digitVal, maxBitSize]

/-- A file with one mapping twice is taken over as it is. -/
theorem key_twice : ¬ ∀ ops : List Op, Consistent (exec step started ops) := by
  intro h
  let op := Op.importFile 0 "map.json" (some (.object [("mappings", .array [twice, twice])]))
  have hacc : op.Accepted := by
    refine ⟨Int.le_refl 0, ⟨by simp, [twice, twice], rfl, by simp [twice]⟩, ?_⟩
    have hbrought : op.brought = [twiceMapping, twiceMapping] := rfl
    rw [hbrought]
    simp [twiceMapping_checked]
  have hkeys := (h [op]).keys 0
  have hpos : op.position = 0 := rfl
  have hstored : op.stored started = [twiceMapping, twiceMapping] := rfl
  rw [exec, List.foldl_cons, List.foldl_nil, step_accepted hacc, currentMappings_store, hpos, if_pos rfl, hstored] at hkeys
  simp at hkeys

end NekoEcat.L4.MappingStore
