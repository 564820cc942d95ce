import NekoEcat.Core.Patch
import NekoEcat.L4Gui.Consistency

/-!
# The difference of two topologies

`detectTopologyChanges` compares two lists of slaves by their positions, each
through a hash. Of a slave that is in both lists three fields are compared.

* `detect_evidence`: the changes as the consistency check sees them.
* `reported_at_iff`: what is reported of a position, read off the two slaves there.
* `replay_detect`: the changes turn the one topology into the other.
* `diff_faithful`: these together, and what becomes of them in the other direction.
-/
namespace NekoEcat.L4.TopologyDiff
open NekoEcat.Assoc NekoEcat.Patch
open NekoEcat.L4.ProjectFile (SlaveInfo)
open NekoEcat.L4.Consistency (TopologyChangeKind slaveAt)

/-- A slave that is not filled in. -/
def noSlave : SlaveInfo := { position := -1, state := "", flags := "", name := "", rawLine := "" }

/-- mirrors apps/ecat-studio/models/TopologyModel.h:45-50 -/
structure TopologyChange where
  kind : TopologyChangeKind
  position : Int32
  previous : SlaveInfo := noSlave
  current : SlaveInfo := noSlave
  deriving DecidableEq

/-- `QHash::insert` of every slave -/
def byPosition (slaves : List SlaveInfo) : QHash Int32 SlaveInfo :=
  QHash.insertEach (fun slave => some (slave.position, slave)) QHash.empty slaves

/-- The change of one field. -/
def fieldChange (kind : TopologyChangeKind) (field : SlaveInfo → String) (previous current : SlaveInfo) :
    List TopologyChange :=
  if field previous ≠ field current then [{ kind, position := current.position, previous, current }] else []

/-- The changes of a slave that is there now. -/
def slaveChanges (before : QHash Int32 SlaveInfo) (current : SlaveInfo) : List TopologyChange :=
  match before.value current.position with
  | none => [{ kind := .added, position := current.position, current }]
  | some previous =>
    fieldChange .nameChanged (·.name) previous current ++ fieldChange .stateChanged (·.state) previous current ++
      fieldChange .flagsChanged (·.flags) previous current

def removal (previous : SlaveInfo) : TopologyChange := { kind := .removed, position := previous.position, previous }

/-- mirrors apps/ecat-studio/models/TopologyModel.cpp:85-152 -/
def detectTopologyChanges (previous current : List SlaveInfo) : List TopologyChange :=
  if previous = [] then []
  else
    let before := byPosition previous
    let after := byPosition current
    current.flatMap (slaveChanges before) ++
      (previous.filter fun slave => (after.value slave.position).isNone).map removal

/-! ## Topologies as maps -/

theorem value_byPosition (slaves : List SlaveInfo) (k : Int32) : (byPosition slaves).value k = slaveAt slaves k := by
  induction slaves using List.reverseRecOn with
  | nil => rfl
  | append_singleton slaves slave ih =>
    have hstep : byPosition (slaves ++ [slave]) = (byPosition slaves).insert slave.position slave := by
      simp [byPosition, QHash.insertEach]
    rw [hstep, QHash.value_insert, ih]
    by_cases hk : k = slave.position
    · simp [slaveAt, List.filter_append, hk]
    · have hne : (slave.position == k) = false := beq_eq_false_iff_ne.2 (Ne.symm hk)
      simp [slaveAt, List.filter_append, hk, hne]

/-- The fields that are compared. -/
structure Facts where
  name : String
  state : String
  flags : String
  deriving DecidableEq

def facts (slave : SlaveInfo) : Facts := ⟨slave.name, slave.state, slave.flags⟩

/-- A topology as a map from positions. -/
def view (slaves : List SlaveInfo) (k : Int32) : Option Facts := (slaveAt slaves k).map facts

def Positioned (slaves : List SlaveInfo) : Prop := (slaves.map (·.position)).Nodup

theorem mem_of_slaveAt {slaves : List SlaveInfo} {slave : SlaveInfo} {k : Int32} (h : slaveAt slaves k = some slave) :
    slave ∈ slaves ∧ slave.position = k := by
  have hmem := List.mem_filter.1 (List.mem_of_getLast? h)
  exact ⟨hmem.1, beq_iff_eq.1 hmem.2⟩

/-! ## What is reported -/

/-- The slaves of a position differ so. -/
def Differs : TopologyChangeKind → Option Facts → Option Facts → Prop
  | .added, before, after => before = none ∧ after ≠ none
  | .removed, before, after => before ≠ none ∧ after = none
  | .nameChanged, before, after => ∃ a b, before = some a ∧ after = some b ∧ a.name ≠ b.name
  | .stateChanged, before, after => ∃ a b, before = some a ∧ after = some b ∧ a.state ≠ b.state
  | .flagsChanged, before, after => ∃ a b, before = some a ∧ after = some b ∧ a.flags ≠ b.flags

def Reported (kind : TopologyChangeKind) (k : Int32) (changes : List TopologyChange) : Prop :=
  ∃ change ∈ changes, change.kind = kind ∧ change.position = k

theorem slaveChanges_position (before : QHash Int32 SlaveInfo) (slave : SlaveInfo) :
    ∀ change ∈ slaveChanges before slave, change.position = slave.position := by
  intro change h
  unfold slaveChanges at h
  split at h
  · rw [List.mem_singleton.1 h]
  · simp only [fieldChange, List.mem_append] at h
    rcases h with (h | h) | h <;> split at h
    all_goals
      first
      | rw [List.mem_singleton.1 h]
      | cases h

/-- What a change does to the fields of its position. -/
def applyChange (change : TopologyChange) (at_ : Option Facts) : Option Facts :=
  match change.kind with
  | .added => some (facts change.current)
  | .removed => none
  | .nameChanged => at_.map fun f => { f with name := change.current.name }
  | .stateChanged => at_.map fun f => { f with state := change.current.state }
  | .flagsChanged => at_.map fun f => { f with flags := change.current.flags }

/-- The change of a field sets it. -/
theorem foldl_fieldChange {kind : TopologyChangeKind} {field : SlaveInfo → String} {before slave : SlaveInfo}
    (set : Facts → String → Facts)
    (hset : ∀ f, applyChange { kind, position := slave.position, previous := before, current := slave } (some f) =
      some (set f (field slave))) (f : Facts) (hf : set f (field before) = f) :
    (fieldChange kind field before slave).foldl (fun v change => applyChange change v) (some f) =
      some (set f (field slave)) := by
  unfold fieldChange
  split
  · exact hset f
  · rename_i h
    rw [List.foldl_nil, ← not_not.1 h, hf]

theorem slaveAt_none {slaves : List SlaveInfo} {k : Int32} :
    slaveAt slaves k = none ↔ ∀ slave ∈ slaves, slave.position ≠ k := by
  rw [slaveAt, List.getLast?_eq_none_iff, List.filter_eq_nil_iff]
  simp only [beq_iff_eq, ne_eq]

section
variable {previous current : List SlaveInfo} (hprevious : previous ≠ []) (hp : Positioned previous)
  (hc : Positioned current)

include hprevious hp hc

/-- **The changes of one position** are made from the slaves there. -/
theorem changes_at (k : Int32) :
    ((detectTopologyChanges previous current).filter fun change => change.position = k) =
      match slaveAt current k, slaveAt previous k with
      | some slave, _ => slaveChanges (byPosition previous) slave
      | none, some slave => [removal slave]
      | none, none => [] := by
  have hremoved : ∀ slave, ∀ change ∈ [removal slave], change.position = slave.position :=
    fun slave change h => by rw [List.mem_singleton.1 h]; rfl
  have hmap (slaves : List SlaveInfo) : slaves.map removal = slaves.flatMap fun slave => [removal slave] :=
    List.map_eq_flatMap
  rw [detectTopologyChanges, if_neg hprevious, List.filter_append, hmap]
  simp only [value_byPosition]
  cases hk : slaveAt current k with
  | some slave =>
    obtain ⟨hmem, rfl⟩ := mem_of_slaveAt hk
    rw [filter_flatMap_key (slaveChanges_position _) hc hmem, filter_flatMap_none hremoved, List.append_nil]
    intro other hother heq
    have hnone := (List.mem_filter.1 hother).2
    rw [heq, hk] at hnone
    cases hnone
  | none =>
    rw [filter_flatMap_none (slaveChanges_position _) (slaveAt_none.1 hk), List.nil_append]
    cases hb : slaveAt previous k with
    | none =>
      exact filter_flatMap_none hremoved fun slave hmem => slaveAt_none.1 hb slave (List.mem_filter.1 hmem).1
    | some slave =>
      obtain ⟨hmem, rfl⟩ := mem_of_slaveAt hb
      have hkept : slave ∈ previous.filter fun slave => (slaveAt current slave.position).isNone :=
        List.mem_filter.2 ⟨hmem, by rw [hk]; rfl⟩
      exact filter_flatMap_key hremoved (hp.sublist ((List.filter_sublist).map _)) hkept

/-- What is reported of a position. -/
theorem reported_at_iff (kind : TopologyChangeKind) (k : Int32) :
    Reported kind k (detectTopologyChanges previous current) ↔ Differs kind (view previous k) (view current k) := by
  have hat : Reported kind k (detectTopologyChanges previous current) ↔
      ∃ change ∈ (detectTopologyChanges previous current).filter (fun change => change.position = k),
        change.kind = kind := by
    refine exists_congr fun change => ?_
    rw [List.mem_filter, decide_eq_true_eq]
    tauto
  rw [hat, changes_at hprevious hp hc]
  cases hk : slaveAt current k with
  | none =>
    cases hb : slaveAt previous k with
    | none => cases kind <;> simp [view, hk, hb, Differs]
    | some slave => cases kind <;> simp [view, hk, hb, Differs, removal]
  | some slave =>
    have hposition := (mem_of_slaveAt hk).2
    simp only [slaveChanges, value_byPosition, hposition]
    cases hb : slaveAt previous k with
    | none => cases kind <;> simp [view, hk, hb, Differs]
    | some before =>
      have hfield {kind' : TopologyChangeKind} {field : SlaveInfo → String} :
          (∃ change ∈ fieldChange kind' field before slave, change.kind = kind) ↔
            kind' = kind ∧ field before ≠ field slave := by
        unfold fieldChange
        split
        · simp [*]
        · simp [*]
      simp only [List.mem_append, or_and_right, exists_or, hfield]
      cases kind <;> simp [view, hk, hb, Differs, facts]

/-- **The changes, applied to the topology before, make the one after.** -/
theorem replay_detect :
    patch (·.position) applyChange (view previous) (detectTopologyChanges previous current) = view current := by
  funext k
  rw [patch_apply, changes_at hprevious hp hc]
  cases hk : slaveAt current k with
  | none =>
    cases hb : slaveAt previous k with
    | none => simp [view, hk, hb]
    | some slave => simp [view, hk, removal, applyChange]
  | some slave =>
    have hposition := (mem_of_slaveAt hk).2
    simp only [slaveChanges, value_byPosition, hposition]
    cases hb : slaveAt previous k with
    | none => simp [view, hk, applyChange]
    | some before =>
      simp only [List.foldl_append, view, hb, hk, Option.map_some]
      rw [foldl_fieldChange (fun f name => { f with name }) (fun _ => rfl) _ rfl,
        foldl_fieldChange (fun f state => { f with state }) (fun _ => rfl) _ rfl,
        foldl_fieldChange (fun f flags => { f with flags }) (fun _ => rfl) _ rfl]
      rfl

end

/-! ## Both directions -/

/-- What is reported of a position the other way round. -/
def swap : TopologyChangeKind → TopologyChangeKind
  | .added => .removed
  | .removed => .added
  | kind => kind

theorem differs_swap (kind : TopologyChangeKind) (before after : Option Facts) :
    Differs (swap kind) after before ↔ Differs kind before after := by
  have hfield (f : Facts → String) : (∃ a b, after = some a ∧ before = some b ∧ f a ≠ f b) ↔
      ∃ a b, before = some a ∧ after = some b ∧ f a ≠ f b := by
    constructor
    · rintro ⟨a, b, ha, hb, hne⟩
      exact ⟨b, a, hb, ha, hne.symm⟩
    · rintro ⟨a, b, ha, hb, hne⟩
      exact ⟨b, a, hb, ha, hne.symm⟩
  cases kind with
  | added => exact and_comm
  | removed => exact and_comm
  | nameChanged => exact hfield (·.name)
  | stateChanged => exact hfield (·.state)
  | flagsChanged => exact hfield (·.flags)

/-- Two slaves that do not differ in any way are alike. -/
theorem eq_iff_not_differs {before after : Option Facts} : before = after ↔ ∀ kind, ¬ Differs kind before after := by
  constructor
  · rintro rfl kind h
    cases kind with
    | added => exact h.2 h.1
    | removed => exact h.1 h.2
    | _ =>
      obtain ⟨a, b, ha, hb, hne⟩ := h
      rw [ha] at hb
      cases hb
      exact hne rfl
  · intro h
    cases before with
    | none =>
      cases after with
      | none => rfl
      | some b => exact absurd ⟨rfl, by simp⟩ (h .added)
    | some a =>
      cases after with
      | none => exact absurd ⟨by simp, rfl⟩ (h .removed)
      | some b =>
        have hname : a.name = b.name := not_not.1 fun hne => h .nameChanged ⟨a, b, rfl, rfl, hne⟩
        have hstate : a.state = b.state := not_not.1 fun hne => h .stateChanged ⟨a, b, rfl, rfl, hne⟩
        have hflags : a.flags = b.flags := not_not.1 fun hne => h .flagsChanged ⟨a, b, rfl, rfl, hne⟩
        obtain ⟨name, state, flags⟩ := a
        obtain ⟨name', state', flags'⟩ := b
        simp only at hname hstate hflags
        rw [hname, hstate, hflags]

theorem detect_eq_nil_iff {previous current : List SlaveInfo} (hprevious : previous ≠ []) (hp : Positioned previous)
    (hc : Positioned current) :
    detectTopologyChanges previous current = [] ↔ ∀ k, view previous k = view current k := by
  have hnone : detectTopologyChanges previous current = [] ↔
      ∀ kind k, ¬ Reported kind k (detectTopologyChanges previous current) := by
    constructor
    · rintro h kind k ⟨change, hmem, -⟩
      rw [h] at hmem
      cases hmem
    · intro h
      exact List.eq_nil_iff_forall_not_mem.2 fun change hmem => h _ _ ⟨change, hmem, rfl, rfl⟩
  rw [hnone, forall_comm]
  simp only [reported_at_iff hprevious hp hc, eq_iff_not_differs]

/-- The changes without the slaves are those of the consistency check. -/
theorem detect_evidence (previous current : List SlaveInfo) :
    (detectTopologyChanges previous current).map (fun change => ⟨change.kind, change.position⟩) =
      Consistency.detectTopologyChanges previous current := by
  have hfield {kind : TopologyChangeKind} {field : SlaveInfo → String} {before slave : SlaveInfo} :
      (fieldChange kind field before slave).map (fun change => Consistency.TopologyChange.mk change.kind change.position) =
        if field before ≠ field slave then [⟨kind, slave.position⟩] else [] := by
    unfold fieldChange
    split <;> rfl
  unfold detectTopologyChanges Consistency.detectTopologyChanges
  split
  · rfl
  · simp only [value_byPosition, List.map_append, List.map_flatMap, List.map_map]
    refine congrArg₂ _ (List.flatMap_congr fun slave _ => ?_) rfl
    unfold slaveChanges
    rw [value_byPosition]
    cases slaveAt previous slave.position with
    | none => rfl
    | some before => simp only [List.map_append, hfield]

/-- **The changes are sound and complete**: there are none exactly between topologies
that agree, they turn the one into the other, and the other way round slaves are
added where they were removed, and all else changes where it changed. -/
theorem diff_faithful {previous current : List SlaveInfo} (hprevious : previous ≠ []) (hcurrent : current ≠ [])
    (hp : Positioned previous) (hc : Positioned current) :
    (detectTopologyChanges previous current = [] ↔ ∀ k, view previous k = view current k) ∧
      patch (·.position) applyChange (view previous) (detectTopologyChanges previous current) = view current ∧
      ∀ kind k, Reported (swap kind) k (detectTopologyChanges current previous) ↔
        Reported kind k (detectTopologyChanges previous current) := by
  refine ⟨detect_eq_nil_iff hprevious hp hc, replay_detect hprevious hp hc, fun kind k => ?_⟩
  rw [reported_at_iff hcurrent hc hp, reported_at_iff hprevious hp hc, differs_swap]

def coupler : SlaveInfo := { noSlave with position := 0, name := "EK1100", state := "OP", flags := "+" }

def drive : SlaveInfo := { noSlave with position := 1, name := "AX5103", state := "OP", flags := "+" }

def stopped : SlaveInfo := { drive with state := "PREOP" }

theorem diff_stopped_drive :
    (detectTopologyChanges [coupler, drive] [coupler, stopped] = [] ↔
        ∀ k, view [coupler, drive] k = view [coupler, stopped] k) ∧
      patch (·.position) applyChange (view [coupler, drive])
        (detectTopologyChanges [coupler, drive] [coupler, stopped]) = view [coupler, stopped] ∧
      ∀ kind k, Reported (swap kind) k (detectTopologyChanges [coupler, stopped] [coupler, drive]) ↔
        Reported kind k (detectTopologyChanges [coupler, drive] [coupler, stopped]) :=
  diff_faithful (by decide) (by decide) (by unfold Positioned; decide) (by unfold Positioned; decide)

end NekoEcat.L4.TopologyDiff
