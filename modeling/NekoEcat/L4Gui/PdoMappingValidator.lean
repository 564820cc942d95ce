import Mathlib.Data.List.Pairwise
import NekoEcat.Core.QString

/-!
# What the validator says of a PDO layout

`PdoMappingValidator` places the enabled entries of each sync manager one behind
the other, from bit 0 on. It compares the ranges of all sync managers with each
other, also of the disabled ones, and the keys of all entries, also of the disabled
ones.

* `overlap_iff`: when an overlap is reported.
* `valid_iff`: when a layout is valid.
* `layout_verdict_iff`: when both are as they should be.

Limitations: bit sizes and offsets are integers without a bound.
-/
namespace NekoEcat.L4.PdoMapping
open NekoEcat.QString

inductive PdoEntryDirection where
  | input
  | output
  deriving DecidableEq

/-- mirrors apps/ecat-studio/plugins/pdomapping/PdoMappingCanvas.h:14-25 -/
structure PdoCanvasEntry where
  index : String
  subIndex : String
  name : String
  bitSize : Int := 0
  direction : PdoEntryDirection := .input
  enabled : Bool := true
  deriving DecidableEq

/-- mirrors apps/ecat-studio/plugins/pdomapping/PdoMappingCanvas.h:27-33 -/
structure SyncManagerBlock where
  index : Int := 0
  entries : List PdoCanvasEntry := []
  enabled : Bool := true
  deriving DecidableEq

inductive ErrorType where
  | sizeExceeded
  | duplicateEntry
  | overlappingAddress
  | missingRequired
  deriving DecidableEq

structure PdoValidationError where
  type : ErrorType
  message : String
  smIndex : Int := -1
  entryIndex : Int := -1

structure PdoValidationReport where
  valid : Bool := true
  errors : List PdoValidationError := []
  totalInputBits : Int := 0
  totalOutputBits : Int := 0

def kMaxBitsPerSm : Int := 1500 * 8

abbrev Layout := List SyncManagerBlock

/-- The entries that count. -/
def SyncManagerBlock.used (sm : SyncManagerBlock) : List PdoCanvasEntry := if sm.enabled then sm.entries.filter (·.enabled) else []

/-- The bits of the entries of a direction.
mirrors apps/ecat-studio/plugins/pdomapping/PdoMappingValidator.cpp:12-24 -/
def totalBits (direction : PdoEntryDirection) (sms : Layout) : Int :=
  (((sms.flatMap (·.used)).filter (·.direction = direction)).map (·.bitSize)).sum

/-! ## The checks -/

/-- mirrors apps/ecat-studio/plugins/pdomapping/PdoMappingValidator.cpp:45-69 -/
def validateSmSize (sms : Layout) : List PdoValidationError :=
  sms.filterMap fun sm =>
    let totalBits := (sm.used.map (·.bitSize)).sum
    if sm.enabled && kMaxBitsPerSm < totalBits then
      some {
        type := .sizeExceeded
        smIndex := sm.index
        message := arg (arg (arg "SM%1 total size %2 bits exceeds maximum %3 bits" (number sm.index)) (number totalBits))
          (number kMaxBitsPerSm) }
    else none

section
variable (upper : String → String)

def PdoCanvasEntry.key (entry : PdoCanvasEntry) : String := upper entry.index ++ "." ++ upper entry.subIndex

/-- One entry, with the keys that were seen.
mirrors apps/ecat-studio/plugins/pdomapping/PdoMappingValidator.cpp:77-90 -/
def checkKey (sm : SyncManagerBlock) (s : List String × List PdoValidationError) (p : PdoCanvasEntry × Nat) :
    List String × List PdoValidationError :=
  let entry := p.1
  if s.1.contains (entry.key upper) then
    (s.1, s.2 ++ [{
      type := .duplicateEntry
      smIndex := sm.index
      entryIndex := p.2
      message := "Duplicate PDO entry " ++ entry.index ++ "." ++ entry.subIndex ++ " (" ++ entry.name ++ ")" }])
  else (entry.key upper :: s.1, s.2)

/-- mirrors apps/ecat-studio/plugins/pdomapping/PdoMappingValidator.cpp:71-95 -/
def validateDuplicates (sms : Layout) : List PdoValidationError :=
  (sms.foldl (fun s sm => sm.entries.zipIdx.foldl (checkKey upper sm) s) ([], [])).2

end

/-- What is carried from entry to entry. -/
structure Ranges where
  inputRanges : List (Int × Int) := []
  outputRanges : List (Int × Int) := []
  errors : List PdoValidationError := []

def Ranges.ranges (s : Ranges) : PdoEntryDirection → List (Int × Int)
  | .input => s.inputRanges
  | .output => s.outputRanges

def Ranges.append (s : Ranges) (range : Int × Int) : PdoEntryDirection → Ranges
  | .input => { s with inputRanges := s.inputRanges ++ [range] }
  | .output => { s with outputRanges := s.outputRanges ++ [range] }

def overlaps (entry : PdoCanvasEntry) : String :=
  match entry.direction with
  | .input => "Input PDO " ++ entry.index ++ "." ++ entry.subIndex ++ " overlaps with another entry"
  | .output => "Output PDO " ++ entry.index ++ "." ++ entry.subIndex ++ " overlaps with another entry"

/-- One entry, with the offset it starts at.
mirrors apps/ecat-studio/plugins/pdomapping/PdoMappingValidator.cpp:104-139 -/
def checkRange (sm : SyncManagerBlock) (s : Ranges × Int) (p : PdoCanvasEntry × Nat) : Ranges × Int :=
  let entry := p.1
  if !entry.enabled then s
  else
    let start := s.2
    let stop := start + entry.bitSize
    let hit := (s.1.ranges entry.direction).filter fun range => decide (start < range.2) && decide (range.1 < stop)
    let errors := hit.map fun _ =>
      { type := .overlappingAddress, smIndex := sm.index, entryIndex := p.2, message := overlaps entry : PdoValidationError }
    (({ s.1 with errors := s.1.errors ++ errors } : Ranges).append (start, stop) entry.direction, stop)

/-- mirrors apps/ecat-studio/plugins/pdomapping/PdoMappingValidator.cpp:97-143 -/
def validateAddresses (sms : Layout) : List PdoValidationError :=
  (sms.foldl (fun s sm => (sm.entries.zipIdx.foldl (checkRange sm) (s, 0)).1) ({} : Ranges)).errors

/-- mirrors apps/ecat-studio/plugins/pdomapping/PdoMappingValidator.cpp:145-177 -/
def validateRequired (sms : Layout) : List PdoValidationError :=
  let has (direction : PdoEntryDirection) : Bool := (sms.flatMap (·.used)).any (·.direction = direction)
  (if has .input then [] else [{ type := .missingRequired, message := "No input (RxPDO) entries configured" }]) ++
    if has .output then [] else [{ type := .missingRequired, message := "No output (TxPDO) entries configured" }]

/-- mirrors apps/ecat-studio/plugins/pdomapping/PdoMappingValidator.cpp:8-43 -/
def validate (upper : String → String) (sms : Layout) : PdoValidationReport :=
  let errors := validateSmSize sms ++ validateDuplicates upper sms ++ validateAddresses sms ++ validateRequired sms
  { valid := errors.isEmpty
    errors := errors
    totalInputBits := totalBits .input sms
    totalOutputBits := totalBits .output sms }

/-! ## Where the entries lie -/

/-- The bits of an entry. -/
structure Range where
  direction : PdoEntryDirection
  start : Int
  stop : Int

/-- An enabled entry in its place. -/
structure Placed extends Range where
  /-- which sync manager -/
  sm : Nat
  /-- whether that is enabled -/
  active : Bool

/-- The enabled entries of a sync manager, from an offset on. -/
def place (sm : Nat) (active : Bool) (offset : Int) : List PdoCanvasEntry → List Placed
  | [] => []
  | entry :: entries =>
    if entry.enabled then
      ⟨⟨entry.direction, offset, offset + entry.bitSize⟩, sm, active⟩ :: place sm active (offset + entry.bitSize) entries
    else place sm active offset entries

def placedFrom (sm : Nat) : Layout → List Placed
  | [] => []
  | block :: sms => place sm block.enabled 0 block.entries ++ placedFrom (sm + 1) sms

def placed (sms : Layout) : List Placed := placedFrom 0 sms

/-- The key of each entry, and whether it counts. -/
def keys (upper : String → String) (sms : Layout) : List (Bool × String) :=
  sms.flatMap fun sm => sm.entries.map fun entry => (sm.enabled && entry.enabled, entry.key upper)

/-- The layout without what is disabled. -/
def enabledPart (sms : Layout) : Layout :=
  (sms.filter (·.enabled)).map fun sm => { sm with entries := sm.entries.filter (·.enabled) }

/-! ## Pairs -/

section
variable {α β : Type} {R S : α → α → Prop} {l : List α}

/-- Some two of the list are related, the earlier one first. -/
def SomePair (R : α → α → Prop) (l : List α) : Prop := ¬ l.Pairwise fun a b => ¬ R a b

instance [DecidableRel R] : Decidable (SomePair R l) := inferInstanceAs (Decidable (¬ _))

theorem somePair_congr (h : ∀ a b, R a b ↔ S a b) : SomePair R l ↔ SomePair S l :=
  not_congr (List.Pairwise.iff fun a b => not_congr (h a b))

theorem somePair_map (f : β → α) {l : List β} : SomePair R (l.map f) ↔ SomePair (fun a b => R (f a) (f b)) l :=
  not_congr List.pairwise_map

theorem somePair_or : SomePair (fun a b => R a b ∨ S a b) l ↔ SomePair R l ∨ SomePair S l := by
  unfold SomePair
  rw [← not_and_or, ← List.pairwise_and_iff]
  exact not_congr (List.Pairwise.iff fun a b => not_or)

/-- A pair with both in `p`, or another one. -/
theorem somePair_filter (p : α → Bool) : SomePair R l ↔
    SomePair R (l.filter p) ∨ SomePair (fun a b => R a b ∧ ¬ (p a = true ∧ p b = true)) l := by
  have hinside : SomePair R (l.filter p) ↔ SomePair (fun a b => R a b ∧ p a = true ∧ p b = true) l := by
    unfold SomePair
    rw [List.pairwise_filter]
    exact not_congr (List.Pairwise.iff fun a b => by tauto)
  rw [hinside, ← somePair_or]
  exact somePair_congr fun a b => by tauto

theorem somePair_concat (b : α) : SomePair R (l ++ [b]) ↔ SomePair R l ∨ ∃ a ∈ l, R a b := by
  unfold SomePair
  rw [List.pairwise_append]
  simp only [List.mem_singleton, forall_eq, List.pairwise_singleton, true_and]
  rw [not_and_or]
  refine or_congr_right ?_
  simp

end

/-- What the validator compares: entries of one direction, wherever they are. -/
def Collide (a b : Range) : Prop := a.direction = b.direction ∧ b.start < a.stop ∧ a.start < b.stop

instance : DecidableRel Collide := fun _ _ => inferInstanceAs (Decidable (_ ∧ _))

/-- Two entries of one enabled sync manager that have a bit in common. -/
def Share (a b : Placed) : Prop :=
  a.sm = b.sm ∧ a.active = true ∧ ∃ bit, a.start ≤ bit ∧ bit < a.stop ∧ b.start ≤ bit ∧ bit < b.stop

theorem share_iff {a b : Placed} :
    Share a b ↔ a.sm = b.sm ∧ a.active = true ∧ max a.start b.start < min a.stop b.stop := by
  refine and_congr_right fun _ => and_congr_right fun _ => ?_
  constructor
  · intro ⟨bit, h₁, h₂, h₃, h₄⟩
    omega
  · intro h
    exact ⟨max a.start b.start, by omega, by omega, by omega, by omega⟩

instance : DecidableRel Share := fun _ _ => decidable_of_iff _ share_iff.symm

/-- Shared bits are a collision of entries of one direction. -/
theorem share_collide {a b : Placed} (h : Share a b) (hdirection : a.direction = b.direction) :
    Collide a.toRange b.toRange := by
  obtain ⟨-, -, bit, h₁, h₂, h₃, h₄⟩ := h
  exact ⟨hdirection, by omega, by omega⟩

/-! ## The loops -/

section
variable {upper : String → String} {sm : SyncManagerBlock} {sms : Layout}

/-- What is known when the keys in `done` were checked. -/
structure Seen (s : List String × List PdoValidationError) (done : List String) : Prop where
  mem : ∀ k, k ∈ s.1 ↔ k ∈ done
  errors : s.2 = [] ↔ done.Nodup
  types : ∀ e ∈ s.2, e.type = .duplicateEntry

theorem Seen.checkKey {s : List String × List PdoValidationError} {done : List String} (h : Seen s done)
    (p : PdoCanvasEntry × Nat) : Seen (checkKey upper sm s p) (done ++ [p.1.key upper]) := by
  have hnodup : (done ++ [p.1.key upper]).Nodup ↔ p.1.key upper ∉ done ∧ done.Nodup := by
    rw [(List.perm_append_singleton _ done).nodup_iff, List.nodup_cons]
  unfold PdoMapping.checkKey
  by_cases hseen : p.1.key upper ∈ done
  · rw [if_pos (List.contains_iff_mem.2 ((h.mem _).2 hseen))]
    refine ⟨fun k => ?_, ?_, fun e he => ?_⟩
    · rw [h.mem, List.mem_append, List.mem_singleton]
      exact ⟨Or.inl, fun hk => hk.elim id fun heq => heq ▸ hseen⟩
    · exact iff_of_false (by simp) fun hn => (hnodup.1 hn).1 hseen
    · rcases List.mem_append.1 he with he | he
      · exact h.types e he
      · rw [List.mem_singleton.1 he]
  · rw [if_neg (mt List.contains_iff_mem.1 (mt (h.mem _).1 hseen))]
    refine ⟨fun k => ?_, ?_, h.types⟩
    · rw [List.mem_cons, h.mem, List.mem_append, List.mem_singleton, or_comm]
    · rw [h.errors, hnodup]
      exact ⟨fun hn => ⟨hseen, hn⟩, fun hn => hn.2⟩

theorem Seen.entries {s : List String × List PdoValidationError} {done : List String} (h : Seen s done)
    (ps : List (PdoCanvasEntry × Nat)) :
    Seen (ps.foldl (PdoMapping.checkKey upper sm) s) (done ++ ps.map (·.1.key upper)) := by
  induction ps generalizing s done with
  | nil => simpa using h
  | cons p ps ih =>
    have hone : Seen (PdoMapping.checkKey upper sm s p) (done ++ [p.1.key upper]) := h.checkKey p
    have hrest := ih hone
    rwa [List.append_assoc] at hrest

theorem seen_all (upper : String → String) (sms : Layout) :
    Seen (sms.foldl (fun s sm => sm.entries.zipIdx.foldl (PdoMapping.checkKey upper sm) s) ([], []))
      (sms.flatMap fun sm => sm.entries.map (·.key upper)) := by
  have hfold : ∀ (s : List String × List PdoValidationError) (done : List String), Seen s done →
      Seen (sms.foldl (fun s sm => sm.entries.zipIdx.foldl (PdoMapping.checkKey upper sm) s) s)
        (done ++ sms.flatMap fun sm => sm.entries.map (·.key upper)) := by
    induction sms with
    | nil =>
      intro s done h
      simpa using h
    | cons sm sms ih =>
      intro s done h
      have hone : Seen (sm.entries.zipIdx.foldl (PdoMapping.checkKey upper sm) s)
          (done ++ sm.entries.zipIdx.map fun p => p.1.key upper) := h.entries _
      have hkeys : sm.entries.zipIdx.map (fun p => p.1.key upper) = sm.entries.map (·.key upper) := by
        change sm.entries.zipIdx.map ((fun entry : PdoCanvasEntry => entry.key upper) ∘ Prod.fst) = _
        rw [← List.map_map, List.zipIdx_map_fst]
      rw [hkeys] at hone
      rw [List.foldl_cons, List.flatMap_cons, ← List.append_assoc]
      exact ih _ _ hone
  exact hfold _ [] ⟨fun k => Iff.rfl, iff_of_true rfl List.nodup_nil, fun e he => nomatch he⟩

/-- What is known when the ranges in `done` were compared. -/
structure Compared (s : Ranges) (done : List Placed) : Prop where
  ranges : ∀ d, s.ranges d = (done.filter (·.direction = d)).map fun a => (a.start, a.stop)
  errors : s.errors = [] ↔ ¬ SomePair (fun a b : Placed => Collide a.toRange b.toRange) done
  types : ∀ e ∈ s.errors, e.type = .overlappingAddress

theorem ranges_append (s : Ranges) (range : Int × Int) (d d' : PdoEntryDirection) :
    (s.append range d).ranges d' = if d = d' then s.ranges d' ++ [range] else s.ranges d' := by
  cases d <;> cases d' <;> rfl

theorem errors_append (s : Ranges) (range : Int × Int) (d : PdoEntryDirection) : (s.append range d).errors = s.errors := by
  cases d <;> rfl

/-- One enabled entry. -/
theorem Compared.checkRange {s : Ranges} {done : List Placed} (h : Compared s done) {p : PdoCanvasEntry × Nat}
    (hp : p.1.enabled = true) (offset : Int) (i : Nat) (active : Bool) :
    Compared (checkRange sm (s, offset) p).1
      (done ++ [⟨⟨p.1.direction, offset, offset + p.1.bitSize⟩, i, active⟩]) := by
  unfold PdoMapping.checkRange
  simp only [hp, Bool.not_true, Bool.false_eq_true, if_false]
  refine ⟨fun d => ?_, ?_, fun e he => ?_⟩
  · rw [ranges_append, List.filter_append, List.map_append]
    change (if p.1.direction = d then s.ranges d ++ _ else s.ranges d) = _
    rw [h.ranges]
    split <;> simp_all
  · rw [errors_append, List.append_eq_nil_iff, h.errors, somePair_concat, not_or, List.map_eq_nil_iff, List.filter_eq_nil_iff,
      h.ranges]
    refine and_congr_right fun _ => ?_
    simp only [List.mem_map, List.mem_filter, decide_eq_true_eq, Bool.and_eq_true, Collide, not_exists, not_and]
    constructor
    · intro hnone a ha hdirection hstart hstop
      exact hnone (a.start, a.stop) ⟨a, ⟨ha, hdirection⟩, rfl⟩ hstart hstop
    · intro hnone range hrange hstart hstop
      obtain ⟨a, ⟨ha, hdirection⟩, rfl⟩ := hrange
      exact hnone a ha hdirection hstart hstop
  · rw [errors_append] at he
    rcases List.mem_append.1 he with he | he
    · exact h.types e he
    · obtain ⟨-, -, rfl⟩ := List.mem_map.1 he
      rfl

theorem Compared.entries (i : Nat) (active : Bool) {s : Ranges} {done : List Placed} (h : Compared s done) (offset : Int)
    (ps : List (PdoCanvasEntry × Nat)) :
    Compared (ps.foldl (PdoMapping.checkRange sm) (s, offset)).1 (done ++ place i active offset (ps.map Prod.fst)) := by
  induction ps generalizing s done offset with
  | nil => simpa [place] using h
  | cons p ps ih =>
    rw [List.foldl_cons, List.map_cons, place]
    split
    · rename_i hp
      have hone : Compared (PdoMapping.checkRange sm (s, offset) p).1 _ := h.checkRange hp offset i active
      have hnext : PdoMapping.checkRange sm (s, offset) p =
          ((PdoMapping.checkRange sm (s, offset) p).1, offset + p.1.bitSize) := by
        simp [PdoMapping.checkRange, hp]
      rw [hnext, List.append_cons]
      exact ih hone _
    · rename_i hp
      have hskip : PdoMapping.checkRange sm (s, offset) p = (s, offset) := by
        simp [PdoMapping.checkRange, hp]
      rw [hskip]
      exact ih h offset

theorem compared_all (sms : Layout) :
    Compared (sms.foldl (fun s sm => (sm.entries.zipIdx.foldl (PdoMapping.checkRange sm) (s, 0)).1) {}) (placed sms) := by
  have hfold : ∀ (i : Nat) (s : Ranges) (done : List Placed), Compared s done →
      Compared (sms.foldl (fun s sm => (sm.entries.zipIdx.foldl (PdoMapping.checkRange sm) (s, 0)).1) s)
        (done ++ placedFrom i sms) := by
    induction sms with
    | nil =>
      intro i s done h
      simpa [placedFrom] using h
    | cons sm sms ih =>
      intro i s done h
      have hone : Compared (sm.entries.zipIdx.foldl (PdoMapping.checkRange sm) (s, 0)).1 _ :=
        h.entries i sm.enabled 0 sm.entries.zipIdx
      rw [List.zipIdx_map_fst] at hone
      rw [List.foldl_cons, placedFrom, ← List.append_assoc]
      exact ih (i + 1) _ _ hone
  refine hfold 0 {} [] ⟨fun d => ?_, ?_, fun e he => nomatch he⟩
  · cases d <;> rfl
  · exact iff_of_true rfl fun h => h List.Pairwise.nil

end

/-! ## What is reported -/

/-- An overlap is reported. -/
def Reported (upper : String → String) (sms : Layout) : Prop := ∃ e ∈ (validate upper sms).errors, e.type = .overlappingAddress

/-- Two enabled entries of one enabled sync manager have a bit in common. -/
def Overlapping (sms : Layout) : Prop := SomePair Share (placed sms)

theorem validateRequired_types (sms : Layout) : ∀ e ∈ validateRequired sms, e.type = .missingRequired := by
  intro e he
  simp only [validateRequired, List.mem_append] at he
  rcases he with he | he
  all_goals
    split at he
    · cases he
    · rw [List.mem_singleton.1 he]

/-- **An overlap is reported** iff two enabled entries of one direction collide, in
whatever sync managers they are. -/
theorem overlap_iff (upper : String → String) (sms : Layout) :
    Reported upper sms ↔ SomePair (fun a b : Placed => Collide a.toRange b.toRange) (placed sms) := by
  have hcompared := compared_all sms
  constructor
  · intro ⟨e, he, htype⟩
    by_contra hnone
    have hempty : validateAddresses sms = [] := hcompared.errors.2 hnone
    simp only [validate, hempty, List.append_nil, List.mem_append] at he
    rcases he with (he | he) | he
    · obtain ⟨sm, -, hsm⟩ := List.mem_filterMap.1 he
      simp only [Option.ite_none_right_eq_some, Option.some.injEq] at hsm
      rw [← hsm.2] at htype
      cases htype
    · rw [(seen_all upper sms).types e he] at htype
      cases htype
    · rw [validateRequired_types sms e he] at htype
      cases htype
  · intro hpair
    have hne : validateAddresses sms ≠ [] := fun hnil => hcompared.errors.1 hnil hpair
    obtain ⟨e, he⟩ := List.exists_mem_of_ne_nil _ hne
    refine ⟨e, ?_, hcompared.types e he⟩
    simp only [validate, List.mem_append]
    exact Or.inl (Or.inr he)

theorem mem_place {i : Nat} {active : Bool} {offset : Int} {entries : List PdoCanvasEntry} {a : Placed}
    (ha : a ∈ place i active offset entries) : a.sm = i ∧ a.active = active := by
  induction entries generalizing offset with
  | nil => cases ha
  | cons entry entries ih =>
    rw [place] at ha
    split at ha
    · rcases List.mem_cons.1 ha with rfl | ha
      · exact ⟨rfl, rfl⟩
      · exact ih ha
    · exact ih ha

theorem mem_placedFrom {i : Nat} {sms : Layout} {a : Placed} (ha : a ∈ placedFrom i sms) : i ≤ a.sm := by
  induction sms generalizing i with
  | nil => cases ha
  | cons sm sms ih =>
    rcases List.mem_append.1 ha with ha | ha
    · exact Nat.le_of_eq (mem_place ha).1.symm
    · exact Nat.le_of_succ_le (ih ha)

/-- Entries of no negative size lie one behind the other. -/
theorem place_ordered (i : Nat) (active : Bool) {offset : Int} {entries : List PdoCanvasEntry}
    (h : ∀ entry ∈ entries, 0 ≤ entry.bitSize) : (∀ a ∈ place i active offset entries, offset ≤ a.start) ∧
      (place i active offset entries).Pairwise fun a b => a.stop ≤ b.start := by
  induction entries generalizing offset with
  | nil => exact ⟨fun a ha => (nomatch ha), List.Pairwise.nil⟩
  | cons entry entries ih =>
    obtain ⟨hentry, hentries⟩ := List.forall_mem_cons.1 h
    rw [place]
    split
    · obtain ⟨hstart, hordered⟩ := @ih (offset + entry.bitSize) hentries
      refine ⟨fun a ha => ?_, List.pairwise_cons.2 ⟨hstart, hordered⟩⟩
      rcases List.mem_cons.1 ha with rfl | ha
      · exact Int.le_refl _
      · have := hstart a ha
        omega
    · exact ih hentries

/-- Without negative sizes no two entries of one sync manager have a bit in common:
every reported overlap is one of different sync managers, or of disabled ones. -/
theorem not_overlapping {sms : Layout} (h : ∀ sm ∈ sms, ∀ entry ∈ sm.entries, 0 ≤ entry.bitSize) : ¬ Overlapping sms := by
  have hall : ∀ i, (placedFrom i sms).Pairwise fun a b => ¬ Share a b := by
    induction sms with
    | nil => exact fun i => List.Pairwise.nil
    | cons sm sms ih =>
      obtain ⟨hsm, hsms⟩ := List.forall_mem_cons.1 h
      refine fun i => List.pairwise_append.2 ⟨?_, ih hsms (i + 1), fun a ha b hb hshare => ?_⟩
      · refine (place_ordered i sm.enabled hsm).2.imp fun {a b} hle hshare => ?_
        obtain ⟨-, -, bit, -, hstop, hstart, -⟩ := hshare
        omega
      · have hb := mem_placedFrom hb
        rw [← hshare.1, (mem_place ha).1] at hb
        omega
  exact fun hpair => hpair (hall 0)

/-! ## What is valid -/

/-- A layout without what is disabled that has nothing wrong. -/
structure Fine (upper : String → String) (part : Layout) : Prop where
  sizes : ∀ sm ∈ part, (sm.used.map (·.bitSize)).sum ≤ kMaxBitsPerSm
  keys : (part.flatMap fun sm => sm.entries.map (·.key upper)).Nodup
  ranges : ¬ SomePair (fun a b : Placed => Collide a.toRange b.toRange) (placed part)
  input : ∃ entry ∈ part.flatMap (·.used), entry.direction = .input
  output : ∃ entry ∈ part.flatMap (·.used), entry.direction = .output

/-- Something disabled has the key of another entry, or an enabled entry of a
disabled sync manager collides with another. -/
def Leak (upper : String → String) (sms : Layout) : Prop :=
  SomePair (fun a b => a.2 = b.2 ∧ ¬ (a.1 = true ∧ b.1 = true)) (keys upper sms) ∨
    SomePair (fun a b : Placed => Collide a.toRange b.toRange ∧ ¬ (a.active = true ∧ b.active = true)) (placed sms)

theorem used_enabledPart (sms : Layout) : (enabledPart sms).flatMap (·.used) = sms.flatMap (·.used) := by
  induction sms with
  | nil => rfl
  | cons sm sms ih =>
    unfold enabledPart at ih ⊢
    rw [List.filter_cons, List.flatMap_cons]
    split
    · rename_i hsm
      rw [List.map_cons, List.flatMap_cons, ih]
      simp [SyncManagerBlock.used, hsm]
    · rename_i hsm
      rw [ih]
      simp [SyncManagerBlock.used, hsm]

theorem sizes_iff (sms : Layout) :
    validateSmSize sms = [] ↔ ∀ sm ∈ enabledPart sms, (sm.used.map (·.bitSize)).sum ≤ kMaxBitsPerSm := by
  unfold validateSmSize enabledPart
  have hused (sm : SyncManagerBlock) : ({ sm with entries := sm.entries.filter (·.enabled) } : SyncManagerBlock).used = sm.used := by
    simp [SyncManagerBlock.used]
  rw [List.filterMap_eq_nil_iff, List.forall_mem_map]
  constructor
  · intro h sm hsm
    obtain ⟨hmem, henabled⟩ := List.mem_filter.1 hsm
    have hone := h sm hmem
    rw [hused]
    by_contra hgreater
    simp only [henabled, Int.not_le.1 hgreater, decide_true, Bool.and_self, if_true] at hone
    cases hone
  · intro h sm hmem
    refine if_neg fun hgreater => ?_
    rw [Bool.and_eq_true, decide_eq_true_eq] at hgreater
    have hsize := h sm (List.mem_filter.2 ⟨hmem, hgreater.1⟩)
    rw [hused] at hsize
    exact Int.not_lt.2 hsize hgreater.2

theorem required_iff (sms : Layout) : validateRequired sms = [] ↔
    (∃ entry ∈ sms.flatMap (·.used), entry.direction = .input) ∧ ∃ entry ∈ sms.flatMap (·.used), entry.direction = .output := by
  unfold validateRequired
  rw [List.append_eq_nil_iff]
  refine and_congr ?_ ?_
  all_goals
    split
    · rename_i hany
      obtain ⟨entry, hentry, hdirection⟩ := List.any_eq_true.1 hany
      exact iff_of_true rfl ⟨entry, hentry, of_decide_eq_true hdirection⟩
    · rename_i hany
      refine iff_of_false (fun h => nomatch h) fun ⟨entry, hentry, hdirection⟩ => hany ?_
      exact List.any_eq_true.2 ⟨entry, hentry, decide_eq_true hdirection⟩

/-- The keys that count. -/
theorem keys_used (upper : String → String) (sms : Layout) : ((keys upper sms).filter (·.1)).map (·.2) =
    (enabledPart sms).flatMap fun sm => sm.entries.map (·.key upper) := by
  have hentries (sm : SyncManagerBlock) :
      ((sm.entries.map fun entry => (sm.enabled && entry.enabled, entry.key upper)).filter (·.1)).map (·.2) =
        if sm.enabled then (sm.entries.filter (·.enabled)).map (·.key upper) else [] := by
    rw [List.filter_map, List.map_map]
    cases sm.enabled
    · simp [Function.comp_def]
    · simp [Function.comp_def]
  induction sms with
  | nil => rfl
  | cons sm sms ih =>
    unfold enabledPart keys at ih ⊢
    rw [List.flatMap_cons, List.filter_append, List.map_append, ih, hentries, List.filter_cons]
    split
    · rw [List.map_cons, List.flatMap_cons]
    · rfl

theorem place_filter (i j : Nat) (active active' : Bool) (offset : Int) (entries : List PdoCanvasEntry) :
    (place i active offset entries).map (·.toRange) = (place j active' offset (entries.filter (·.enabled))).map (·.toRange) := by
  induction entries generalizing offset with
  | nil => rfl
  | cons entry entries ih =>
    rw [place, List.filter_cons]
    split
    · rename_i henabled
      rw [place, if_pos henabled, List.map_cons, List.map_cons, ih]
    · exact ih offset

/-- The ranges that count. -/
theorem placed_active (i j : Nat) (sms : Layout) :
    ((placedFrom i sms).filter (·.active)).map (·.toRange) = (placedFrom j (enabledPart sms)).map (·.toRange) := by
  induction sms generalizing i j with
  | nil => rfl
  | cons sm sms ih =>
    unfold enabledPart at ih ⊢
    rw [placedFrom, List.filter_append, List.map_append, List.filter_cons]
    split
    · rename_i hsm
      have hall : (place i sm.enabled 0 sm.entries).filter (·.active) = place i sm.enabled 0 sm.entries :=
        List.filter_eq_self.2 fun a ha => (mem_place ha).2.trans hsm
      rw [List.map_cons, placedFrom, List.map_append, hall, ih (i + 1) (j + 1), place_filter i j _ sm.enabled]
    · rename_i hsm
      have hnone : (place i sm.enabled 0 sm.entries).filter (·.active) = [] :=
        List.filter_eq_nil_iff.2 fun a ha hactive => hsm ((mem_place ha).2.symm.trans hactive)
      rw [hnone, ih (i + 1) j]
      rfl

theorem duplicates_iff (upper : String → String) (sms : Layout) : validateDuplicates upper sms = [] ↔
    ((enabledPart sms).flatMap fun sm => sm.entries.map (·.key upper)).Nodup ∧
      ¬ SomePair (fun a b => a.2 = b.2 ∧ ¬ (a.1 = true ∧ b.1 = true)) (keys upper sms) := by
  have hkeys : (sms.flatMap fun sm => sm.entries.map (·.key upper)) = (keys upper sms).map (·.2) := by
    rw [keys, List.map_flatMap]
    simp [Function.comp_def]
  have hnodup (l : List String) : l.Nodup ↔ ¬ SomePair (· = ·) l := not_not.symm
  rw [validateDuplicates, (seen_all upper sms).errors, hkeys, ← keys_used, hnodup, hnodup, somePair_map, somePair_map,
    somePair_filter (·.1), not_or]

theorem addresses_iff (sms : Layout) : validateAddresses sms = [] ↔
    ¬ SomePair (fun a b : Placed => Collide a.toRange b.toRange) (placed (enabledPart sms)) ∧
      ¬ SomePair (fun a b : Placed => Collide a.toRange b.toRange ∧ ¬ (a.active = true ∧ b.active = true)) (placed sms) := by
  rw [validateAddresses, (compared_all sms).errors, somePair_filter (·.active), not_or, placed, placed]
  refine and_congr_left fun _ => ?_
  rw [← somePair_map Placed.toRange (R := Collide), ← somePair_map Placed.toRange (R := Collide), placed_active 0 0]

/-- **A layout is valid** iff its enabled part has nothing wrong, and nothing that is
disabled leaks into it. -/
theorem valid_iff (upper : String → String) (sms : Layout) :
    (validate upper sms).valid = true ↔ Fine upper (enabledPart sms) ∧ ¬ Leak upper sms := by
  have herrors : (validate upper sms).valid = true ↔ validateSmSize sms = [] ∧ validateDuplicates upper sms = [] ∧
      validateAddresses sms = [] ∧ validateRequired sms = [] := by
    simp [validate]
  rw [herrors, sizes_iff, duplicates_iff, addresses_iff, required_iff, Leak, not_or, ← used_enabledPart]
  constructor
  · intro ⟨hsizes, ⟨hkeys, hkeyLeak⟩, ⟨hranges, hrangeLeak⟩, hinput, houtput⟩
    exact ⟨⟨hsizes, hkeys, hranges, hinput, houtput⟩, hkeyLeak, hrangeLeak⟩
  · intro ⟨h, hkeyLeak, hrangeLeak⟩
    exact ⟨h.sizes, ⟨h.keys, hkeyLeak⟩, ⟨h.ranges, hrangeLeak⟩, h.input, h.output⟩

/-! ## The verdict -/

/-- Two entries of one direction and one enabled sync manager have a bit in common. -/
def Same (sms : Layout) : Prop := SomePair (fun a b => Share a b ∧ a.direction = b.direction) (placed sms)

/-- Two entries of different directions do. -/
def Mixed (sms : Layout) : Prop := SomePair (fun a b => Share a b ∧ a.direction ≠ b.direction) (placed sms)

/-- Two entries collide that have no bit of an enabled sync manager in common. -/
def Stray (sms : Layout) : Prop := SomePair (fun a b => Collide a.toRange b.toRange ∧ ¬ Share a b) (placed sms)

theorem overlapping_iff (sms : Layout) : Overlapping sms ↔ Same sms ∨ Mixed sms := by
  unfold Overlapping Same Mixed
  rw [← somePair_or]
  exact somePair_congr fun a b => by tauto

theorem reported_split (upper : String → String) (sms : Layout) : Reported upper sms ↔ Same sms ∨ Stray sms := by
  rw [overlap_iff]
  unfold Same Stray
  rw [← somePair_or]
  refine somePair_congr fun a b => ⟨fun h => ?_, fun h => ?_⟩
  · by_cases hshare : Share a b
    · exact Or.inl ⟨hshare, h.1⟩
    · exact Or.inr ⟨h, hshare⟩
  · rcases h with h | h
    · exact share_collide h.1 h.2
    · exact h.1

/-- **The verdict is what it should be** iff every collision is one of bits in common
(or nothing depends on it), and the enabled part is wrong by itself, or what is
disabled leaks into both layouts or into none. -/
theorem layout_verdict_iff (upper : String → String) (sms sms' : Layout) (h : enabledPart sms' = enabledPart sms) :
    ((Reported upper sms ↔ Overlapping sms) ∧ (validate upper sms').valid = (validate upper sms).valid) ↔
      (Same sms ∨ (Stray sms ↔ Mixed sms)) ∧ (¬ Fine upper (enabledPart sms) ∨ (Leak upper sms ↔ Leak upper sms')) := by
  rw [reported_split, overlapping_iff, Bool.eq_iff_iff, valid_iff, valid_iff, h]
  refine and_congr ?_ ?_
  · by_cases hsame : Same sms
    · simp [hsame]
    · simp [hsame]
  · by_cases hfine : Fine upper (enabledPart sms)
    · simp [hfine, not_iff_not, iff_comm]
    · simp [hfine]

/-- An input and an output of a byte. -/
def plainLayout : Layout :=
  [{ index := 2, entries := [{ index := "0x7000", subIndex := "0x01", name := "Out", bitSize := 8, direction := .output }] },
    { index := 3, entries := [{ index := "0x6000", subIndex := "0x01", name := "In", bitSize := 8, direction := .input }] }]

/-- The same with a sync manager that is disabled. -/
def withDisabled : Layout :=
  plainLayout ++ [{ index := 4, enabled := false, entries := [{ index := "0x6010", subIndex := "0x01", name := "Spare" }] }]

theorem plain_verdict : (Reported id plainLayout ↔ Overlapping plainLayout) ∧
    (validate id withDisabled).valid = (validate id plainLayout).valid :=
  (layout_verdict_iff id plainLayout withDisabled (by decide)).2 ⟨by unfold Same Stray Mixed; decide, Or.inr (by unfold Leak; decide)⟩

/-- Two inputs of a byte, each in a sync manager of its own. -/
def twoInputs : Layout :=
  [{ index := 3, entries := [{ index := "0x6000", subIndex := "0x01", name := "A", bitSize := 8 }] },
    { index := 4, entries := [{ index := "0x6010", subIndex := "0x01", name := "B", bitSize := 8 }] }]

theorem two_inputs_reported : ¬ ∀ (upper : String → String) (sms sms' : Layout), enabledPart sms' = enabledPart sms →
    ((Reported upper sms ↔ Overlapping sms) ∧ (validate upper sms').valid = (validate upper sms).valid) := by
  intro h
  have hreported : Reported id twoInputs := (overlap_iff id twoInputs).2 (by decide)
  have hoverlapping := (h id twoInputs twoInputs rfl).1.1 hreported
  exact absurd hoverlapping (not_overlapping (by decide))

end NekoEcat.L4.PdoMapping
