import NekoEcat.Core.Grouping
import NekoEcat.Core.Strip
import NekoEcat.L4Gui.ProjectRoundTrip

/-!
# Reviewing what is known of an SDO value

The pieces of evidence for the value of an object are grouped by the value, blanks
and case aside, and compared with a value that is to be written. Whether they
contradict each other is also found without groups, by a scan that keeps the first
value.

* `mem_groups`: the groups.
* `conflict_iff`: the scan finds two different values exactly if there are two.
* `review_faithful`: the groups, the review, and that the order of the evidence
  does not matter to it.
-/
namespace NekoEcat.L4.SdoEvidence
open NekoEcat.QNumber NekoEcat.QString NekoEcat.L4.SdoWrites NekoEcat.Grouping NekoEcat.Strip
open NekoEcat.L4.ProjectFile (normalizeComparableValue sdoValuesComparableEqual toList_trimmed trimmed_trimmed)

structure SdoEvidenceItem where
  source : String
  value : String

/-- Evidence of one value. -/
structure SdoEvidenceGroup where
  sources : List String
  value : String
  normalized : List Char
  deriving DecidableEq

structure SdoWriteDeltaReview where
  state : String
  hasDiff : Bool
  hasConflict : Bool
  matchesEvidence : Bool
  matchingSources : List String
  conflictFacts : List String
  differingGroups : List SdoEvidenceGroup

/-! ## The code -/

section
variable (t : ProjectFile.Locale)

/-- mirrors apps/ecat-studio/models/SdoEvidenceModel.cpp:49-61 -/
def conflictFrom (firstNormalized : List Char) : List (String × String) → Bool
  | [] => false
  | candidate :: candidates =>
    let normalized := normalizeComparableValue t candidate.2
    if normalized = [] then conflictFrom firstNormalized candidates
    else if firstNormalized = [] then conflictFrom normalized candidates
    else if normalized ≠ firstNormalized then true
    else conflictFrom firstNormalized candidates

/-- mirrors apps/ecat-studio/models/SdoEvidenceModel.cpp:46-63 -/
def sdoEvidenceHasConflict (candidates : List (String × String)) : Bool := conflictFrom t [] candidates

def itemNormalized (item : SdoEvidenceItem) : List Char := normalizeComparableValue t (trimmed item.value)

def skipped (item : SdoEvidenceItem) : Bool :=
  trimmed item.source == "" || trimmed item.value == "" || (itemNormalized t item).isEmpty

def newGroup (item : SdoEvidenceItem) : SdoEvidenceGroup := ⟨[item.source], trimmed item.value, itemNormalized t item⟩

def addSource (group : SdoEvidenceGroup) (item : SdoEvidenceItem) : SdoEvidenceGroup :=
  { group with sources := group.sources ++ [item.source] }

/-- mirrors apps/ecat-studio/models/SdoEvidenceModel.cpp:66-92 -/
def groupSdoEvidence (items : List SdoEvidenceItem) : List SdoEvidenceGroup :=
  items.foldl (fun groups item =>
    if skipped t item = true then groups
    else put (·.normalized) (itemNormalized t) (newGroup t) addSource groups item) []

/-- mirrors apps/ecat-studio/models/SdoEvidenceModel.cpp:106-114 -/
def reviewGroup (normalizedWrite : List Char) (review : SdoWriteDeltaReview) (group : SdoEvidenceGroup) :
    SdoWriteDeltaReview :=
  let sources := "/".intercalate group.sources
  let review := { review with conflictFacts := review.conflictFacts ++ [sources ++ "=" ++ group.value] }
  if group.normalized = normalizedWrite then { review with matchingSources := review.matchingSources ++ [sources] }
  else { review with differingGroups := review.differingGroups ++ [group] }

/-- mirrors apps/ecat-studio/models/SdoEvidenceModel.cpp:95-122 -/
def reviewSdoWriteDelta (items : List SdoEvidenceItem) (writeValue : String) : SdoWriteDeltaReview :=
  let review : SdoWriteDeltaReview := ⟨"none", false, false, false, [], [], []⟩
  let groups := groupSdoEvidence t items
  if groups = [] then review
  else
    let review := groups.foldl (reviewGroup (normalizeComparableValue t writeValue)) review
    let hasDiff := !review.differingGroups.isEmpty
    let hasConflict := decide (groups.length > 1)
    { review with
      hasDiff := hasDiff
      hasConflict := hasConflict
      matchesEvidence := !hasDiff
      state := if hasConflict then "conflict" else if hasDiff then "diff" else "match" }

end

/-! ## Usable evidence -/

/-- Neither the source nor the value is blank. -/
def usable (item : SdoEvidenceItem) : Bool := trimmed item.source != "" && trimmed item.value != ""

section
variable {t : ProjectFile.Locale} (hlower : ∀ cs, t.toLower cs = [] → cs = []) {items items' : List SdoEvidenceItem}

theorem itemNormalized_eq (item : SdoEvidenceItem) : itemNormalized t item = normalizeComparableValue t item.value := by
  simp only [itemNormalized, normalizeComparableValue, trimmed_trimmed]

include hlower

/-- A value that is not blank stays so without its blanks. -/
theorem normalized_ne_nil {value : String} (h : trimmed value ≠ "") : normalizeComparableValue t value ≠ [] := by
  intro hnil
  have hall := List.filter_eq_nil_iff.1 (hlower _ hnil)
  have htrim : (trimmed value).toList = strip isSpace value.toList := toList_trimmed value
  rw [htrim] at hall
  cases hv : strip isSpace value.toList with
  | nil => exact h (String.toList_injective (htrim.trans hv))
  | cons c cs =>
    have hspace : isSpace c = false := @head_strip _ isSpace value.toList c (by rw [hv]; rfl)
    have hc : c = ' ' := by simpa using hall c (by rw [hv]; exact List.mem_cons_self)
    rw [hc] at hspace
    exact absurd hspace (by decide)

theorem skipped_eq (item : SdoEvidenceItem) : skipped t item = !usable item := by
  by_cases hv : trimmed item.value = ""
  · simp [skipped, usable, hv]
  · have hnil : (itemNormalized t item).isEmpty = false := by
      rw [itemNormalized_eq]
      simpa using normalized_ne_nil hlower hv
    simp [skipped, usable, hnil, bne, Bool.not_and]

theorem groupSdoEvidence_eq (items : List SdoEvidenceItem) :
    groupSdoEvidence t items =
      collect (·.normalized) (itemNormalized t) (newGroup t) addSource (items.filter usable) := by
  rw [groupSdoEvidence, collect, List.foldl_filter]
  refine congrArg (fun step => items.foldl step []) (funext fun groups => funext fun item => ?_)
  rw [skipped_eq hlower]
  cases usable item <;> rfl

end
/-! ## The groups -/

theorem keyed (t : ProjectFile.Locale) : Keyed (·.normalized) (itemNormalized t) (newGroup t) addSource :=
  ⟨fun _ => rfl, fun _ _ => rfl⟩

theorem foldl_addSource (as : List SdoEvidenceItem) (group : SdoEvidenceGroup) :
    as.foldl addSource group = { group with sources := group.sources ++ as.map (·.source) } := by
  induction as generalizing group with
  | nil => simp
  | cons a as ih => simp [ih, addSource]

/-- The usable evidence of one value. -/
def evidenceOf (t : ProjectFile.Locale) (items : List SdoEvidenceItem) (normalized : List Char) : List SdoEvidenceItem :=
  (items.filter usable).filter (normalizeComparableValue t ·.value = normalized)

section
variable {t : ProjectFile.Locale} (hlower : ∀ cs, t.toLower cs = [] → cs = []) {items items' : List SdoEvidenceItem}

include hlower

/-- **The groups** are made of the usable evidence of their value. -/
theorem mem_groups {group : SdoEvidenceGroup} :
    group ∈ groupSdoEvidence t items ↔
      ∃ first ∈ (evidenceOf t items group.normalized).head?,
        group.sources = (evidenceOf t items group.normalized).map (·.source) ∧ group.value = trimmed first.value := by
  have hmade := @mem_collect _ _ _ _ _ _ _ _ (keyed t) (items.filter usable) group
  simp only [itemNormalized_eq] at hmade
  rw [groupSdoEvidence_eq hlower, hmade]
  change made _ _ (evidenceOf t items group.normalized) = _ ↔ _
  cases hof : evidenceOf t items group.normalized with
  | nil => simp [made]
  | cons first rest =>
    have hfirst : normalizeComparableValue t first.value = group.normalized := by
      have hmem : first ∈ evidenceOf t items group.normalized := by
        rw [hof]
        exact List.mem_cons_self
      simpa using (List.mem_filter.1 hmem).2
    obtain ⟨sources, value, normalized⟩ := group
    simp only [made, foldl_addSource, newGroup, itemNormalized_eq, List.head?_cons, Option.mem_def, Option.some.injEq,
      exists_eq_left', SdoEvidenceGroup.mk.injEq, List.map_cons, List.singleton_append, hfirst, and_true]
    exact and_congr eq_comm eq_comm

theorem nodup_groups : ((groupSdoEvidence t items).map (·.normalized)).Nodup := by
  rw [groupSdoEvidence_eq hlower]
  exact nodup_collect (keyed t) _

theorem mem_values {normalized : List Char} :
    normalized ∈ (groupSdoEvidence t items).map (·.normalized) ↔
      ∃ item ∈ items.filter usable, normalizeComparableValue t item.value = normalized := by
  rw [groupSdoEvidence_eq hlower, mem_keys_collect (keyed t), List.mem_map]
  simp only [itemNormalized_eq]

/-- **Nothing is lost**, and nothing is twice there. -/
theorem sources_perm :
    ((groupSdoEvidence t items).flatMap (·.sources)).Perm ((items.filter usable).map (·.source)) := by
  have hmem : ∀ item ∈ items.filter usable,
      normalizeComparableValue t item.value ∈ (groupSdoEvidence t items).map (·.normalized) :=
    fun item hitem => (mem_values hlower).2 ⟨item, hitem, rfl⟩
  have hperm := flatMap_filter_perm (fun item : SdoEvidenceItem => normalizeComparableValue t item.value)
    (nodup_groups hlower) hmem
  have hsources : ∀ group ∈ groupSdoEvidence t items,
      group.sources = (evidenceOf t items group.normalized).map (·.source) := by
    intro group hgroup
    obtain ⟨first, -, h, -⟩ := (mem_groups hlower).1 hgroup
    exact h
  have hflat := List.flatMap_congr hsources
  have hmap := hperm.map (·.source)
  rw [List.map_flatMap, List.flatMap_map] at hmap
  rw [hflat]
  exact hmap

/-- **A usable piece of evidence is in one group.** -/
theorem one_group {item : SdoEvidenceItem} (hitem : item ∈ items.filter usable) :
    ∃! group, group ∈ groupSdoEvidence t items ∧ group.normalized = normalizeComparableValue t item.value := by
  obtain ⟨group, hgroup, hvalue⟩ := List.mem_map.1 ((mem_values hlower).2 ⟨item, hitem, rfl⟩)
  exact ⟨group, ⟨hgroup, hvalue⟩, fun group' h =>
    List.inj_on_of_nodup_map (nodup_groups hlower) h.1 hgroup (h.2.trans hvalue.symm)⟩

theorem groups_eq_nil : groupSdoEvidence t items = [] ↔ items.filter usable = [] := by
  constructor
  · intro hnil
    refine List.eq_nil_iff_forall_not_mem.2 fun item hitem => ?_
    obtain ⟨group, ⟨hgroup, -⟩, -⟩ := one_group hlower hitem
    rw [hnil] at hgroup
    cases hgroup
  · intro hnil
    rw [groupSdoEvidence_eq hlower, hnil]
    rfl

/-! ## Conflicts -/

theorem one_lt_length_iff :
    1 < (groupSdoEvidence t items).length ↔
      ∃ item ∈ items.filter usable, ∃ other ∈ items.filter usable,
        normalizeComparableValue t item.value ≠ normalizeComparableValue t other.value := by
  have hnodup := @nodup_groups t hlower items
  have hvalues := @mem_values t hlower items
  rw [← List.length_map (·.normalized)]
  generalize (groupSdoEvidence t items).map (·.normalized) = values at hnodup hvalues
  constructor
  · intro hlen
    obtain ⟨a, ha, b, hb, hne⟩ : ∃ a ∈ values, ∃ b ∈ values, a ≠ b := by
      match values, hlen with
      | a :: b :: _, _ =>
        exact ⟨a, by simp, b, by simp, fun heq => (List.nodup_cons.1 hnodup).1 (heq ▸ List.mem_cons_self)⟩
    obtain ⟨item, hitem, rfl⟩ := hvalues.1 ha
    obtain ⟨other, hother, rfl⟩ := hvalues.1 hb
    exact ⟨item, hitem, other, hother, hne⟩
  · rintro ⟨item, hitem, other, hother, hne⟩
    have ha := hvalues.2 ⟨item, hitem, rfl⟩
    have hb := hvalues.2 ⟨other, hother, rfl⟩
    match values, ha, hb with
    | [a], ha, hb => exact absurd ((List.mem_singleton.1 ha).trans (List.mem_singleton.1 hb).symm) hne
    | a :: b :: rest, _, _ => simp

omit hlower

/-- The scan, once it has a value. -/
theorem conflictFrom_iff {first : List Char} (hfirst : first ≠ []) (candidates : List (String × String)) :
    conflictFrom t first candidates = true ↔
      ∃ candidate ∈ candidates, normalizeComparableValue t candidate.2 ≠ [] ∧
        normalizeComparableValue t candidate.2 ≠ first := by
  induction candidates with
  | nil => simp [conflictFrom]
  | cons candidate candidates ih =>
    rw [conflictFrom, List.exists_mem_cons_iff]
    by_cases hblank : normalizeComparableValue t candidate.2 = []
    · simp [hblank, ih]
    · by_cases hsame : normalizeComparableValue t candidate.2 = first
      · simp [hsame, hfirst, ih]
      · simp [hblank, hfirst, hsame]

/-- **The scan finds two different values** exactly if there are two. -/
theorem conflict_iff (candidates : List (String × String)) :
    sdoEvidenceHasConflict t candidates = true ↔
      ∃ a ∈ candidates, ∃ b ∈ candidates, normalizeComparableValue t a.2 ≠ [] ∧ normalizeComparableValue t b.2 ≠ [] ∧
        normalizeComparableValue t a.2 ≠ normalizeComparableValue t b.2 := by
  unfold sdoEvidenceHasConflict
  induction candidates with
  | nil => simp [conflictFrom]
  | cons c candidates ih =>
    rw [conflictFrom]
    by_cases hblank : normalizeComparableValue t c.2 = []
    · rw [if_pos hblank, ih]
      simp [hblank]
    · rw [if_neg hblank, if_pos rfl, conflictFrom_iff hblank]
      constructor
      · rintro ⟨b, hb, hbne, hne⟩
        exact ⟨b, List.mem_cons_of_mem _ hb, c, List.mem_cons_self, hbne, hblank, hne⟩
      · rintro ⟨a, ha, b, hb, hane, hbne, hne⟩
        -- one of the two is not the value of the first candidate
        by_cases hac : normalizeComparableValue t a.2 = normalizeComparableValue t c.2
        · have hbc : normalizeComparableValue t b.2 ≠ normalizeComparableValue t c.2 := fun h => hne (hac.trans h.symm)
          exact ⟨b, (List.mem_cons.1 hb).resolve_left fun h => hbc (by rw [h]), hbne, hbc⟩
        · exact ⟨a, (List.mem_cons.1 ha).resolve_left fun h => hac (by rw [h]), hane, hac⟩

/-! ## The review -/

theorem differing_foldl (write : List Char) (groups : List SdoEvidenceGroup) (review : SdoWriteDeltaReview) :
    (groups.foldl (reviewGroup write) review).differingGroups =
      review.differingGroups ++ groups.filter (·.normalized ≠ write) := by
  induction groups generalizing review with
  | nil => simp
  | cons group groups ih =>
    rw [List.foldl_cons, ih]
    by_cases h : group.normalized = write <;> simp [reviewGroup, h]

variable (t) in
theorem review_hasConflict (writeValue : String) :
    (reviewSdoWriteDelta t items writeValue).hasConflict = decide (1 < (groupSdoEvidence t items).length) := by
  by_cases h : groupSdoEvidence t items = [] <;> simp [reviewSdoWriteDelta, h]

variable (t) in
theorem review_hasDiff (writeValue : String) :
    (reviewSdoWriteDelta t items writeValue).hasDiff = true ↔
      ∃ normalized ∈ (groupSdoEvidence t items).map (·.normalized),
        normalized ≠ normalizeComparableValue t writeValue := by
  by_cases h : groupSdoEvidence t items = []
  · simp [reviewSdoWriteDelta, h]
  · simp [reviewSdoWriteDelta, h, differing_foldl]

variable (t) in
theorem review_state (writeValue : String) :
    (reviewSdoWriteDelta t items writeValue).state =
      if groupSdoEvidence t items = [] then "none"
      else if (reviewSdoWriteDelta t items writeValue).hasConflict = true then "conflict"
      else if (reviewSdoWriteDelta t items writeValue).hasDiff = true then "diff"
      else "match" := by
  by_cases h : groupSdoEvidence t items = [] <;> simp [reviewSdoWriteDelta, h]

include hlower

theorem hasConflict_eq (writeValue : String) :
    (reviewSdoWriteDelta t items writeValue).hasConflict =
      sdoEvidenceHasConflict t ((items.filter usable).map fun item => (item.source, item.value)) := by
  have hne : ∀ item ∈ items.filter usable, normalizeComparableValue t item.value ≠ [] := by
    intro item hitem
    have husable := (List.mem_filter.1 hitem).2
    simp only [usable, Bool.and_eq_true, bne_iff_ne] at husable
    exact normalized_ne_nil hlower husable.2
  rw [review_hasConflict, Bool.eq_iff_iff, decide_eq_true_iff, one_lt_length_iff hlower, conflict_iff]
  simp only [List.mem_map, exists_exists_and_eq_and]
  constructor
  · rintro ⟨item, hitem, other, hother, h⟩
    exact ⟨item, hitem, other, hother, hne item hitem, hne other hother, h⟩
  · rintro ⟨item, hitem, other, hother, -, -, h⟩
    exact ⟨item, hitem, other, hother, h⟩

theorem hasDiff_iff (writeValue : String) :
    (reviewSdoWriteDelta t items writeValue).hasDiff = true ↔
      ∃ item ∈ items.filter usable, sdoValuesComparableEqual t item.value writeValue = false := by
  rw [review_hasDiff]
  constructor
  · rintro ⟨normalized, hmem, hne⟩
    obtain ⟨item, hitem, rfl⟩ := (mem_values hlower).1 hmem
    exact ⟨item, hitem, by simp [sdoValuesComparableEqual, hne]⟩
  · rintro ⟨item, hitem, hdiff⟩
    refine ⟨_, (mem_values hlower).2 ⟨item, hitem, rfl⟩, fun heq => ?_⟩
    have husable := (List.mem_filter.1 hitem).2
    simp only [usable, Bool.and_eq_true, bne_iff_ne] at husable
    have hvalue := normalized_ne_nil hlower husable.2
    simp [sdoValuesComparableEqual, heq] at hdiff
    exact hvalue (heq.trans hdiff)

/-- **The order of the evidence** does not matter to the review. -/
theorem review_perm (hperm : items.Perm items') (writeValue : String) :
    (reviewSdoWriteDelta t items writeValue).state = (reviewSdoWriteDelta t items' writeValue).state ∧
      (reviewSdoWriteDelta t items writeValue).hasConflict = (reviewSdoWriteDelta t items' writeValue).hasConflict ∧
      (reviewSdoWriteDelta t items writeValue).hasDiff = (reviewSdoWriteDelta t items' writeValue).hasDiff := by
  have hmem : ∀ item, item ∈ items.filter usable ↔ item ∈ items'.filter usable :=
    fun item => (hperm.filter usable).mem_iff
  have hconflict : (reviewSdoWriteDelta t items writeValue).hasConflict =
      (reviewSdoWriteDelta t items' writeValue).hasConflict := by
    rw [review_hasConflict, review_hasConflict]
    simp only [one_lt_length_iff hlower, hmem]
  have hdiff : (reviewSdoWriteDelta t items writeValue).hasDiff =
      (reviewSdoWriteDelta t items' writeValue).hasDiff := by
    rw [Bool.eq_iff_iff, hasDiff_iff hlower, hasDiff_iff hlower]
    simp only [hmem]
  have hnil : groupSdoEvidence t items = [] ↔ groupSdoEvidence t items' = [] := by
    rw [groups_eq_nil hlower, groups_eq_nil hlower, List.eq_nil_iff_forall_not_mem, List.eq_nil_iff_forall_not_mem]
    simp only [hmem]
  refine ⟨?_, hconflict, hdiff⟩
  rw [review_state, review_state, hconflict, hdiff]
  simp only [hnil]

end

/-- **The review agrees with itself**: each usable piece of evidence is in one
group, no value has two, and a group lists its sources in the order of the
evidence; the conflict is that of the scan, the difference that of the comparison
of values; and the order of the evidence does not matter. -/
theorem review_faithful (t : ProjectFile.Locale) (hlower : ∀ cs, t.toLower cs = [] → cs = []) (items : List SdoEvidenceItem)
    (writeValue : String) :
    (∀ item ∈ items.filter usable,
        ∃! group, group ∈ groupSdoEvidence t items ∧ group.normalized = normalizeComparableValue t item.value) ∧
      (groupSdoEvidence t items).Pairwise (fun group group' => group.normalized ≠ group'.normalized) ∧
      (∀ group ∈ groupSdoEvidence t items,
        group.sources = (evidenceOf t items group.normalized).map (·.source)) ∧
      ((groupSdoEvidence t items).flatMap (·.sources)).Perm ((items.filter usable).map (·.source)) ∧
      (reviewSdoWriteDelta t items writeValue).hasConflict =
        sdoEvidenceHasConflict t ((items.filter usable).map fun item => (item.source, item.value)) ∧
      ((reviewSdoWriteDelta t items writeValue).hasDiff = true ↔
        ∃ item ∈ items.filter usable, sdoValuesComparableEqual t item.value writeValue = false) ∧
      ∀ items', items.Perm items' →
        (reviewSdoWriteDelta t items writeValue).state = (reviewSdoWriteDelta t items' writeValue).state ∧
        (reviewSdoWriteDelta t items writeValue).hasConflict = (reviewSdoWriteDelta t items' writeValue).hasConflict ∧
        (reviewSdoWriteDelta t items writeValue).hasDiff = (reviewSdoWriteDelta t items' writeValue).hasDiff := by
  refine ⟨fun _ => one_group hlower, List.pairwise_map.1 (nodup_groups hlower), fun group hgroup => ?_,
    sources_perm hlower, hasConflict_eq hlower writeValue, hasDiff_iff hlower writeValue,
    fun _ hperm => review_perm hlower hperm writeValue⟩
  obtain ⟨_, -, hsources, -⟩ := (mem_groups hlower).1 hgroup
  exact hsources

/-- Two sources agree up to blanks and case, one piece of evidence has no source, and
one disagrees. -/
theorem review_spelled :
    (reviewSdoWriteDelta ProjectFile.english
        ([⟨"Watch", " 0x0A"⟩, ⟨" ", "7"⟩, ⟨"Startup", "0x 0a"⟩] ++ [⟨"History", "12"⟩]) "12").state =
      (reviewSdoWriteDelta ProjectFile.english
        ([⟨"History", "12"⟩] ++ [⟨"Watch", " 0x0A"⟩, ⟨" ", "7"⟩, ⟨"Startup", "0x 0a"⟩]) "12").state := by
  have hperm := @List.perm_append_comm SdoEvidenceItem [⟨"Watch", " 0x0A"⟩, ⟨" ", "7"⟩, ⟨"Startup", "0x 0a"⟩]
    [⟨"History", "12"⟩]
  have hlower : ∀ cs, ProjectFile.english.toLower cs = [] → cs = [] := fun _ h => List.map_eq_nil_iff.1 h
  exact ((review_faithful ProjectFile.english hlower _ "12").2.2.2.2.2.2 _ hperm).1

end NekoEcat.L4.SdoEvidence
