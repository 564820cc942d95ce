import NekoEcat.L4Gui.Consistency

/-!
# The gate over runs

An operation that clears the flag closes the gate until the next check. History
rows are added to the Watch table with the flag left as it is. A check that
passed still passes after them if each row they add has a value, or if its object
needs none.

* `Grows`: what such rows do to the values of the objects.
* `passing_grows`: a check that passes passes after them.
* `passing_row_iff`: these rows and no others.
* `step_inv`: what each operation keeps.
* `gate_up_to_date`: in a run of such additions the gate passes only what the
  check would pass now.
* `stale_gate`: a history row without a value.
-/
namespace NekoEcat.L4.Consistency
open NekoEcat.Trace NekoEcat.QNumber NekoEcat.QString NekoEcat.L4.SdoWrites NekoEcat.L4.ProjectFile
open NekoEcat.L4.WatchTable (Watch Source historyAddress rowOfTexts addHistoryRow addSelectedHistoryRowsToWatch place
  insertRow setValue toInt_range number_bar)

/-! ## What the gate is for -/

/-- A row of the list that has to be looked at. -/
def Issue.Blocking (issue : Issue) : Prop := issue.level = .error ∨ issue.level = .warning

instance (issue : Issue) : Decidable issue.Blocking := inferInstanceAs (Decidable (_ ∨ _))

/-- The check finds no error and no warning. -/
def Passing (t : Language) (e : Evidence) : Prop := ∀ issue ∈ matrix t e, ¬ issue.Blocking

/-- The texts of the two levels are read as one of them. -/
structure Recognized (t : Language) : Prop where
  error : consistencyIssueLevelFromText t (trimmed (t.uiText "Error")) = .error ∨
    consistencyIssueLevelFromText t (trimmed (t.uiText "Error")) = .warning
  warning : consistencyIssueLevelFromText t (trimmed (t.uiText "Warning")) = .error ∨
    consistencyIssueLevelFromText t (trimmed (t.uiText "Warning")) = .warning

/-- An object without a value of its own: a Free Run or PDO row shows none, or
only the Watch row shows it. -/
def NeedsValue (t : Language) (e : Evidence) (key : String) : Prop :=
  (∃ s ∈ processSignals t e, s.key = key ∧ trimmed s.raw = "") ∨
    ((∀ s ∈ processSignals t e, s.key ≠ key) ∧ (parts key).length = 3)

/-- A row that adds an object has a value, or the object needs none. -/
def SafeHistory (needs : String → Prop) (watch : Watch) (h : Source) : Prop :=
  ∀ position index subIndex, historyAddress h = some (position, index, subIndex) →
    rowOfTexts watch position index subIndex = none → trimmed h.value = "" →
      ¬ needs (ioVariableTableObjectKey position (trimmed index) (trimmed subIndex))

/-- History rows that are added behind a gate that is open. -/
def Safe (t : Language) (s : Window) : Op → Prop
  | .addHistory rows =>
    s.consistencyFresh = true →
      consistencyHasBlockingIssues (consistencyTableIssueCounts t s.consistencyTable) = false →
        Along addHistoryRow (SafeHistory (NeedsValue t s.evidence)) s.evidence.watch rows
  | _ => True

/-! ## The levels of a list -/

section
variable {t : Language}

theorem counts_foldl (table : List String) (counts : ConsistencyIssueCounts)
    (h : consistencyHasBlockingIssues (table.foldl (fun counts level =>
      addConsistencyIssueLevel counts (consistencyIssueLevelFromText t (trimmed level))) counts) = false) :
    consistencyHasBlockingIssues counts = false ∧ ∀ level ∈ table,
      consistencyIssueLevelFromText t (trimmed level) ≠ .error ∧ consistencyIssueLevelFromText t (trimmed level) ≠ .warning := by
  induction table generalizing counts with
  | nil => exact ⟨h, by simp⟩
  | cons level table ih =>
    obtain ⟨hc, htable⟩ := ih _ h
    rw [List.forall_mem_cons]
    cases hl : consistencyIssueLevelFromText t (trimmed level) with
    | error => simp [hl, addConsistencyIssueLevel, consistencyHasBlockingIssues] at hc
    | warning => simp [hl, addConsistencyIssueLevel, consistencyHasBlockingIssues] at hc
    | ready => exact ⟨by simpa [hl, addConsistencyIssueLevel, consistencyHasBlockingIssues] using hc, by simp, htable⟩
    | info => exact ⟨by simpa [hl, addConsistencyIssueLevel, consistencyHasBlockingIssues] using hc, by simp, htable⟩
    | empty => exact ⟨by simpa [hl, addConsistencyIssueLevel, consistencyHasBlockingIssues] using hc, by simp, htable⟩

/-- A list without levels that are read as blocking is one of no error and no
warning. -/
theorem passing_of_counts (ht : Recognized t) {e : Evidence}
    (h : consistencyHasBlockingIssues
      (consistencyTableIssueCounts t ((matrix t e).map fun issue => levelText t issue.level)) = false) : Passing t e := by
  intro issue hmem hblocking
  obtain ⟨he, hw⟩ := (counts_foldl _ _ h).2 (levelText t issue.level) (List.mem_map.2 ⟨issue, hmem, rfl⟩)
  rcases hblocking with hl | hl
  · rw [hl, levelText] at he hw
    exact ht.error.elim he hw
  · rw [hl, levelText] at he hw
    exact ht.warning.elim he hw

theorem gate_passed_iff {s : Window} :
    gate t s = .passed ↔ s.consistencyTable ≠ [] ∧ s.consistencyFresh = true ∧
      consistencyHasBlockingIssues (consistencyTableIssueCounts t s.consistencyTable) = false := by
  unfold gate consistencyGateState
  cases s.consistencyTable <;> cases s.consistencyFresh <;> simp

end

/-! ## What passes -/

/-- A row of the table of variables that asks for nothing. -/
structure PassingVariable (t : Language) (v : Variable) : Prop where
  startup : hasStartupDiffEvidence t v.startup = false
  mapStatus : hasPdoMapIssueEvidence t v.mapStatus = false
  value : v.raw ≠ "" ∨ v.watch ≠ ""

/-- The parts of the list. -/
structure PassingParts (t : Language) (e : Evidence) : Prop where
  topology : ∀ issue ∈ topologyIssues e, ¬ issue.Blocking
  table : ∀ v ∈ ioVariableTable t e, PassingVariable t v
  metadata : ∀ entry ∈ e.ioVariableMetadata.entries, ∃ v ∈ ioVariableTable t e, v.key = entry.1
  startup : ∀ row ∈ e.startup.zipIdx, startupIssues t row = []

section
variable {t : Language} {e : Evidence}

theorem passing_iff_issues : Passing t e ↔ ∀ issue ∈ issues t e, ¬ issue.Blocking := by
  unfold Passing matrix
  split
  · rename_i h
    simp [h, Issue.Blocking, Issue.level]
  · rfl

theorem blocking_variableIssues {table : List Variable} {v : Variable} :
    (∀ issue ∈ variableIssues t table v, ¬ issue.Blocking) ↔ PassingVariable t v := by
  have hsplit : (∀ issue ∈ variableIssues t table v, ¬ issue.Blocking) ↔
      hasStartupDiffEvidence t v.startup = false ∧ hasPdoMapIssueEvidence t v.mapStatus = false ∧
        ¬(v.raw = "" ∧ v.watch = "") := by
    have halias : ∀ b : Prop, [Decidable b] → ∀ issue ∈ (if b then [Issue.noAlias v.key] else []), ¬ issue.Blocking := by
      intro b _ issue h
      split at h
      · rw [List.mem_singleton.1 h]
        simp [Issue.Blocking, Issue.level]
      · cases h
    have hplc : ∀ b : Prop, [Decidable b] → ∀ issue ∈ (if b then [Issue.plcIssue v.key] else []), ¬ issue.Blocking := by
      intro b _ issue h
      split at h
      · rw [List.mem_singleton.1 h]
        simp [Issue.Blocking, Issue.level]
      · cases h
    simp only [variableIssues, List.forall_mem_append]
    constructor
    · rintro ⟨⟨⟨⟨hs, hm⟩, hv⟩, -⟩, -⟩
      refine ⟨?_, ?_, ?_⟩
      · by_contra hd
        rw [if_pos (by simpa using hd)] at hs
        exact hs _ List.mem_cons_self (Or.inl rfl)
      · by_contra hd
        rw [if_pos (by simpa using hd)] at hm
        exact hm _ List.mem_cons_self (Or.inr rfl)
      · intro hd
        rw [if_pos hd] at hv
        exact hv _ List.mem_cons_self (Or.inr rfl)
    · rintro ⟨hs, hm, hv⟩
      refine ⟨⟨⟨⟨?_, ?_⟩, ?_⟩, halias _⟩, hplc _⟩
      · simp [hs]
      · simp [hm]
      · simp [hv]
  rw [hsplit]
  constructor
  · intro h
    exact ⟨h.1, h.2.1, not_and_or.1 h.2.2⟩
  · intro h
    exact ⟨h.startup, h.mapStatus, not_and_or.2 h.value⟩

theorem blocking_startupIssues {row : StartupRow × Nat} :
    (∀ issue ∈ startupIssues t row, ¬ issue.Blocking) ↔ startupIssues t row = [] := by
  constructor
  · intro h
    unfold startupIssues at h ⊢
    split at h
    · exact absurd (Or.inl rfl) (h _ List.mem_cons_self)
    · dsimp only at h ⊢
      split at h
      · exact absurd (Or.inl rfl) (h _ List.mem_cons_self)
      · split at h
        · exact absurd (Or.inr rfl) (h _ List.mem_cons_self)
        · rename_i hd hp
          rw [if_neg hd, if_neg hp]
  · intro h
    simp [h]

theorem blocking_metadataIssues {table : List Variable} {metadata : QHash String Metadata} :
    (∀ issue ∈ metadataIssues table metadata, ¬ issue.Blocking) ↔
      ∀ entry ∈ metadata.entries, ∃ v ∈ table, v.key = entry.1 := by
  have hblocking : ∀ key, (Issue.offlineMetadata key).Blocking := fun _ => Or.inr rfl
  simp only [metadataIssues, List.forall_mem_map, List.mem_filter, QHash.mem_sorted, hblocking]
  constructor
  · intro h entry hentry
    by_contra hno
    have hany : (table.any fun v => v.key == entry.1) = false := by
      rw [List.any_eq_false]
      intro v hv
      simp only [beq_iff_eq]
      exact fun hk => hno ⟨v, hv, hk⟩
    exact h entry ⟨hentry, by simp [hany]⟩ trivial
  · rintro h entry ⟨hentry, hno⟩
    obtain ⟨v, hv, hk⟩ := h entry hentry
    rw [Bool.not_eq_true', List.any_eq_false] at hno
    exact absurd (beq_iff_eq.2 hk) (hno v hv)

theorem passing_iff : Passing t e ↔ PassingParts t e := by
  rw [passing_iff_issues]
  simp only [issues, List.forall_mem_append, List.forall_mem_flatMap, blocking_variableIssues, blocking_metadataIssues,
    blocking_startupIssues]
  constructor
  · rintro ⟨⟨⟨htopology, htable⟩, hmetadata⟩, hstartup⟩
    exact ⟨htopology, htable, hmetadata, hstartup⟩
  · intro h
    exact ⟨⟨⟨h.topology, h.table⟩, h.metadata⟩, h.startup⟩

end

/-! ## Keys -/

theorem splitOn_one {cs : List Char} (h : (cs.splitOn '|').length = 1) : cs.splitOn '|' = [cs] := by
  obtain ⟨q, hq⟩ := List.length_eq_one_iff.1 h
  have hcs := @List.intercalate_splitOn _ cs _ _ '|'
  rw [hq, List.intercalate_singleton] at hcs
  rw [hq, hcs]

/-- What is cut into three parts is cut nowhere else. -/
theorem splitOn_three {a b c : List Char} (ha : '|' ∉ a) (h : ((a ++ '|' :: (b ++ '|' :: c)).splitOn '|').length = 3) :
    (a ++ '|' :: (b ++ '|' :: c)).splitOn '|' = [a, b, c] := by
  rw [List.splitOn_append_cons_self_of_not_mem ha, List.splitOn_append_cons_self] at h ⊢
  simp only [List.length_cons, List.length_append] at h
  have hb := List.length_pos_iff.2 (List.splitOn_ne_nil '|' b)
  have hc := List.length_pos_iff.2 (List.splitOn_ne_nil '|' c)
  rw [@splitOn_one b (by omega), @splitOn_one c (by omega)]
  rfl

section
variable {position : Int} {index subIndex key : String}

theorem objectKey_eq (hpos : 0 ≤ position) (hi : trimmed index ≠ "") (hj : trimmed subIndex ≠ "") :
    ioVariableTableObjectKey position index subIndex = sdoEvidenceKey position index subIndex := by
  rw [ioVariableTableObjectKey, if_neg]
  simp [hi, hj, hpos]

theorem objectKey_normalized : ioVariableTableObjectKey position (normalized index 4) (normalized subIndex 2) =
    ioVariableTableObjectKey position index subIndex := by
  have hidem : ∀ (s : String) (n : Nat), String.ofList (normalizeHexText (normalized s n).toList n) =
      String.ofList (normalizeHexText s.toList n) := fun s n => normalized_normalized s n
  simp only [ioVariableTableObjectKey, trimmed_normalized, normalized_eq_empty, sdoEvidenceKey, hidem]

/-- A key of three parts is that of an address in normal form. -/
theorem parts_objectKey (hpos : 0 ≤ position) (hi : trimmed index ≠ "") (hj : trimmed subIndex ≠ "")
    (h : (parts (ioVariableTableObjectKey position index subIndex)).length = 3) :
    parts (ioVariableTableObjectKey position index subIndex) =
      [QString.number position, normalized index 4, normalized subIndex 2] := by
  have hlist : (ioVariableTableObjectKey position index subIndex).toList = (QString.number position).toList ++
      '|' :: ((normalized index 4).toList ++ '|' :: (normalized subIndex 2).toList) := by
    rw [objectKey_eq hpos hi hj]
    simp [sdoEvidenceKey, String.toList_append, toList_normalized]
  rw [parts, List.length_map, hlist] at h
  rw [parts, hlist, splitOn_three (number_bar position) h]
  simp only [List.map_cons, List.map_nil, String.ofList_toList]

theorem rowKey_some {p i j : String} (h : rowKey p i j = some key) :
    ∃ n, toInt 10 (trimmed p).toList = some n ∧ 0 ≤ n ∧ n < 2 ^ 31 ∧ trimmed i ≠ "" ∧ trimmed j ≠ "" ∧
      key = ioVariableTableObjectKey n (trimmed i) (trimmed j) := by
  unfold rowKey at h
  split at h
  · cases h
  · rename_i n hn
    split at h
    · cases h
    · rename_i hok
      simp only [not_or, not_lt] at hok
      exact ⟨n, hn, hok.1, (toInt_range hn).2, hok.2.1, hok.2.2, (Option.some.inj h).symm⟩

end

/-! ## Rows of the table of variables -/

/-- An address as the Watch table gives it. -/
def WellFormed (key : String) : Prop :=
  ∃ (position : Int) (index subIndex : String), 0 ≤ position ∧ position < 2 ^ 31 ∧ trimmed index ≠ "" ∧
    trimmed subIndex ≠ "" ∧ key = ioVariableTableObjectKey position index subIndex

theorem wellFormed_watch {rows : List WatchTable.Row} {key value : String}
    (h : (watchByObject rows).value key = some value) : WellFormed key := by
  rcases QHash.mem_of_insertEach h with hnone | ⟨r, -, hr⟩
  · cases hnone
  · obtain ⟨key', hkey, heq⟩ := Option.map_eq_some_iff.1 hr
    obtain ⟨n, -, hlow, hhigh, hi, hj, rfl⟩ := rowKey_some hkey
    exact ⟨n, trimmed r.index, trimmed r.subIndex, hlow, hhigh, by rwa [trimmed_trimmed], by rwa [trimmed_trimmed],
      (Prod.ext_iff.1 heq).1.symm⟩

theorem covered_iff {rows : List Signal} {key : String} : covered rows key = true ↔ ∃ s ∈ rows, s.key = key := by
  simp [covered, List.any_eq_true]

/-- What the row of a Watch entry is. -/
structure WatchSignal (entry : String × String) (s : Signal) : Prop where
  key : s.key = entry.1
  raw : s.raw = entry.2
  source : s.source = .watch
  mapStatus : s.mapStatus = ""

theorem appendWatchRow_eq {entry : String × String} (h : WellFormed entry.1) :
    ∃ s, WatchSignal entry s ∧ ∀ rows, appendWatchRow rows entry =
      if (parts entry.1).length = 3 ∧ covered rows entry.1 = false then rows ++ [s] else rows := by
  obtain ⟨position, index, subIndex, hlow, hhigh, hi, hj, hkey⟩ := h
  have hempty : trimmed "" = "" := rfl
  refine ⟨⟨position, normalized (normalized index 4) 4, normalized (normalized subIndex 2) 2, .watch, entry.2, ""⟩,
    ⟨?_, rfl, rfl, rfl⟩, fun rows => ?_⟩
  · rw [Signal.key, objectKey_normalized, objectKey_normalized, hkey]
  · by_cases hlen : (parts entry.1).length = 3
    · have hparts : parts entry.1 = [QString.number position, normalized index 4, normalized subIndex 2] := by
        rw [hkey] at hlen ⊢
        exact parts_objectKey hlow hi hj hlen
      have hread : toInt 10 (QString.number position).toList = some position := toInt_number (by omega) hhigh
      have hni : normalized index 4 ≠ "" := fun h => hi ((normalized_eq_empty _ _).1 h)
      have hnj : normalized subIndex 2 ≠ "" := fun h => hj ((normalized_eq_empty _ _).1 h)
      unfold appendWatchRow
      rw [hparts]
      cases hc : covered rows entry.1
      · simp [hread, appendRow, hempty, hlow, hni, hnj]
      · simp
    · unfold appendWatchRow
      rw [if_neg fun hand => hlen hand.1]
      split
      · rename_i p i j hp
        exact absurd (by rw [hp]; rfl) hlen
      · rfl

section
variable {rows : List Signal} {entries : List (String × String)}

theorem mem_appendWatch (hw : ∀ entry ∈ entries, WellFormed entry.1) {s : Signal}
    (h : s ∈ entries.foldl appendWatchRow rows) :
    s ∈ rows ∨ ∃ entry ∈ entries, (parts entry.1).length = 3 ∧ covered rows entry.1 = false ∧ WatchSignal entry s := by
  induction entries generalizing rows with
  | nil => exact Or.inl h
  | cons entry entries ih =>
    obtain ⟨s', hs', heq⟩ := appendWatchRow_eq (hw entry List.mem_cons_self)
    have hstep : ∀ key, covered (appendWatchRow rows entry) key = false → covered rows key = false := by
      intro key hno
      rw [heq] at hno
      split at hno
      · rw [covered, List.any_append, Bool.or_eq_false_iff] at hno
        exact hno.1
      · exact hno
    rcases ih (fun e he => hw e (List.mem_cons_of_mem _ he)) h with hmem | ⟨e, he, hlen, hno, hsig⟩
    · rw [heq] at hmem
      split at hmem
      · rename_i hadd
        rcases List.mem_append.1 hmem with hmem | hmem
        · exact Or.inl hmem
        · rw [List.mem_singleton.1 hmem]
          exact Or.inr ⟨entry, List.mem_cons_self, hadd.1, hadd.2, hs'⟩
      · exact Or.inl hmem
    · exact Or.inr ⟨e, List.mem_cons_of_mem _ he, hlen, hstep _ hno, hsig⟩

theorem appendWatch_keeps (hw : ∀ entry ∈ entries, WellFormed entry.1) {s : Signal} (h : s ∈ rows) :
    s ∈ entries.foldl appendWatchRow rows := by
  induction entries generalizing rows with
  | nil => exact h
  | cons entry entries ih =>
    obtain ⟨s', -, heq⟩ := appendWatchRow_eq (hw entry List.mem_cons_self)
    apply ih fun e he => hw e (List.mem_cons_of_mem _ he)
    rw [heq]
    split
    · exact List.mem_append_left _ h
    · exact h

theorem appendWatch_covers (hw : ∀ entry ∈ entries, WellFormed entry.1) {entry : String × String} (h : entry ∈ entries)
    (hlen : (parts entry.1).length = 3) : ∃ s ∈ entries.foldl appendWatchRow rows, s.key = entry.1 := by
  induction entries generalizing rows with
  | nil => cases h
  | cons entry' entries ih =>
    have hw' : ∀ e ∈ entries, WellFormed e.1 := fun e he => hw e (List.mem_cons_of_mem _ he)
    rcases List.mem_cons.1 h with rfl | hmem
    · obtain ⟨s, hs, heq⟩ := appendWatchRow_eq (hw entry List.mem_cons_self)
      cases hc : covered rows entry.1 with
      | true =>
        obtain ⟨r, hr, hk⟩ := covered_iff.1 hc
        refine ⟨r, ?_, hk⟩
        rw [List.foldl_cons, heq, if_neg (by simp [hc])]
        exact appendWatch_keeps hw' hr
      | false =>
        refine ⟨s, ?_, hs.key⟩
        rw [List.foldl_cons, heq, if_pos ⟨hlen, hc⟩]
        exact appendWatch_keeps hw' (List.mem_append_right _ List.mem_cons_self)
    · exact ih hw' hmem

end

section
variable {t : Language} {e : Evidence}

theorem wellFormed_entries (rows : List WatchTable.Row) : ∀ entry ∈ (watchByObject rows).entries, WellFormed entry.1 :=
  fun _ h => wellFormed_watch (QHash.mem_iff.1 h)

/-- A row is of a Free Run or PDO row, or of a Watch entry that these do not show. -/
theorem signals_cases {s : Signal} (h : s ∈ signals t e) :
    s ∈ processSignals t e ∨ ∃ value, (watchByObject e.watch.rows).value s.key = some value ∧ s.raw = value ∧
      s.mapStatus = "" ∧ (parts s.key).length = 3 ∧ ∀ r ∈ processSignals t e, r.key ≠ s.key := by
  rcases mem_appendWatch (wellFormed_entries _) h with hmem | ⟨entry, hentry, hlen, hno, hs⟩
  · exact Or.inl hmem
  · refine Or.inr ⟨entry.2, ?_, hs.raw, hs.mapStatus, by rwa [hs.key], ?_⟩
    · rw [hs.key]
      exact QHash.mem_iff.1 hentry
    · intro r hr hk
      rw [← hs.key, Bool.eq_false_iff] at hno
      exact hno (covered_iff.2 ⟨r, hr, hk⟩)

theorem signals_process {s : Signal} (h : s ∈ processSignals t e) : s ∈ signals t e :=
  appendWatch_keeps (wellFormed_entries _) h

theorem signals_watch {key value : String} (h : (watchByObject e.watch.rows).value key = some value)
    (hlen : (parts key).length = 3) : ∃ s ∈ signals t e, s.key = key :=
  appendWatch_covers (wellFormed_entries _) (QHash.mem_iff.2 h) hlen

theorem passingVariable_iff {s : Signal} : PassingVariable t (variableOf e s) ↔
    hasStartupDiffEvidence t (startupText ((startupByObject e.startup).value s.key)) = false ∧
      hasPdoMapIssueEvidence t s.mapStatus = false ∧
        (trimmed s.raw ≠ "" ∨ ((watchByObject e.watch.rows).value s.key).getD "" ≠ "") := by
  have hvalue : ((variableOf e s).raw ≠ "" ∨ (variableOf e s).watch ≠ "") ↔
      (trimmed s.raw ≠ "" ∨ ((watchByObject e.watch.rows).value s.key).getD "" ≠ "") := by
    simp only [variableOf]
    by_cases hc : trimmed s.raw = "" ∧ s.source = .watch
    · rw [if_pos hc]
      have hempty : trimmed "" = "" := rfl
      constructor
      · rintro (h | h)
        · refine Or.inr fun hw => h ?_
          rw [hw, hempty]
        · exact Or.inr h
      · rintro (h | h)
        · exact absurd hc.1 h
        · exact Or.inr h
    · rw [if_neg hc]
  constructor
  · intro h
    exact ⟨h.startup, h.mapStatus, hvalue.1 h.value⟩
  · rintro ⟨hs, hm, hv⟩
    exact ⟨hs, hm, hvalue.2 hv⟩

end

/-! ## Values that are added -/

/-- Objects keep having a Watch row, and one without a value needs none. -/
structure Grows (needs : String → Prop) (old new : QHash String String) : Prop where
  keeps : ∀ key value, old.value key = some value → ∃ value', new.value key = some value'
  blank : ∀ key, new.value key = some "" → old.value key = some "" ∨ ¬ needs key

/-- Startup rows that match have a Watch row. -/
def Link (t : Language) (e : Evidence) : Prop :=
  ∀ r ∈ e.startup, ∀ key, rowKey r.position r.index r.subIndex = some key → isMatch t (trimmed r.watchDelta) →
    ∃ value, (watchByObject e.watch.rows).value key = some value

section
variable {needs : String → Prop}

theorem Grows.refl (h : QHash String String) : Grows needs h h :=
  ⟨fun _ value hv => ⟨value, hv⟩, fun _ hb => Or.inl hb⟩

theorem Grows.trans {h h' h'' : QHash String String} (h1 : Grows needs h h') (h2 : Grows needs h' h'') : Grows needs h h'' where
  keeps := by
    intro key value hv
    obtain ⟨value', hv'⟩ := h1.keeps key value hv
    exact h2.keeps key value' hv'
  blank := by
    intro key hb
    rcases h2.blank key hb with hb' | hn
    · exact h1.blank key hb'
    · exact Or.inr hn

/-- The same entry, or one with a value, is inserted on both sides. -/
theorem Grows.insert {h h' : QHash String String} (hg : Grows needs h h') {key value value' : String}
    (hv : value' = value ∨ value' ≠ "") : Grows needs (h.insert key value) (h'.insert key value') where
  keeps := by
    intro k v
    simp only [QHash.value_insert]
    split
    · exact fun _ => ⟨value', rfl⟩
    · exact hg.keeps k v
  blank := by
    intro k
    simp only [QHash.value_insert]
    split
    · intro hb
      rcases hv with hv | hv
      · exact Or.inl (by rw [← hv, hb])
      · exact absurd (Option.some.inj hb) hv
    · exact hg.blank k

theorem grows_insert (h : QHash String String) {key value : String} (hv : value ≠ "" ∨ ¬ needs key) :
    Grows needs h (h.insert key value) where
  keeps := by
    intro k v hk
    simp only [QHash.value_insert]
    split
    · exact ⟨value, rfl⟩
    · exact ⟨v, hk⟩
  blank := by
    intro k
    simp only [QHash.value_insert]
    split
    · rename_i hkey
      intro hb
      rcases hv with hv | hv
      · exact absurd (Option.some.inj hb) hv
      · exact Or.inr (hkey ▸ hv)
    · exact Or.inl

end

section
variable {t : Language} {e : Evidence}

/-- A Startup row behind a list that passes has a Watch row. -/
theorem watched_of_passing (hlink : Link t e) (hp : ∀ row ∈ e.startup.zipIdx, startupIssues t row = []) {key : String}
    {entry : String × String} (h : (startupByObject e.startup).value key = some entry) :
    ∃ value, (watchByObject e.watch.rows).value key = some value := by
  rcases QHash.mem_of_insertEach h with hnone | ⟨r, hr, hentry⟩
  · cases hnone
  · obtain ⟨key', hkey, heq⟩ := Option.map_eq_some_iff.1 hentry
    obtain ⟨rfl, -⟩ := Prod.ext_iff.1 heq
    obtain ⟨i, hi⟩ := List.mem_iff_getElem?.1 hr
    have hissues := hp (r, i) (List.mk_mem_zipIdx_iff_getElem?.2 hi)
    refine hlink r hr key' hkey ?_
    simp only [startupIssues, hkey] at hissues
    split at hissues
    · cases hissues
    · rename_i hdiff
      split at hissues
      · cases hissues
      · rename_i hpending
        simp only [not_or] at hpending
        by_contra hmatch
        exact hdiff ⟨hpending.1, hmatch, hpending.2⟩

/-- **A list that passes still passes** after values were added. -/
theorem passing_grows (hp : Passing t e) (hlink : Link t e) {watch : Watch}
    (hg : Grows (NeedsValue t e) (watchByObject e.watch.rows) (watchByObject watch.rows)) : Passing t { e with watch := watch } := by
  rw [passing_iff] at hp ⊢
  have hold : ∀ s ∈ signals t e, PassingVariable t (variableOf e s) := fun s hs => hp.table _ (List.mem_map.2 ⟨s, hs, rfl⟩)
  have hshown : ∀ s ∈ signals t e, ∃ s' ∈ signals t { e with watch := watch }, s'.key = s.key := by
    intro s hs
    rcases signals_cases hs with hs | ⟨value, hv, -, -, hlen, -⟩
    · exact ⟨s, signals_process hs, rfl⟩
    · obtain ⟨value', hv'⟩ := hg.keeps s.key value hv
      exact signals_watch hv' hlen
  refine ⟨hp.topology, ?_, ?_, hp.startup⟩
  · intro v hv
    obtain ⟨s, hs, rfl⟩ := List.mem_map.1 hv
    rw [passingVariable_iff]
    rcases signals_cases hs with hs | ⟨value, hv, hraw, hmap, hlen, hfree⟩
    · -- a Free Run or PDO row, as before
      obtain ⟨hstartup, hmap, hvalue⟩ := passingVariable_iff.1 (hold s (signals_process hs))
      refine ⟨hstartup, hmap, ?_⟩
      by_cases hraw : trimmed s.raw = ""
      · right
        intro hblank
        cases hw : (watchByObject e.watch.rows).value s.key with
        | none => simp [hw, hraw] at hvalue
        | some value =>
          obtain ⟨value', hw'⟩ := hg.keeps s.key value hw
          simp only [hw', Option.getD_some] at hblank
          subst hblank
          rcases hg.blank s.key hw' with hb | hn
          · simp [hb, hraw] at hvalue
          · exact hn (Or.inl ⟨s, hs, rfl, hraw⟩)
      · exact Or.inl hraw
    · -- a Watch row
      have hneeds : NeedsValue t e s.key := Or.inr ⟨hfree, hlen⟩
      have hempty : trimmed "" = "" := rfl
      cases hw : (watchByObject e.watch.rows).value s.key with
      | none =>
        have hstartup : (startupByObject e.startup).value s.key = none := by
          cases hst : (startupByObject e.startup).value s.key with
          | none => rfl
          | some entry =>
            obtain ⟨value', hv'⟩ := watched_of_passing hlink hp.startup hst
            rw [hw] at hv'
            cases hv'
        refine ⟨?_, ?_, Or.inr ?_⟩
        · rw [hstartup]
          simp [startupText, hasStartupDiffEvidence, hempty, t.lower_nil, contains]
        · rw [hmap]
          simp [hasPdoMapIssueEvidence, t.lower_nil, contains]
        · rw [hv, Option.getD_some]
          rintro rfl
          rcases hg.blank s.key hv with hb | hn
          · rw [hw] at hb
            cases hb
          · exact hn hneeds
      | some before =>
        obtain ⟨r, hr, hk⟩ := signals_watch (t := t) hw hlen
        obtain ⟨hstartup, -, hvalue⟩ := passingVariable_iff.1 (hold r hr)
        rw [hk] at hstartup hvalue
        refine ⟨hstartup, ?_, Or.inr ?_⟩
        · rw [hmap]
          simp [hasPdoMapIssueEvidence, t.lower_nil, contains]
        · rw [hv, Option.getD_some]
          rintro rfl
          rcases hg.blank s.key hv with hb | hn
          · rcases signals_cases hr with hr | ⟨value, hrv, hrr, -⟩
            · exact hfree r hr hk
            · rw [hk, hb] at hrv
              rw [hb, hrr, ← Option.some.inj hrv] at hvalue
              simp [hempty] at hvalue
          · exact hn hneeds
  · intro entry hentry
    obtain ⟨v, hv, hk⟩ := hp.metadata entry hentry
    obtain ⟨s, hs, rfl⟩ := List.mem_map.1 hv
    obtain ⟨s', hs', hkey⟩ := hshown s hs
    exact ⟨_, List.mem_map.2 ⟨s', hs', rfl⟩, hkey.trans hk⟩

end

/-! ## History rows -/

section
variable {needs : String → Prop}

theorem rowKey_value (r : WatchTable.Row) (value : String) :
    watchEntry { r with value := value } = (rowKey r.position r.index r.subIndex).map fun key => (key, trimmed value) := rfl

/-- A row is given a value. -/
theorem grows_modify (rows : List WatchTable.Row) (row : Nat) {value : String} (hv : trimmed value ≠ "")
    {h h' : QHash String String} (hg : Grows needs h h') :
    Grows needs (QHash.insertEach watchEntry h rows)
      (QHash.insertEach watchEntry h' (rows.modify row fun r => { r with value := value })) := by
  induction rows generalizing row h h' with
  | nil =>
    rw [List.modify_nil]
    exact hg
  | cons r rows ih =>
    have hsame : ∀ {h h' : QHash String String}, Grows needs h h' → ∀ rows,
        Grows needs (QHash.insertEach watchEntry h rows) (QHash.insertEach watchEntry h' rows) := by
      intro h h' hg rows
      induction rows generalizing h h' with
      | nil => exact hg
      | cons r rows ih =>
        rw [QHash.insertEach_cons, QHash.insertEach_cons]
        apply ih
        cases watchEntry r with
        | none => exact hg
        | some entry => exact hg.insert (Or.inl rfl)
    cases row with
    | zero =>
      rw [List.modify_zero_cons, QHash.insertEach_cons, QHash.insertEach_cons]
      apply hsame
      rw [rowKey_value, watchEntry]
      cases rowKey r.position r.index r.subIndex with
      | none => exact hg
      | some key => exact hg.insert (Or.inr hv)
    | succ row =>
      rw [List.modify_succ_cons, QHash.insertEach_cons, QHash.insertEach_cons]
      apply ih
      cases watchEntry r with
      | none => exact hg
      | some entry => exact hg.insert (Or.inl rfl)

theorem watchByObject_append (rows : List WatchTable.Row) (r : WatchTable.Row) :
    watchByObject (rows ++ [r]) =
      match watchEntry r with
      | some entry => (watchByObject rows).insert entry.1 entry.2
      | none => watchByObject rows := by
  simp only [watchByObject, QHash.insertEach, List.foldl_append, List.foldl_cons, List.foldl_nil]
  cases watchEntry r <;> rfl

/-- A row is added that has a value, or whose object needs none. -/
theorem grows_append (rows : List WatchTable.Row) (r : WatchTable.Row)
    (h : ∀ key, rowKey r.position r.index r.subIndex = some key → trimmed r.value ≠ "" ∨ ¬ needs key) :
    Grows needs (watchByObject rows) (watchByObject (rows ++ [r])) := by
  rw [watchByObject_append, watchEntry]
  cases hk : rowKey r.position r.index r.subIndex with
  | none => exact Grows.refl _
  | some key => exact grows_insert _ (h key hk)

theorem historyAddress_range {h : Source} {position : Int} {index subIndex : String}
    (ha : historyAddress h = some (position, index, subIndex)) : 0 ≤ position ∧ position < 2 ^ 31 := by
  unfold historyAddress at ha
  simp only at ha
  split at ha
  · cases ha
  · rename_i n hn
    split at ha
    · cases ha
    · rename_i hok
      simp only [not_or, not_lt] at hok
      simp only [Option.some.injEq, Prod.mk.injEq] at ha
      rw [← ha.1]
      exact ⟨hok.1, (toInt_range hn).2⟩

theorem modify_length (rows : List WatchTable.Row) (r : WatchTable.Row) (f : WatchTable.Row → WatchTable.Row) :
    (rows ++ [r]).modify rows.length f = rows ++ [f r] := by
  induction rows with
  | nil => rfl
  | cons r' rows ih => simpa using ih

theorem trim_ne_nil {cs : List Char} {c : Char} (hc : c ∈ cs) (h : isSpace c = false) : trim cs ≠ [] := by
  intro hnil
  have hall : ∀ x ∈ cs.dropWhile isSpace, isSpace x = true := by
    have hreverse := List.dropWhile_eq_nil_iff.1 (List.reverse_eq_nil_iff.1 hnil)
    exact fun x hx => hreverse x (List.mem_reverse.2 hx)
  rw [← List.takeWhile_append_dropWhile (p := isSpace) (l := cs)] at hc
  rcases List.mem_append.1 hc with hc | hc
  · rw [List.mem_takeWhile_imp hc] at h
    cases h
  · rw [hall c hc] at h
    cases h

theorem trimmed_prefixed {s : String} (h : trimmed s ≠ "") : trimmed (prefixed (trimmed s)) ≠ "" := by
  unfold prefixed
  split
  · rwa [trimmed_trimmed]
  · intro hempty
    have hlist := congrArg String.toList hempty
    rw [toList_trimmed] at hlist
    exact trim_ne_nil (c := '0') (by simp [String.toList_append]) rfl hlist

theorem historyAddress_ink {h : Source} {position : Int} {index subIndex : String}
    (ha : historyAddress h = some (position, index, subIndex)) : trimmed index ≠ "" ∧ trimmed subIndex ≠ "" := by
  unfold historyAddress at ha
  simp only at ha
  split at ha
  · cases ha
  · split at ha
    · cases ha
    · rename_i hok
      simp only [not_or] at hok
      simp only [Option.some.injEq, Prod.mk.injEq] at ha
      rw [← ha.2.1, ← ha.2.2]
      refine ⟨by rw [trimmed_trimmed]; exact hok.2.1, trimmed_prefixed ?_⟩
      intro hblank
      exact hok.2.2 (by rw [hblank]; rfl)

/-- The key of a row that is inserted for an address. -/
theorem rowKey_number {position : Int} (hpos : 0 ≤ position) (hhigh : position < 2 ^ 31) {index subIndex : String}
    (hi : trimmed index ≠ "") (hj : trimmed subIndex ≠ "") :
    rowKey (QString.number position) index subIndex =
      some (ioVariableTableObjectKey position (trimmed index) (trimmed subIndex)) := by
  have hread : toInt 10 (trimmed (QString.number position)).toList = some position := by
    rw [toList_trimmed, toInt_trim]
    exact toInt_number (by omega) hhigh
  unfold rowKey
  rw [hread]
  simp [hi, hj, hpos]

theorem addHistoryRow_grows {watch : Watch} {h : Source} (hsafe : SafeHistory needs watch h) :
    Grows needs (watchByObject watch.rows) (watchByObject (addHistoryRow watch h).rows) := by
  unfold addHistoryRow
  split
  · exact Grows.refl _
  · rename_i position index subIndex haddress
    obtain ⟨hpos, hhigh⟩ := historyAddress_range haddress
    obtain ⟨hi, hj⟩ := historyAddress_ink haddress
    have hval : trimmed h.value ≠ "" → trimmed (trimmed h.value) ≠ "" := fun hne => by rwa [trimmed_trimmed]
    cases hfound : rowOfTexts watch position index subIndex with
    | some row =>
      simp only [place]
      split
      · exact Grows.refl _
      · rename_i hne
        exact grows_modify watch.rows row (hval hne) (Grows.refl _)
    | none =>
      simp only [place, insertRow]
      split
      · rename_i hblank
        apply grows_append
        intro key hkey
        rw [rowKey_number hpos hhigh hi hj] at hkey
        rw [← Option.some.inj hkey]
        exact Or.inr (hsafe position index subIndex haddress hfound hblank)
      · rename_i hne
        simp only [setValue, modify_length]
        exact grows_append _ _ fun _ _ => Or.inl (hval hne)

theorem addHistory_grows {watch : Watch} {rows : List Source} (hsafe : Along addHistoryRow (SafeHistory needs) watch rows) :
    Grows needs (watchByObject watch.rows) (watchByObject (addSelectedHistoryRowsToWatch watch rows).rows) := by
  have hrun := foldl_inv_guarded addHistoryRow (I := fun w => Grows needs (watchByObject watch.rows) (watchByObject w.rows))
    (G := SafeHistory needs) (fun w h hg hs => hg.trans (addHistoryRow_grows hs)) rows (Grows.refl _) hsafe
  exact hrun

end

/-- **No other rows are safe**: one more row leaves a list that passes as it is iff
it is safe. -/
theorem passing_row_iff {t : Language} {e : Evidence} (hp : Passing t e) (hlink : Link t e) (h : Source) :
    Passing t { e with watch := addHistoryRow e.watch h } ↔ SafeHistory (NeedsValue t e) e.watch h := by
  constructor
  · intro hp' position index subIndex haddress hfound hblank hneeds
    obtain ⟨hpos, hhigh⟩ := historyAddress_range haddress
    obtain ⟨hi, hj⟩ := historyAddress_ink haddress
    have hrows : (addHistoryRow e.watch h).rows = e.watch.rows ++ [⟨QString.number position, index, subIndex, ""⟩] := by
      simp only [addHistoryRow, haddress, hfound, hblank, place, insertRow, if_pos]
    have hvalue : (watchByObject (addHistoryRow e.watch h).rows).value
        (ioVariableTableObjectKey position (trimmed index) (trimmed subIndex)) = some "" := by
      rw [hrows, watchByObject_append, watchEntry, rowKey_number hpos hhigh hi hj, Option.map_some, QHash.value_insert,
        if_pos rfl]
      rfl
    have htable := (passing_iff.1 hp').table
    -- some row shows the object without a value
    obtain ⟨s, hs, hkey, hraw⟩ : ∃ s ∈ signals t { e with watch := addHistoryRow e.watch h },
        s.key = ioVariableTableObjectKey position (trimmed index) (trimmed subIndex) ∧ trimmed s.raw = "" := by
      rcases hneeds with ⟨s, hs, hkey, hraw⟩ | ⟨hfree, hlen⟩
      · exact ⟨s, signals_process hs, hkey, hraw⟩
      · obtain ⟨s, hs, hkey⟩ := signals_watch (t := t) (e := { e with watch := addHistoryRow e.watch h }) hvalue hlen
        rcases signals_cases hs with hs' | ⟨value, hv, hraw, -⟩
        · exact absurd hkey (hfree s hs')
        · rw [hkey] at hv
          refine ⟨s, hs, hkey, ?_⟩
          rw [hraw, ← Option.some.inj (hvalue.symm.trans hv)]
          rfl
    have hpassing := (passingVariable_iff.1 (htable _ (List.mem_map.2 ⟨s, hs, rfl⟩))).2.2
    rw [hkey, hraw] at hpassing
    simp [hvalue] at hpassing
  · exact fun hsafe => passing_grows hp hlink (addHistoryRow_grows hsafe)

/-! ## Steps -/

/-- What every step keeps. -/
structure Inv (t : Language) (s : Window) : Prop where
  link : Link t s.evidence
  passing : s.consistencyFresh = true →
    consistencyHasBlockingIssues (consistencyTableIssueCounts t s.consistencyTable) = false → Passing t s.evidence

section
variable {t : Language} {s : Window}

/-- Startup rows are compared anew. -/
theorem link_updated (e : Evidence) : Link t (updateStartupSdoWatchEvidence t e) := by
  intro r hr key hkey hmatch
  obtain ⟨r', -, rfl⟩ := List.mem_map.1 hr
  cases hw : (watchByObject e.watch.rows).value key with
  | some value => exact ⟨value, hw⟩
  | none =>
    have hkey' : rowKey r'.position r'.index r'.subIndex = some key := hkey
    simp only [startupDelta, hkey', hw] at hmatch
    rcases hmatch with hm | hm
    · exact absurd hm t.noWatch.1
    · exact absurd hm t.noWatch.2

/-- The flag is cleared, and the Watch and Startup tables are those of before. -/
theorem changed_inv (h : Inv t s) {e : Evidence} (hwatch : e.watch = s.evidence.watch)
    (hstartup : e.startup = s.evidence.startup) : Inv t (changed s e) where
  link := by
    intro r hr key hkey hmatch
    have hr' : r ∈ s.evidence.startup := hstartup ▸ hr
    obtain ⟨value, hv⟩ := h.link r hr' key hkey hmatch
    exact ⟨value, by rw [← hwatch] at hv; exact hv⟩
  passing := by
    intro hfresh
    cases hfresh

theorem updated_inv (s : Window) (e : Evidence) : Inv t (changed s (updateStartupSdoWatchEvidence t e)) where
  link := link_updated e
  passing := by
    intro hfresh
    cases hfresh

theorem updateSlaves_inv (h : Inv t s) (slaves : List SlaveInfo) : Inv t (updateSlaves s slaves) := by
  unfold updateSlaves
  dsimp only
  split
  · refine ⟨h.link, fun hfresh => h.passing ?_⟩
    dsimp only at hfresh
    split at hfresh
    · exact hfresh
    · cases hfresh
  · split
    · exact changed_inv h rfl rfl
    · exact changed_inv h rfl rfl

theorem addHistory_inv (h : Inv t s) {rows : List Source} (hsafe : Safe t s (.addHistory rows)) :
    Inv t (step t s (.addHistory rows)) where
  link := by
    intro r hr key hkey hmatch
    obtain ⟨value, hv⟩ := h.link r hr key hkey hmatch
    have hkept : Along addHistoryRow (SafeHistory fun _ => False) s.evidence.watch rows :=
      along_of_forall _ (fun _ _ _ _ _ _ _ _ => id) _ _
    exact (addHistory_grows hkept).keeps key value hv
  passing := by
    intro hfresh hcounts
    exact passing_grows (h.passing hfresh hcounts) h.link (addHistory_grows (hsafe hfresh hcounts))

theorem step_inv (ht : Recognized t) (h : Inv t s) {op : Op} (hsafe : Safe t s op) : Inv t (step t s op) := by
  cases op with
  | check => exact ⟨h.link, fun _ hcounts => passing_of_counts ht hcounts⟩
  | scan slaves => exact updateSlaves_inv h slaves
  | captureBaseline =>
    simp only [step]
    split
    · exact h
    · exact changed_inv h rfl rfl
  | clearBaseline => exact changed_inv h rfl rfl
  | pdoListing position text =>
    simp only [step]
    split
    · exact h
    · exact changed_inv h rfl rfl
  | freeRun entries => exact changed_inv h rfl rfl
  | sdoValue position index subIndex value => exact updated_inv s _
  | addCurrent sdoIndex sdoSubIndex sdoValue =>
    simp only [step]
    split
    · exact h
    · exact updated_inv s _
  | addHistory rows => exact addHistory_inv h hsafe
  | addBookmarks rows =>
    simp only [step]
    split
    · exact h
    · exact updated_inv s _
  | editStartup rows => exact updated_inv s _

theorem inv_opened (t : Language) (e : Evidence) : Inv t (opened t e) where
  link := link_updated e
  passing := by
    intro hfresh
    cases hfresh

end

/-- **What the gate passes is up to date**, in a run in which the history rows added
behind an open gate have values or need none. -/
theorem gate_up_to_date (t : Language) (ht : Recognized t) (e : Evidence) (σ : Nat → Op) (n : Nat)
    (hsafe : ∀ m < n, Safe t (trace (step t) (opened t e) σ m) (σ m)) :
    gate t (trace (step t) (opened t e) σ n) = .passed → Passing t (trace (step t) (opened t e) σ n).evidence := by
  intro hpassed
  obtain ⟨-, hfresh, hcounts⟩ := gate_passed_iff.1 hpassed
  exact (trace_inv_guarded (step t) (opened t e) σ (I := Inv t) (G := Safe t) (inv_opened t e)
    (fun _ _ h hs => step_inv ht h hs) n hsafe).passing hfresh hcounts

/-! ## A run of English texts -/

def english : Language :=
  { ProjectFile.english with
    plcIssue := fun _ _ => false
    lower_nil := rfl
    noWatch := by decide +kernel }

theorem recognized_english : Recognized english where
  error := by decide +kernel
  warning := by decide +kernel

def nothing : Evidence := ⟨[], [], none, -1, [], [], WatchTable.initial, [], QHash.empty⟩

def sampleSlaves : List SlaveInfo := [⟨0, "OP", "+", "EL2004", "0  0:0  OP  +  EL2004"⟩]

/-- A slave whose baseline is captured, a check, and a row of the history. -/
def sampleRun (value : String) : List Op :=
  [.scan sampleSlaves, .captureBaseline, .check, .addHistory [⟨"0", "0x6040", "0x00", value⟩]]

theorem gate_up_to_date_sample :
    gate english (trace (step english) (opened english nothing) (sched (sampleRun "0x0006") .check) 4) = .passed ∧
      Passing english (trace (step english) (opened english nothing) (sched (sampleRun "0x0006") .check) 4).evidence := by
  have hgate : gate english (trace (step english) (opened english nothing) (sched (sampleRun "0x0006") .check) 4) =
      .passed := by decide +kernel
  refine ⟨hgate, gate_up_to_date english recognized_english nothing _ 4 ?_ hgate⟩
  intro m hm
  obtain rfl | rfl | rfl | rfl : m = 0 ∨ m = 1 ∨ m = 2 ∨ m = 3 := by omega
  · exact trivial
  · exact trivial
  · exact trivial
  · intro _ _
    refine ⟨fun position index subIndex _ _ hblank => ?_, trivial⟩
    have hvalue : trimmed "0x0006" ≠ "" := by decide +kernel
    exact absurd hblank hvalue

/-- The history row has no value: the gate stays open, and the check would not pass. -/
theorem stale_gate :
    ¬ ∀ (t : Language) (e : Evidence) (σ : Nat → Op) (n : Nat),
      gate t (trace (step t) (opened t e) σ n) = .passed → Passing t (trace (step t) (opened t e) σ n).evidence := by
  intro h
  have hpassing := h english nothing (sched (sampleRun "") .check) 4 (by decide +kernel)
  have hissue : Issue.missingValue "0|0x6040|0x00" ∈
      matrix english (trace (step english) (opened english nothing) (sched (sampleRun "") .check) 4).evidence := by
    decide +kernel
  exact hpassing _ hissue (Or.inr rfl)

end NekoEcat.L4.Consistency
