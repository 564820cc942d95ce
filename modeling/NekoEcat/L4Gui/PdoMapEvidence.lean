import NekoEcat.L4Gui.ConsistencyGate

/-!
# The evidence of a PDO map

The telemetry looks an entry up in the PDO map of the selected slave. The first
row with the entry's address decides, also where a later row fits; and a row's
direction is read off its whole PDO column, the PDO's name included.

* `pdoMapEvidence_eq`: the text is that of one of five answers.
* `evidence_iff`: exactly when the answer is the map's.
-/
namespace NekoEcat.L4.Consistency
open NekoEcat.QNumber NekoEcat.QString NekoEcat.L4.SdoWrites NekoEcat.L4.ProjectFile
open NekoEcat.L4.PdoListing (PdoRow)

/-! ## Answers -/

inductive MapStatus where
  | noMap
  | notLoaded
  | missing
  | mapped
  | warning (mismatches : List String)
  deriving DecidableEq, Repr

section
variable (t : Language)

def MapStatus.text : MapStatus → String
  | .noMap => t.uiText "No PDO map"
  | .notLoaded => t.uiText "Map not loaded for slave"
  | .missing => t.uiText "Missing in PDO map"
  | .mapped => t.uiText "Mapped"
  | .warning mismatches => arg (t.uiText "Mapped warning: %1") ("; ".intercalate mismatches)

/-- The row has the entry's address. -/
def hasAddress (entry : TelemetryEntry) (r : PdoRow) : Bool :=
  normalized (trimmed (String.ofList r.index)) 4 == normalized entry.index 4 &&
    normalized (trimmed (String.ofList r.sub)) 2 == normalized entry.subIndex 2

/-- Two directions are known and differ. -/
def Differ (a b : String) : Prop := a ≠ "" ∧ b ≠ "" ∧ a ≠ b

/-- Two widths are known and differ. -/
def WidthsDiffer (entry : TelemetryEntry) (r : PdoRow) : Prop :=
  0 < entry.bits.toInt ∧ 0 < intOf (trimmed (String.ofList r.bits)) ∧
    entry.bits.toInt ≠ intOf (trimmed (String.ofList r.bits))

instance (a b : String) : Decidable (Differ a b) := inferInstanceAs (Decidable (_ ∧ _ ∧ _))

instance (entry : TelemetryEntry) (r : PdoRow) : Decidable (WidthsDiffer entry r) :=
  inferInstanceAs (Decidable (_ ∧ _ ∧ _))

/-- What is read off the row's PDO column. -/
def columnClass (r : PdoRow) : String := directionClass t (trimmed (String.ofList r.pdo))

def mismatches (entry : TelemetryEntry) (r : PdoRow) : List String :=
  (if Differ (directionClass t entry.direction) (columnClass t r) then [t.uiText "direction mismatch"] else []) ++
    if WidthsDiffer entry r then
      [arg (arg (t.uiText "bit mismatch %1/%2") (QString.number entry.bits.toInt))
        (QString.number (intOf (trimmed (String.ofList r.bits))))]
    else []

/-- mirrors apps/ecat-studio/workspaces/MainWindowTopologyUi.cpp:505-551 -/
def mapStatus (e : Evidence) (entry : TelemetryEntry) : MapStatus :=
  if e.pdoTable = [] then .noMap
  else if entry.slave.toInt ≠ selectedPosition e then .notLoaded
  else
    match e.pdoTable.find? (hasAddress entry) with
    | none => .missing
    | some r => if mismatches t entry r = [] then .mapped else .warning (mismatches t entry r)

theorem pdoMapEvidence_eq (e : Evidence) (entry : TelemetryEntry) :
    pdoMapEvidence t e entry = (mapStatus t e entry).text t := by
  unfold pdoMapEvidence mapStatus
  split
  · rfl
  split
  · rfl
  show (match e.pdoTable.find? (hasAddress entry) with | none => _ | some r => _) = _
  cases e.pdoTable.find? (hasAddress entry) with
  | none => rfl
  | some r =>
    show (if mismatches t entry r = [] then _ else _) = _
    by_cases h : mismatches t entry r = []
    · rw [if_pos h]; simp only [if_pos h]; rfl
    · rw [if_neg h]; simp only [if_neg h]; rfl

/-! ## What the map says -/

/-- The direction of a row by the heading of its PDO. -/
def headingClass (r : PdoRow) : String :=
  if "RxPDO".toList <+: r.pdo then "rx" else if "TxPDO".toList <+: r.pdo then "tx" else ""

/-- A row of the entry's direction and width, as far as they are known. -/
def Compatible (entry : TelemetryEntry) (r : PdoRow) : Prop :=
  ¬ Differ (directionClass t entry.direction) (headingClass r) ∧ ¬ WidthsDiffer entry r

instance (entry : TelemetryEntry) (r : PdoRow) : Decidable (Compatible t entry r) :=
  inferInstanceAs (Decidable (_ ∧ _))

/-- Some row of the entry's address is compatible. -/
def Fits (e : Evidence) (entry : TelemetryEntry) : Prop :=
  ∃ r ∈ e.pdoTable, hasAddress entry r = true ∧ Compatible t entry r

/-- The answer is the map's. -/
structure Right (e : Evidence) (entry : TelemetryEntry) (s : MapStatus) : Prop where
  mapped : s = .mapped ↔ Fits t e entry
  warning : (∃ mismatches, s = .warning mismatches) ↔
    (∃ r ∈ e.pdoTable, hasAddress entry r = true) ∧
      ∀ r ∈ e.pdoTable, hasAddress entry r = true → ¬ Compatible t entry r
  missing : s = .missing ↔ ∀ r ∈ e.pdoTable, hasAddress entry r = false

variable {t}

theorem mismatches_eq_nil {entry : TelemetryEntry} {r : PdoRow} :
    mismatches t entry r = [] ↔
      ¬ Differ (directionClass t entry.direction) (columnClass t r) ∧ ¬ WidthsDiffer entry r := by
  unfold mismatches
  rw [List.append_eq_nil_iff]
  refine and_congr ?_ ?_ <;> split <;> simp [*]

/-- What is right when some row has the address. -/
theorem right_found {e : Evidence} {entry : TelemetryEntry} {r : PdoRow}
    (hr : e.pdoTable.find? (hasAddress entry) = some r) (fits : Prop) [Decidable fits] {issues : List String} :
    Right t e entry (if fits then .mapped else .warning issues) ↔ (fits ↔ Fits t e entry) := by
  have hmem := List.mem_of_find?_eq_some hr
  have haddr := List.find?_some hr
  have hwarn : (∃ r ∈ e.pdoTable, hasAddress entry r = true) ∧
      (∀ r ∈ e.pdoTable, hasAddress entry r = true → ¬ Compatible t entry r) ↔ ¬ Fits t e entry := by
    unfold Fits
    push Not
    exact and_iff_right ⟨r, hmem, haddr⟩
  have hmissing : ¬ ∀ r ∈ e.pdoTable, hasAddress entry r = false := by
    intro h
    rw [h r hmem] at haddr
    cases haddr
  constructor
  · intro h
    rw [← h.mapped]
    by_cases hf : fits <;> simp [hf]
  · intro h
    refine ⟨?_, ?_, ?_⟩
    · rw [← h]
      by_cases hf : fits <;> simp [hf]
    · rw [hwarn, ← h]
      by_cases hf : fits <;> simp [hf]
    · refine iff_of_false ?_ hmissing
      by_cases hf : fits <;> simp [hf]

/-- **The evidence, exactly.** For an entry of the selected slave the text is
that of an answer, and the answer is the map's if and only if the map has rows
and, where rows have the entry's address, the first of them has no mismatch
exactly when one of them is compatible. -/
theorem evidence_iff (e : Evidence) (entry : TelemetryEntry) (hslave : entry.slave.toInt = selectedPosition e) :
    pdoMapEvidence t e entry = (mapStatus t e entry).text t ∧
      (Right t e entry (mapStatus t e entry) ↔
        e.pdoTable ≠ [] ∧ ∀ r, e.pdoTable.find? (hasAddress entry) = some r →
          (¬ Differ (directionClass t entry.direction) (columnClass t r) ∧ ¬ WidthsDiffer entry r ↔
            Fits t e entry)) := by
  refine ⟨pdoMapEvidence_eq t e entry, ?_⟩
  unfold mapStatus
  by_cases hrows : e.pdoTable = []
  · rw [if_pos hrows]
    refine iff_of_false (fun h => ?_) fun h => h.1 hrows
    have := h.missing.2 (by rw [hrows]; exact nofun)
    cases this
  · rw [if_neg hrows, if_neg (not_not.2 hslave), and_iff_right hrows]
    cases hr : e.pdoTable.find? (hasAddress entry) with
    | none =>
      have hnone : ∀ r ∈ e.pdoTable, hasAddress entry r = false := by
        intro r hm
        have := List.find?_eq_none.1 hr r hm
        simpa using this
      have hfits : ¬ Fits t e entry := by
        rintro ⟨r, hm, ha, -⟩
        rw [hnone r hm] at ha
        cases ha
      refine iff_of_true ⟨?_, ?_, iff_of_true rfl hnone⟩ nofun
      · exact iff_of_false nofun hfits
      · refine iff_of_false nofun ?_
        rintro ⟨⟨r, hm, ha⟩, -⟩
        rw [hnone r hm] at ha
        cases ha
    | some r =>
      dsimp only
      rw [right_found hr, mismatches_eq_nil]
      constructor
      · rintro h r' ⟨⟩
        exact h
      · exact fun h => h r rfl

end

/-! ## Maps of one slave -/

/-- The slave is selected and its map is loaded. -/
def mapped (rows : List PdoRow) : Evidence :=
  { nothing with slaves := sampleSlaves, current := some 0, loadedPdoPosition := 0, pdoTable := rows }

def mapRow (pdo index : String) : PdoRow :=
  ⟨"SM3 (2 bytes)".toList, pdo.toList, index.toList, "01".toList, "16".toList, "Level".toList⟩

/-- An input of 16 bits. -/
def inputEntry : TelemetryEntry := ⟨0, "TxPDO", "0x7000", "0x01", 16, "5"⟩

theorem evidence_iff_input :
    Right english (mapped [mapRow "TxPDO 0x1a00 Inputs" "0x7000"]) inputEntry
      (mapStatus english (mapped [mapRow "TxPDO 0x1a00 Inputs" "0x7000"]) inputEntry) := by
  have hslave : inputEntry.slave.toInt = selectedPosition (mapped [mapRow "TxPDO 0x1a00 Inputs" "0x7000"]) := by
    decide +kernel
  refine (evidence_iff _ _ hslave).2.2 ⟨List.cons_ne_nil _ _, fun r hr => ?_⟩
  obtain rfl := List.mem_singleton.1 (List.mem_of_find?_eq_some hr)
  exact iff_of_true (by decide +kernel) ⟨_, List.mem_singleton_self _, by decide +kernel⟩

/-- **Rows that hide the one that fits.** The object is mapped as an output and
as an input: the input's row is there, and the answer is a warning. So it is
when the input's PDO has a name with the word output. -/
theorem hidden_rows :
    mapStatus english (mapped [mapRow "RxPDO 0x1600 Outputs" "0x7000", mapRow "TxPDO 0x1a00 Inputs" "0x7000"])
        inputEntry = .warning ["direction mismatch"] ∧
      ¬ Right english (mapped [mapRow "RxPDO 0x1600 Outputs" "0x7000", mapRow "TxPDO 0x1a00 Inputs" "0x7000"])
        inputEntry (.warning ["direction mismatch"]) ∧
      mapStatus english (mapped [mapRow "TxPDO 0x1a00 Output state" "0x7000"]) inputEntry =
        .warning ["direction mismatch"] ∧
      ¬ Right english (mapped [mapRow "TxPDO 0x1a00 Output state" "0x7000"]) inputEntry
        (.warning ["direction mismatch"]) := by
  refine ⟨by decide +kernel, fun h => ?_, by decide +kernel, fun h => ?_⟩
  · have hfits := h.mapped.2 ⟨_, List.mem_cons_of_mem _ (List.mem_singleton_self _), by decide +kernel⟩
    cases hfits
  · have hfits := h.mapped.2 ⟨_, List.mem_singleton_self _, by decide +kernel⟩
    cases hfits

end NekoEcat.L4.Consistency
