import NekoEcat.Core.Csv
import NekoEcat.Core.JsonRows
import NekoEcat.Core.QString

/-!
# Exporting tables

A table is exported as CSV, a line for each row, or as a JSON array, an object for
each row that has the cells under the texts of the column headers. The files are
written as they are: `QIODevice::Text` changes no line endings here.

* `read_csvText`: the CSV text is read back.
* `held_iff`: an object holds the cells of its row if columns of the same header
  have the same cells.
* `export_lossless_iff`: when both formats lose nothing.
-/
namespace NekoEcat.L4.ExportService
open NekoEcat.QJson NekoEcat.QString NekoEcat.JsonRows

/-! ## The code -/

/-- mirrors apps/ecat-studio/services/ExportService.h:28-33 -/
structure ExportOptions where
  delimiter : Char
  includeHeaders : Bool
  quoteStrings : Bool
  lineEnding : String

def defaultOptions : ExportOptions := ⟨',', true, true, "\n"⟩

/-- `QTableWidget`: there may be no item for a header or a cell. -/
structure QTableWidget where
  rowCount : Nat
  columnCount : Nat
  horizontalHeaderItem : Nat → Option String
  item : Nat → Nat → Option String

namespace QTableWidget

def headerText (t : QTableWidget) (c : Nat) : String := (t.horizontalHeaderItem c).getD ""

def itemText (t : QTableWidget) (r c : Nat) : String := (t.item r c).getD ""

def headerTexts (t : QTableWidget) : List String := (List.range t.columnCount).map t.headerText

def cells (t : QTableWidget) : List (List String) :=
  (List.range t.rowCount).map fun r => (List.range t.columnCount).map (t.itemText r)

end QTableWidget

variable (o : ExportOptions) (t : QTableWidget)

def fieldText (text : List Char) : List Char := if o.quoteStrings = true then Csv.quotedField text else text

/-- mirrors apps/ecat-studio/services/ExportService.cpp:42-53, 56-66 -/
def line (texts : List String) : List Char :=
  Csv.joined o.delimiter (fieldText o) (texts.map String.toList) ++ o.lineEnding.toList

/-- mirrors apps/ecat-studio/services/ExportService.cpp:38-67 -/
def csvText : List Char :=
  (if o.includeHeaders = true then line o t.headerTexts else []) ++ t.cells.flatMap (line o)

/-- mirrors apps/ecat-studio/services/ExportService.cpp:94-100 -/
def headers : List String := if o.includeHeaders = true then t.headerTexts else []

/-- mirrors apps/ecat-studio/services/ExportService.cpp:107 -/
def key (c : Nat) : String := (headers o t)[c]?.getD (QString.number c)

/-- mirrors apps/ecat-studio/services/ExportService.cpp:103-109 -/
def row (r : Nat) : QJsonObject :=
  (List.range t.columnCount).foldl (fun row c => QJson.insert (key o t c) (.string (t.itemText r c)) row) []

/-- mirrors apps/ecat-studio/services/ExportService.cpp:90-111 -/
def rows : List QJsonObject := (List.range t.rowCount).map (row o t)

def jsonText : List Char := indented (rows o t)

/-- Whether the file can be opened and written. -/
structure Device where
  opens : Bool
  writes : Bool

/-- The file that is written. -/
def exportText (text : QTableWidget → List Char) (table : Option QTableWidget) (path : String) (device : Device) :
    Except String (List Char) :=
  match table with
  | none => .error "Null table widget"
  | some t =>
    if path = "" then .error "Export path is empty"
    else if device.opens = false then .error ("Cannot open file: " ++ path)
    else if device.writes = false then .error ("Cannot write file: " ++ path)
    else .ok (text t)

/-- mirrors apps/ecat-studio/services/ExportService.cpp:20-77 -/
def exportToCsv (table : Option QTableWidget) (path : String) (device : Device) : Except String (List Char) :=
  exportText (csvText o) table path device

/-- mirrors apps/ecat-studio/services/ExportService.cpp:79-126 -/
def exportToJson (table : Option QTableWidget) (path : String) (device : Device) : Except String (List Char) :=
  exportText (jsonText o) table path device

theorem exportText_ok {text : QTableWidget → List Char} {path : String} {device : Device} {file : List Char}
    (h : exportText text (some t) path device = .ok file) : text t = file := by
  unfold exportText at h
  dsimp only at h
  split at h
  · cases h
  split at h
  · cases h
  split at h
  · cases h
  · exact Except.ok.inj h

/-! ## CSV -/

variable {o t}

/-- **The CSV text is read back.** -/
theorem read_csvText (hheaders : o.includeHeaders = true) (hquotes : o.quoteStrings = true) (hquote : o.delimiter ≠ '"')
    (hcr : o.delimiter ≠ '\r') (hlf : o.delimiter ≠ '\n') (hending : o.lineEnding = "\n" ∨ o.lineEnding = "\r\n")
    (hcolumns : 0 < t.columnCount) :
    Csv.read o.delimiter (csvText o t) = some ((t.headerTexts :: t.cells).map (List.map String.toList)) := by
  have hfield : fieldText o = Csv.quotedField := funext fun _ => if_pos hquotes
  have hline : line o = fun texts =>
      Csv.joined o.delimiter Csv.quotedField (texts.map String.toList) ++ o.lineEnding.toList :=
    funext fun texts => by rw [line, hfield]
  have hlines : csvText o t = Csv.records o.delimiter o.lineEnding.toList Csv.quotedField
      ((t.headerTexts :: t.cells).map (List.map String.toList)) := by
    rw [csvText, if_pos hheaders, Csv.records, List.flatMap_map, List.flatMap_cons, hline]
  have hnil : List.range t.columnCount ≠ [] := by simpa using hcolumns.ne'
  rw [hlines]
  have hends := hending.imp (congrArg String.toList) (congrArg String.toList)
  refine Csv.read_records hquote hcr hlf hends fun record hmem => ?_
  obtain ⟨texts, htexts, rfl⟩ := List.mem_map.1 hmem
  rw [Ne, List.map_eq_nil_iff]
  rcases List.mem_cons.1 htexts with rfl | htexts
  · exact fun h => hnil (List.map_eq_nil_iff.1 h)
  · obtain ⟨r, -, rfl⟩ := List.mem_map.1 htexts
    exact fun h => hnil (List.map_eq_nil_iff.1 h)

/-! ## JSON -/

section

/-- The last of the first numbers that has a property. -/
theorem find_last {p : Nat → Bool} {n c : Nat} :
    (List.range n).reverse.find? p = some c ↔ c < n ∧ p c = true ∧ ∀ c', c < c' → c' < n → p c' = false := by
  induction n with
  | zero => simp
  | succ n ih =>
    rw [List.range_succ, List.reverse_append, List.reverse_singleton, List.singleton_append, List.find?_cons]
    cases hp : p n with
    | true =>
      constructor
      · intro h
        obtain rfl := Option.some.inj h
        exact ⟨Nat.lt_succ_self n, hp, fun c' h1 h2 => by omega⟩
      · rintro ⟨hlt, -, hlast⟩
        by_cases heq : c = n
        · rw [heq]
        · have hfalse := hlast n (by omega) (Nat.lt_succ_self n)
          rw [hp] at hfalse
          cases hfalse
    | false =>
      refine Iff.trans ih ⟨fun ⟨h1, h2, h3⟩ => ⟨by omega, h2, fun c' hc hc' => ?_⟩, fun ⟨h1, h2, h3⟩ => ⟨?_, h2, ?_⟩⟩
      · by_cases heq : c' = n
        · rw [heq, hp]
        · exact h3 c' hc (by omega)
      · by_cases heq : c = n
        · rw [heq, hp] at h2
          cases h2
        · omega
      · exact fun c' hc hc' => h3 c' hc (by omega)

/-- The last column of a header. -/
def lastColumn (t : QTableWidget) (k : String) : Option Nat :=
  (List.range t.columnCount).reverse.find? fun c => t.headerText c = k

theorem lastColumn_spec {k : String} {c : Nat} :
    lastColumn t k = some c ↔ c < t.columnCount ∧ t.headerText c = k ∧
      ∀ c', c < c' → c' < t.columnCount → t.headerText c' ≠ k := by
  simp only [lastColumn, find_last, decide_eq_true_iff, decide_eq_false_iff_not]

theorem lastColumn_header {c : Nat} (hc : c < t.columnCount) :
    ∃ c', lastColumn t (t.headerText c) = some c' ∧ c ≤ c' ∧ c' < t.columnCount ∧ t.headerText c' = t.headerText c := by
  obtain ⟨c', hc'⟩ : ∃ c', lastColumn t (t.headerText c) = some c' :=
    Option.isSome_iff_exists.1 (List.find?_isSome.2 ⟨c, by simpa using hc, by simp⟩)
  obtain ⟨hlt, heq, hlast⟩ := lastColumn_spec.1 hc'
  exact ⟨c', hc', not_lt.1 fun h => hlast c h hc rfl, hlt, heq⟩

theorem lookup_map_find {α : Type} (k : α → String) (v : α → QJsonValue) (as : List α) (k' : String) :
    (as.map fun a => (k a, v a)).lookup k' = (as.find? fun a => k a = k').map v := by
  induction as with
  | nil => rfl
  | cons a as ih =>
    rw [List.map_cons, lookup_field, List.find?_cons, ih]
    by_cases h : k a = k'
    · simp [h]
    · simp [h, Ne.symm h]

variable (hheaders : o.includeHeaders = true)

include hheaders

theorem key_eq {c : Nat} (hc : c < t.columnCount) : key o t c = t.headerText c := by
  simp [key, headers, hheaders, QTableWidget.headerTexts, hc]

theorem row_eq (r : Nat) :
    row o t r = ofList ((List.range t.columnCount).map fun c => (t.headerText c, .string (t.itemText r c))) := by
  have hkeys : ((List.range t.columnCount).map fun c => (t.headerText c, QJsonValue.string (t.itemText r c))) =
      (List.range t.columnCount).map fun c => (key o t c, .string (t.itemText r c)) :=
    List.map_congr_left fun c hc => by rw [key_eq hheaders (List.mem_range.1 hc)]
  rw [hkeys, ofList, List.foldl_map]
  rfl

theorem lookup_row (r : Nat) (k : String) :
    (row o t r).lookup k = (lastColumn t k).map fun c => .string (t.itemText r c) := by
  rw [row_eq hheaders, lookup_ofList, ← List.map_reverse, lookup_map_find]
  rfl

theorem texts_row (r : Nat) : Texts (row o t r) := by
  rintro ⟨k, v⟩ hf
  have hsorted : Sorted (row o t r) := by rw [row_eq hheaders]; exact sorted_ofList _
  have hlookup := lookup_of_mem hsorted hf
  rw [lookup_row hheaders] at hlookup
  obtain ⟨c, -, hv⟩ := Option.map_eq_some_iff.1 hlookup
  exact ⟨_, hv.symm⟩

/-- **What a row holds**: all its cells, exactly if columns of the same header have the
same cells in it. -/
theorem held_iff (r : Nat) :
    (∀ c < t.columnCount, (row o t r).lookup (t.headerText c) = some (.string (t.itemText r c))) ↔
      ∀ c < t.columnCount, ∀ c' < t.columnCount, t.headerText c = t.headerText c' → t.itemText r c = t.itemText r c' := by
  constructor
  · intro h c hc c' hc' heq
    have hsame := (h c hc).symm.trans (heq ▸ h c' hc')
    exact QJsonValue.string.inj (Option.some.inj hsame)
  · intro h c hc
    obtain ⟨c', hlast, -, hc', heq⟩ := lastColumn_header hc
    rw [lookup_row hheaders, hlast, Option.map_some, h c hc c' hc' heq.symm]

/-- **Distinct headers**: the objects are of one table only. -/
theorem cells_of_rows {t' : QTableWidget} (hsame : t.headerTexts = t'.headerTexts) (hnodup : t.headerTexts.Nodup)
    (h : rows o t = rows o t') : t.cells = t'.cells := by
  have hcolumns : t.columnCount = t'.columnCount := by
    have hlength := congrArg List.length hsame
    simpa [QTableWidget.headerTexts] using hlength
  have hrows : t.rowCount = t'.rowCount := by
    have hlength := congrArg List.length h
    simpa [rows] using hlength
  have hheader : ∀ c < t.columnCount, t.headerText c = t'.headerText c := by
    unfold QTableWidget.headerTexts at hsame
    rw [← hcolumns] at hsame
    exact fun c hc => List.map_inj_left.1 hsame c (List.mem_range.2 hc)
  have hinj : ∀ c < t.columnCount, ∀ c' < t.columnCount, t.headerText c = t.headerText c' → c = c' :=
    fun c hc c' hc' => List.inj_on_of_nodup_map hnodup (List.mem_range.2 hc) (List.mem_range.2 hc')
  have hheld := fun r => (held_iff hheaders r (t := t)).2 fun c hc c' hc' heq => by rw [hinj c hc c' hc' heq]
  have hheld' := fun r => (held_iff hheaders r (t := t')).2 fun c hc c' hc' heq => by
    rw [← hcolumns] at hc hc'
    rw [← hheader c hc, ← hheader c' hc'] at heq
    rw [hinj c hc c' hc' heq]
  unfold QTableWidget.cells
  rw [← hrows, ← hcolumns]
  refine List.map_congr_left fun r hr => List.map_congr_left fun c hc => ?_
  have hrow : row o t r = row o t' r := by
    unfold rows at h
    rw [← hrows] at h
    exact List.map_inj_left.1 h r hr
  have hc := List.mem_range.1 hc
  have hvalue := hheld r c hc
  rw [hrow, hheader c hc, hheld' r c (hcolumns ▸ hc)] at hvalue
  exact (QJsonValue.string.inj (Option.some.inj hvalue)).symm

omit hheaders in
/-- A table of one row that is empty but for one cell. -/
def oneCell (headers : List String) (column : Nat) (text : String) : QTableWidget where
  rowCount := 1
  columnCount := headers.length
  horizontalHeaderItem c := headers[c]?
  item _ c := if c = column then some text else none

omit hheaders in
theorem headerTexts_oneCell (headers : List String) (column : Nat) (text : String) :
    (oneCell headers column text).headerTexts = headers := by
  refine List.ext_getElem (by simp [QTableWidget.headerTexts, oneCell]) fun c h1 h2 => ?_
  simp [QTableWidget.headerTexts, QTableWidget.headerText, oneCell, h2]

omit hheaders in
theorem cells_oneCell {headers : List String} {column : Nat} (hcolumn : column < headers.length) {text text' : String}
    (h : (oneCell headers column text).cells = (oneCell headers column text').cells) : text = text' := by
  have hrow := List.map_inj_left.1 h 0 (List.mem_range.2 Nat.one_pos)
  simpa [QTableWidget.itemText, oneCell] using List.map_inj_left.1 hrow column (List.mem_range.2 hcolumn)

/-- **Repeated headers**: the cell of the first of two columns is not in the object. -/
theorem rows_oneCell {headers : List String} {c c' : Nat} (hlt : c < c') (hc' : c' < headers.length)
    (heq : headers[c]? = headers[c']?) (text text' : String) :
    rows o (oneCell headers c text) = rows o (oneCell headers c text') := by
  refine List.map_congr_left fun r _ => ?_
  have hsorted : ∀ text, Sorted (row o (oneCell headers c text) r) := fun text => by
    rw [row_eq hheaders]
    exact sorted_ofList _
  refine eq_of_lookup (hsorted text) (hsorted text') fun k => ?_
  rw [lookup_row hheaders, lookup_row hheaders]
  change (lastColumn (oneCell headers c text) k).map _ = (lastColumn (oneCell headers c text) k).map _
  cases hk : lastColumn (oneCell headers c text) k with
  | none => rfl
  | some last =>
    obtain ⟨-, hheader, hlast⟩ := lastColumn_spec.1 hk
    -- the last column of a header is not the first of the two
    have hne : last ≠ c := by
      intro h
      refine hlast c' (h ▸ hlt) hc' (Eq.trans ?_ hheader)
      simp only [QTableWidget.headerText, oneCell, h, heq]
    simp [QTableWidget.itemText, oneCell, hne]

theorem texts_rows : ∀ object ∈ rows o t, Texts object := by
  intro object hmem
  obtain ⟨r, -, rfl⟩ := List.mem_map.1 hmem
  exact texts_row hheaders r

theorem json_lossless_iff (headers : List String) :
    (∀ t t' path path' device device' file, t.headerTexts = headers → t'.headerTexts = headers →
        exportToJson o (some t) path device = .ok file → exportToJson o (some t') path' device' = .ok file →
        t.cells = t'.cells) ↔ headers.Nodup := by
  constructor
  · intro h
    rw [List.nodup_iff_getElem?_ne_getElem?]
    intro c c' hlt hc' heq
    have hrows := rows_oneCell hheaders hlt hc' heq "" "1"
    have hfile : exportToJson o (some (oneCell headers c "1")) "t" ⟨true, true⟩ =
        .ok (jsonText o (oneCell headers c "")) := by
      rw [jsonText, hrows]
      rfl
    have hcells := h _ _ "t" "t" ⟨true, true⟩ ⟨true, true⟩ _ (headerTexts_oneCell headers c "")
      (headerTexts_oneCell headers c "1") rfl hfile
    exact absurd (cells_oneCell (hlt.trans hc') hcells) (by decide)
  · intro hnodup t t' path path' device device' file ht ht' hfile hfile'
    have htext : jsonText o t = jsonText o t' := (exportText_ok t hfile).trans (exportText_ok t' hfile').symm
    have hrows := indented_injective (texts_rows hheaders) (texts_rows hheaders) htext
    exact cells_of_rows hheaders (ht.trans ht'.symm) (ht ▸ hnodup) hrows

end

/-- **When nothing is lost**: the CSV text is read back in any case. An object holds
the cells of its row exactly if columns of the same header have the same cells there,
and the JSON text tells all tables with some headers apart exactly if no header is
there twice. -/
theorem export_lossless_iff (o : ExportOptions) (hheaders : o.includeHeaders = true) (hquotes : o.quoteStrings = true)
    (hquote : o.delimiter ≠ '"') (hcr : o.delimiter ≠ '\r') (hlf : o.delimiter ≠ '\n')
    (hending : o.lineEnding = "\n" ∨ o.lineEnding = "\r\n") :
    (∀ t path device file, 0 < t.columnCount → exportToCsv o (some t) path device = .ok file →
        Csv.read o.delimiter file = some ((t.headerTexts :: t.cells).map (List.map String.toList))) ∧
      (∀ t r, (∀ c < t.columnCount, (row o t r).lookup (t.headerText c) = some (.string (t.itemText r c))) ↔
        ∀ c < t.columnCount, ∀ c' < t.columnCount, t.headerText c = t.headerText c' →
          t.itemText r c = t.itemText r c') ∧
      ∀ headers : List String,
        (∀ t t' path path' device device' file, t.headerTexts = headers → t'.headerTexts = headers →
          exportToJson o (some t) path device = .ok file → exportToJson o (some t') path' device' = .ok file →
          t.cells = t'.cells) ↔ headers.Nodup := by
  refine ⟨fun t path device file hcolumns hfile => ?_, fun t r => held_iff hheaders r, json_lossless_iff hheaders⟩
  rw [← exportText_ok t hfile]
  exact read_csvText hheaders hquotes hquote hcr hlf hending hcolumns

/-- A table with a separator, a quote and a line break in its cells. -/
def awkwardTable : QTableWidget where
  rowCount := 1
  columnCount := 2
  horizontalHeaderItem c := ["a,b", "a,b"][c]?
  item _ c := ["5\"", "x\r\ny"][c]?

theorem awkward_read :
    Csv.read ',' (csvText defaultOptions awkwardTable) =
      some ((awkwardTable.headerTexts :: awkwardTable.cells).map (List.map String.toList)) :=
  (export_lossless_iff defaultOptions rfl rfl (by decide) (by decide) (by decide) (.inl rfl)).1 awkwardTable "t.csv"
    ⟨true, true⟩ _ (by decide) rfl

/-- Two columns with the same header: the cell of the first is lost. -/
theorem first_column_lost :
    ¬ ∀ (t t' : QTableWidget) (file : List Char), 0 < t.columnCount → t.headerTexts = t'.headerTexts →
      exportToJson defaultOptions (some t) "t.json" ⟨true, true⟩ = .ok file →
      exportToJson defaultOptions (some t') "t.json" ⟨true, true⟩ = .ok file → t.cells = t'.cells := by
  intro h
  have hrows := @rows_oneCell defaultOptions rfl ["A", "A"] 0 1 (by decide) (by decide) rfl "5" "7"
  have hfile : exportToJson defaultOptions (some (oneCell ["A", "A"] 0 "7")) "t.json" ⟨true, true⟩ =
      .ok (jsonText defaultOptions (oneCell ["A", "A"] 0 "5")) := by
    rw [jsonText, hrows]
    rfl
  have hsame := (headerTexts_oneCell ["A", "A"] 0 "5").trans (headerTexts_oneCell ["A", "A"] 0 "7").symm
  exact absurd (cells_oneCell (by decide) (h _ _ _ (by decide) hsame rfl hfile)) (by decide)

end NekoEcat.L4.ExportService
