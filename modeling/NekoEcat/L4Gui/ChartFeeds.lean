import NekoEcat.Core.Trace
import NekoEcat.L4Gui.ChangeFlags
import NekoEcat.L4Gui.WatchTable

/-!
# Values fed to the charts

A chart that is opened for a Free Run entry keeps the number of its row, one that
is opened for an object of a dictionary a key with the texts of its index and
subindex. Each telemetry update feeds the row of that number, whatever entry is
there by now; each value read feeds every chart whose key begins with the texts
of its address, whatever the slave.

A point is a value and the object it is of. The value the dialog starts with, and
the drawing, are left out.

* `isolated_step`: when one step feeds no chart a value of another object.
* `charts_apart_iff`: a run keeps the charts apart iff each of its steps does.
* `startsWith_iff`: which charts a value that is read reaches.
* `meets_steady`: entries that stay and one slave are enough.
* `mixed_up`: an entry list that changes, a second slave, a short subindex.
-/
namespace NekoEcat.L4.ChartFeeds
open NekoEcat.Trace NekoEcat.QNumber NekoEcat.QString NekoEcat.L4.SdoWrites
open NekoEcat.L4.ChangeFlags (Row cell)
open NekoEcat.L4.WatchTable (Object objectOf)

/-- How texts are read as doubles. -/
structure Numbers (V : Type) where
  toDouble : String → Option V
  /-- `static_cast<double>(n)` -/
  ofULongLong : Nat → V

/-- A row of the table of the object dictionary, as its expression reads it. -/
structure OdRow where
  index : String
  subIndex : String
  index_digits : (index.toList.all fun c => c == 'x' || isDigitOf 16 c) = true
  subIndex_digits : subIndex.toList.all (isDigitOf 16) = true

/-- What a chart was opened for. -/
inductive Origin where
  | freeRun (row ms : Nat)
  | dictionary (row : OdRow) (ms : Nat)

/-- mirrors apps/ecat-studio/workspaces/MainWindowFreeRunChart.cpp:57, 108 -/
def Origin.entryKey : Origin → String
  | .freeRun row ms => "freerun_" ++ number row ++ "_" ++ number ms
  | .dictionary row ms => "od_" ++ row.index ++ "_" ++ row.subIndex ++ "_" ++ number ms

/-- `none` stands for -1. -/
def Origin.freeRunRow : Origin → Option Nat
  | .freeRun row _ => some row
  | .dictionary _ _ => none

structure Point (V : Type) where
  value : V
  /-- The object whose value it is. -/
  source : Object

structure Chart (V : Type) where
  origin : Origin
  /-- The entry or object it was opened for. -/
  target : Object
  points : List (Point V)

def Chart.feedValue {V : Type} (chart : Chart V) (p : Point V) : Chart V := { chart with points := chart.points ++ [p] }

structure Window (V : Type) where
  /-- The rows of the Free Run table. -/
  rows : List Row
  openCharts : List (Chart V)

/-- The slave and the object of a Free Run row. -/
def entryOf (row : Row) : Object := objectOf ((toInt 10 (cell row 0).toList).getD 0) (cell row 4) (cell row 5)

section
variable {V : Type} (n : Numbers V)

/-- The value of a Free Run row: decoded, raw, raw as a hexadecimal number. -/
def rowValue (row : Row) : Option V :=
  (n.toDouble (cell row 11)).or
    ((n.toDouble (cell row 10)).or ((toULongLong 16 (cell row 10).toList).map n.ofULongLong))

def sdoNumber (value : String) : Option V :=
  (n.toDouble value).or ((toULongLong 16 value.toList).map n.ofULongLong)

/-- What an update feeds a chart.
mirrors apps/ecat-studio/workspaces/MainWindowTopologyUi.cpp:710-729 -/
def feedRow (rows : List Row) (chart : Chart V) : Option (Point V) :=
  match chart.origin.freeRunRow.bind fun r => rows[r]? with
  | none => none
  | some row => (rowValue n row).map fun v => ⟨v, entryOf row⟩

/-- `QString("od_%1_%2").arg(index, subIndex)` -/
def odPrefix (index subIndex : String) : String := "od_" ++ index ++ "_" ++ subIndex

/-- What a value that was read feeds a chart.
mirrors apps/ecat-studio/workspaces/MainWindowSdoWorkspace.cpp:557-571 -/
def feedRead (position : Int32) (index subIndex value : String) (chart : Chart V) : Option (Point V) :=
  if (odPrefix index subIndex).toList <+: chart.origin.entryKey.toList then
    (sdoNumber n value).map fun v => ⟨v, objectOf position.toInt index subIndex⟩
  else none

/-- Each chart with the point that is fed to it. -/
def feedAll (feed : Chart V → Option (Point V)) (charts : List (Chart V)) : List (Chart V) :=
  charts.map fun chart =>
    match feed chart with
    | none => chart
    | some p => chart.feedValue p

inductive Op where
  | telemetry (rows : List Row)
  | response (position : Int32) (index subIndex value : String)
  /-- Free Run row `row` is the current one. -/
  | openFreeRunChart (row ms : Nat)
  /-- The dictionary of slave `position` is shown. -/
  | addSelectedOdToFreeRunChart (position : Int32) (row : OdRow) (ms : Nat)
  | close (chart : Nat)

def step (w : Window V) : Op → Window V
  | .telemetry rows => { rows := rows, openCharts := feedAll (feedRow n rows) w.openCharts }
  | .response position index subIndex value =>
    { w with openCharts := feedAll (feedRead n position index subIndex value) w.openCharts }
  | .openFreeRunChart row ms =>
    match w.rows[row]? with
    | none => w
    | some r =>
      if trimmed (cell r 0) = "" then w
      else { w with openCharts := w.openCharts ++ [⟨.freeRun row ms, entryOf r, []⟩] }
  | .addSelectedOdToFreeRunChart position row ms =>
    if row.index = "" then w
    else
      let target := objectOf position.toInt row.index row.subIndex
      { w with openCharts := w.openCharts ++ [⟨.dictionary row ms, target, []⟩] }
  | .close chart => { w with openCharts := w.openCharts.eraseIdx chart }

/-! ## What the charts are for -/

/-- Each point of a chart is of what it was opened for. -/
def Isolated (w : Window V) : Prop := ∀ chart ∈ w.openCharts, ∀ p ∈ chart.points, p.source = chart.target

instance (w : Window V) : Decidable (Isolated w) :=
  inferInstanceAs (Decidable (∀ chart ∈ w.openCharts, ∀ p ∈ chart.points, p.source = chart.target))

/-- The entry list of an update has at a chart's row number the chart's entry, no
row, or one without a number; a number that is read is of the slave and the object
of every chart whose key begins with the texts of its address. -/
def Meets (w : Window V) : Op → Prop
  | .telemetry rows =>
    ∀ chart ∈ w.openCharts, ∀ r row, chart.origin.freeRunRow = some r → rows[r]? = some row →
      (rowValue n row).isSome = true → entryOf row = chart.target
  | .response position index subIndex value =>
    (sdoNumber n value).isSome = true → ∀ chart ∈ w.openCharts,
      (odPrefix index subIndex).toList <+: chart.origin.entryKey.toList →
        objectOf position.toInt index subIndex = chart.target
  | _ => True

end

section
variable {V : Type} {n : Numbers V} {w : Window V}

/-- Charts stay apart iff each of them is fed what it was opened for. -/
theorem isolated_feedAll {charts : List (Chart V)} (feed : Chart V → Option (Point V))
    (h : ∀ chart ∈ charts, ∀ p ∈ chart.points, p.source = chart.target) :
    (∀ chart ∈ feedAll feed charts, ∀ p ∈ chart.points, p.source = chart.target) ↔
      ∀ chart ∈ charts, ∀ p, feed chart = some p → p.source = chart.target := by
  unfold feedAll
  rw [List.forall_mem_map]
  refine forall₂_congr fun chart hchart => ?_
  cases hfeed : feed chart with
  | none => exact iff_of_true (h chart hchart) fun p hp => by cases hp
  | some q =>
    simp only [Chart.feedValue, List.forall_mem_append, List.forall_mem_singleton, Option.some.injEq, forall_eq']
    exact and_iff_right (h chart hchart)

theorem feedRow_eq_some {rows : List Row} {chart : Chart V} {p : Point V} :
    feedRow n rows chart = some p ↔ ∃ r row, chart.origin.freeRunRow = some r ∧ rows[r]? = some row ∧
      rowValue n row = some p.value ∧ p.source = entryOf row := by
  unfold feedRow
  constructor
  · intro h
    split at h
    · cases h
    · rename_i row hrow
      obtain ⟨r, hr, hget⟩ := Option.bind_eq_some_iff.1 hrow
      obtain ⟨v, hv, rfl⟩ := Option.map_eq_some_iff.1 h
      exact ⟨r, row, hr, hget, hv, rfl⟩
  · rintro ⟨r, row, hr, hget, hv, hsource⟩
    rw [hr, Option.bind_some, hget]
    dsimp only
    rw [hv, Option.map_some, ← hsource]

theorem feedRead_eq_some {position : Int32} {index subIndex value : String} {chart : Chart V} {p : Point V} :
    feedRead n position index subIndex value chart = some p ↔
      (odPrefix index subIndex).toList <+: chart.origin.entryKey.toList ∧ sdoNumber n value = some p.value ∧
        p.source = objectOf position.toInt index subIndex := by
  unfold feedRead
  constructor
  · intro h
    split at h
    · rename_i hkey
      obtain ⟨v, hv, rfl⟩ := Option.map_eq_some_iff.1 h
      exact ⟨hkey, hv, rfl⟩
    · cases h
  · rintro ⟨hkey, hv, hsource⟩
    rw [if_pos hkey, hv, Option.map_some, ← hsource]

/-- A chart starts without points. -/
theorem isolated_open (h : Isolated w) (origin : Origin) (target : Object) :
    Isolated { w with openCharts := w.openCharts ++ [⟨origin, target, []⟩] } := by
  intro chart hchart
  rcases List.mem_append.1 hchart with hold | hnew
  · exact h chart hold
  · rw [List.mem_singleton.1 hnew]
    intro p hp
    cases hp

/-- **The step.** -/
theorem isolated_step (h : Isolated w) (op : Op) : Isolated (step n w op) ↔ Meets n w op := by
  cases op with
  | telemetry rows =>
    unfold Isolated at h ⊢
    refine (isolated_feedAll (feedRow n rows) h).trans (forall₂_congr fun chart _ => ?_)
    constructor
    · intro hfed r row hr hget hsome
      obtain ⟨v, hv⟩ := Option.isSome_iff_exists.1 hsome
      exact hfed ⟨v, entryOf row⟩ (feedRow_eq_some.2 ⟨r, row, hr, hget, hv, rfl⟩)
    · intro hmeets p hp
      obtain ⟨r, row, hr, hget, hv, hsource⟩ := feedRow_eq_some.1 hp
      rw [hsource]
      exact hmeets r row hr hget (by rw [hv, Option.isSome_some])
  | response position index subIndex value =>
    unfold Isolated at h ⊢
    refine (isolated_feedAll (feedRead n position index subIndex value) h).trans ?_
    constructor
    · intro hfed hsome chart hchart hkey
      obtain ⟨v, hv⟩ := Option.isSome_iff_exists.1 hsome
      exact hfed chart hchart ⟨v, objectOf position.toInt index subIndex⟩ (feedRead_eq_some.2 ⟨hkey, hv, rfl⟩)
    · intro hmeets chart hchart p hp
      obtain ⟨hkey, hv, hsource⟩ := feedRead_eq_some.1 hp
      rw [hsource]
      exact hmeets (by rw [hv, Option.isSome_some]) chart hchart hkey
  | openFreeRunChart row ms =>
    refine iff_of_true ?_ trivial
    simp only [step]
    split
    · exact h
    · split
      · exact h
      · exact isolated_open h _ _
  | addSelectedOdToFreeRunChart position row ms =>
    refine iff_of_true ?_ trivial
    simp only [step]
    split
    · exact h
    · exact isolated_open h _ _
  | close chart =>
    exact iff_of_true (fun c hc => h c (List.mem_of_mem_eraseIdx hc)) trivial

end

/-- **Chart isolation.** Whatever charts are opened and closed on the way. -/
theorem charts_apart_iff {V : Type} (n : Numbers V) (rows : List Row) (ops : List Op) :
    (∀ pre, pre <+: ops → Isolated (exec (step n) ⟨rows, []⟩ pre)) ↔ Along (step n) (Meets n) ⟨rows, []⟩ ops := by
  have hnone : Isolated (⟨rows, []⟩ : Window V) := by
    intro chart hchart
    cases hchart
  exact along_iff (step n) (J := fun _ => True) (I := Isolated) (fun _ _ _ => trivial)
    (fun _ op _ h => isolated_step h op) ops trivial hnone

/-! ## Which charts a value that is read reaches -/

theorem cut_prefix {c : Char} {a a' b b' : List Char} (h : c ∉ a) (h' : c ∉ a') :
    a ++ c :: b <+: a' ++ c :: b' ↔ a = a' ∧ b <+: b' := by
  induction a generalizing a' with
  | nil =>
    cases a' with
    | nil => simp [List.cons_prefix_cons]
    | cons d a' =>
      have hd : c ≠ d := fun heq => h' (heq ▸ List.mem_cons_self)
      simp [List.cons_prefix_cons, hd]
  | cons d a ih =>
    have hd : d ≠ c := fun heq => h (heq ▸ List.mem_cons_self)
    cases a' with
    | nil => simp [List.cons_prefix_cons, hd]
    | cons d' a' =>
      rw [List.cons_append, List.cons_append, List.cons_prefix_cons,
        ih (fun hm => h (List.mem_cons_of_mem _ hm)) (fun hm => h' (List.mem_cons_of_mem _ hm)), List.cons.injEq,
        and_assoc]

theorem prefix_cut {c : Char} {a b r : List Char} (h : c ∉ a) : a <+: b ++ c :: r ↔ a <+: b := by
  induction a generalizing b with
  | nil => simp
  | cons d a ih =>
    have hd : d ≠ c := fun heq => h (heq ▸ List.mem_cons_self)
    cases b with
    | nil => simp [List.cons_prefix_cons, hd]
    | cons d' b =>
      rw [List.cons_append, List.cons_prefix_cons, List.cons_prefix_cons, ih fun hm => h (List.mem_cons_of_mem _ hm)]

theorem OdRow.underscore_not_mem (row : OdRow) : '_' ∉ row.index.toList := fun hmem =>
  absurd (List.all_eq_true.1 row.index_digits '_' hmem) (by decide)

/-- The slave plays no part, and a beginning of the subindex is enough. -/
theorem startsWith_iff (row : OdRow) (ms : Nat) {index subIndex : String} (hi : '_' ∉ index.toList)
    (hj : '_' ∉ subIndex.toList) :
    (odPrefix index subIndex).toList <+: (Origin.dictionary row ms).entryKey.toList ↔
      index = row.index ∧ subIndex.toList <+: row.subIndex.toList := by
  have hkey : (Origin.dictionary row ms).entryKey.toList =
      "od_".toList ++ (row.index.toList ++ '_' :: (row.subIndex.toList ++ '_' :: (number ms).toList)) := by
    simp [Origin.entryKey, String.toList_append]
  have hstart : (odPrefix index subIndex).toList = "od_".toList ++ (index.toList ++ '_' :: subIndex.toList) := by
    simp [odPrefix, String.toList_append]
  rw [hkey, hstart, List.prefix_append_right_inj, cut_prefix hi row.underscore_not_mem, prefix_cut hj,
    String.toList_inj]

/-- No Free Run chart is reached. -/
theorem not_startsWith (row ms : Nat) (index subIndex : String) :
    ¬ (odPrefix index subIndex).toList <+: (Origin.freeRun row ms).entryKey.toList := by
  simp [odPrefix, Origin.entryKey, String.toList_append, List.cons_prefix_cons]

/-! ## Entries that stay, and one slave -/

/-- The entries keep their row numbers, and all that is read is of one slave, with
subindices of two digits. -/
def Steady (entries : Nat → Object) (slave : Int32) : Op → Prop
  | .telemetry rows => ∀ r row, rows[r]? = some row → entryOf row = entries r
  | .response position index subIndex _ =>
    position = slave ∧ '_' ∉ index.toList ∧ '_' ∉ subIndex.toList ∧ subIndex.toList.length = 2
  | .addSelectedOdToFreeRunChart position row _ => position = slave ∧ row.subIndex.toList.length = 2
  | _ => True

/-- A chart that was opened for such an entry or object. -/
def Opened (entries : Nat → Object) (slave : Int32) {V : Type} (chart : Chart V) : Prop :=
  match chart.origin with
  | .freeRun row _ => chart.target = entries row
  | .dictionary row _ =>
    chart.target = objectOf slave.toInt row.index row.subIndex ∧ row.subIndex.toList.length = 2

section
variable {V : Type} {n : Numbers V} {w : Window V} {entries : Nat → Object} {slave : Int32}

theorem meets_of_opened (h : ∀ chart ∈ w.openCharts, Opened entries slave chart) {op : Op}
    (hop : Steady entries slave op) : Meets n w op := by
  cases op with
  | telemetry rows =>
    intro chart hchart r row hr hget _
    rw [hop r row hget]
    have hopened := h chart hchart
    unfold Opened at hopened
    cases horigin : chart.origin with
    | freeRun row' ms =>
      rw [horigin] at hopened hr
      rw [hopened, Option.some.inj hr]
    | dictionary row' ms =>
      rw [horigin] at hr
      cases hr
  | response position index subIndex value =>
    obtain ⟨rfl, hi, hj, hlength⟩ := hop
    intro _ chart hchart hkey
    have hopened := h chart hchart
    unfold Opened at hopened
    cases horigin : chart.origin with
    | freeRun row ms =>
      rw [horigin] at hkey
      exact absurd hkey (not_startsWith row ms index subIndex)
    | dictionary row ms =>
      rw [horigin] at hkey hopened
      obtain ⟨rfl, hkey_eq⟩ := (startsWith_iff row ms hi hj).1 hkey
      have hsub : subIndex = row.subIndex :=
        String.toList_inj.1 (hkey_eq.eq_of_length (by rw [hlength, hopened.2]))
      rw [hopened.1, hsub]
  | openFreeRunChart row ms => trivial
  | addSelectedOdToFreeRunChart position row ms => trivial
  | close chart => trivial

theorem opened_feedAll {charts : List (Chart V)} (feed : Chart V → Option (Point V))
    (h : ∀ chart ∈ charts, Opened entries slave chart) : ∀ chart ∈ feedAll feed charts, Opened entries slave chart := by
  unfold feedAll
  rw [List.forall_mem_map]
  intro chart hchart
  cases feed chart with
  | none => exact h chart hchart
  | some p => exact h chart hchart

/-- What a steady step keeps. -/
structure Kept (entries : Nat → Object) (slave : Int32) (w : Window V) : Prop where
  rows : ∀ r row, w.rows[r]? = some row → entryOf row = entries r
  openCharts : ∀ chart ∈ w.openCharts, Opened entries slave chart

theorem Kept.step (h : Kept entries slave w) {op : Op} (hop : Steady entries slave op) :
    Kept entries slave (step n w op) := by
  have hadd : ∀ chart : Chart V, Opened entries slave chart →
      Kept entries slave { w with openCharts := w.openCharts ++ [chart] } := by
    intro chart hchart
    refine ⟨h.rows, fun c hc => ?_⟩
    rcases List.mem_append.1 hc with hold | hnew
    · exact h.openCharts c hold
    · rw [List.mem_singleton.1 hnew]
      exact hchart
  cases op with
  | telemetry rows => exact ⟨hop, opened_feedAll _ h.openCharts⟩
  | response position index subIndex value => exact ⟨h.rows, opened_feedAll _ h.openCharts⟩
  | openFreeRunChart row ms =>
    simp only [ChartFeeds.step]
    split
    · exact h
    · rename_i r hr
      split
      · exact h
      · exact hadd _ (h.rows row r hr)
  | addSelectedOdToFreeRunChart position row ms =>
    obtain ⟨rfl, hlength⟩ := hop
    simp only [ChartFeeds.step]
    split
    · exact h
    · exact hadd _ ⟨rfl, hlength⟩
  | close chart => exact ⟨h.rows, fun c hc => h.openCharts c (List.mem_of_mem_eraseIdx hc)⟩

/-- Such a run meets the condition. -/
theorem meets_steady (h : Kept entries slave w) {ops : List Op} (hops : ∀ op ∈ ops, Steady entries slave op) :
    Along (step n) (Meets n) w ops := by
  induction ops generalizing w with
  | nil => trivial
  | cons op ops ih =>
    have hop : Steady entries slave op := hops op List.mem_cons_self
    exact ⟨meets_of_opened h.openCharts hop, ih (h.step hop) fun o ho => hops o (List.mem_cons_of_mem _ ho)⟩

end

/-! ## Charts that are mixed up -/

/-- Decimal texts, and hexadecimal ones with a prefix. -/
def wholeNumbers : Numbers Int where
  toDouble := fun s => integer 10 s.toList
  ofULongLong := fun m => m

/-- A Free Run row of slave 0. -/
def sampleRow (index raw : String) : Row :=
  ["0", "3", "TxPDO", "0x1a00", index, "0x00", "16", "0", "0", "", raw, raw, "", "", ""]

def position : OdRow := ⟨"0x6064", "00", by decide +kernel, by decide +kernel⟩

def tenth : OdRow := ⟨"0x1018", "10", by decide +kernel, by decide +kernel⟩

/-- The entry of the chart's row has moved; the same object of another slave; an
object whose subindex begins like another one. -/
theorem mixed_up :
    ¬ Isolated (exec (step wholeNumbers) ⟨[], []⟩
        [.telemetry [sampleRow "0x6041" "39"], .openFreeRunChart 0 1000,
          .telemetry [sampleRow "0x6061" "8", sampleRow "0x6041" "39"]]) ∧
      ¬ Isolated (exec (step wholeNumbers) ⟨[], []⟩
        [.addSelectedOdToFreeRunChart 0 position 1000, .response 1 "0x6064" "00" "500"]) ∧
      ¬ Isolated (exec (step wholeNumbers) ⟨[], []⟩
        [.addSelectedOdToFreeRunChart 0 tenth 1000, .response 0 "0x1018" "1" "2"]) := by
  decide +kernel

end NekoEcat.L4.ChartFeeds
