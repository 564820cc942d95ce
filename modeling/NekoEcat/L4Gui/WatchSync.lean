import NekoEcat.L4Gui.ProjectRoundTrip

/-!
# Watch values as Startup SDOs

The selected rows of the Watch table are collected first: the first one of each key is
a candidate, with the Startup rows of its object. When that is confirmed each candidate
writes its value into these rows, or adds one. The key is a text with the index and the
subindex between bars, so texts that have a bar themselves can make one key of two
objects, and the second object is taken for a duplicate.

* `mem_picks`: the rows that are selected.
* `find?_chosen`: which of them are candidates.
* `result_eq`: the table afterwards.
* `synced_iff`: when it is the one that was asked for.
* `lost_object`: an object that gets no row.

Limitations: the texts that are confirmed, and the diagnostics, which both count rows,
are left out. So is the column that compares the row with the Watch table.
-/
namespace NekoEcat.L4.WatchSync
open NekoEcat.QNumber NekoEcat.QString NekoEcat.L4.SdoWrites
open NekoEcat.L4.WatchTable (Object objectOf objectKey Addressed objectKey_inj sdoEvidenceKey_eq toInt_range)
open NekoEcat.L4.ProjectFile (toList_trimmed trimmed_trimmed)

/-- The cells that are read, and whether a filter hides the row. -/
structure WatchRow where
  position : String
  index : String
  subIndex : String
  value : String
  type : String
  hidden : Bool
  deriving DecidableEq, Repr

structure StartupRow where
  position : String
  index : String
  subIndex : String
  value : String
  type : String
  status : String
  detail : String
  deriving DecidableEq, Repr

/-- A Watch row that has an address and a value. -/
structure Pick where
  watchRow : Nat
  object : Object
  value : String
  type : String
  deriving DecidableEq, Repr

structure Candidate extends Pick where
  startupRows : List Nat
  deriving DecidableEq, Repr

/-- `sdoEvidenceKey(position, index, subIndex)` -/
def Pick.key (p : Pick) : String := sdoEvidenceKey p.object.1 (String.ofList p.object.2.1) (String.ofList p.object.2.2)

/-- `std::unique` -/
def unique : List Int → List Int
  | [] => []
  | [a] => [a]
  | a :: b :: l => if a = b then unique (b :: l) else a :: unique (b :: l)

def uniqueRows (rows : List Int) : List Int := unique (rows.mergeSort fun a b => decide (a ≤ b))

/-- mirrors apps/ecat-studio/workspaces/MainWindowWatchSync.cpp:180-202 -/
def pick (watch : List WatchRow) (row : Int) : Option Pick :=
  if row < 0 then none
  else
    match watch[row.toNat]? with
    | none => none
    | some r =>
      if r.hidden then none
      else
        match toInt 10 (trimmed r.position).toList with
        | none => none
        | some position =>
          if position < 0 ∨ trimmed r.index = "" ∨ trimmed r.subIndex = "" ∨ trimmed r.value = "" then none
          else some ⟨row.toNat, objectOf position (trimmed r.index) (trimmed r.subIndex), trimmed r.value, trimmed r.type⟩

/-- The object of a Startup row whose position is a number. -/
def StartupRow.object (r : StartupRow) : Option Object :=
  (toInt 10 (trimmed r.position).toList).map fun position => objectOf position (trimmed r.index) (trimmed r.subIndex)

/-- mirrors apps/ecat-studio/workspaces/MainWindowWatchSync.cpp:223-237 -/
def rowsOf (startup : List StartupRow) (o : Object) : List Nat :=
  (List.range startup.length).filter fun i => decide (startup[i]?.bind StartupRow.object = some o)

/-- The candidates and `processedKeys`.
mirrors apps/ecat-studio/workspaces/MainWindowWatchSync.cpp:203-240 -/
def collectRow (startup : List StartupRow) (s : List Candidate × List String) (p : Pick) : List Candidate × List String :=
  if s.2.contains p.key then s else (s.1 ++ [⟨p, rowsOf startup p.object⟩], p.key :: s.2)

def picks (watch : List WatchRow) (rows : List Int) : List Pick := (uniqueRows rows).filterMap (pick watch)

def candidates (watch : List WatchRow) (startup : List StartupRow) (rows : List Int) : List Candidate :=
  ((picks watch rows).foldl (collectRow startup) ([], [])).1

section
variable (uiText : String → String) (timestamp : String)

def newRow (c : Candidate) : StartupRow where
  position := QString.number c.object.1
  index := String.ofList c.object.2.1
  subIndex := String.ofList c.object.2.2
  value := c.value
  type := c.type
  status := uiText "Synced"
  detail := arg (arg (uiText "Created from Watch row %1 at %2") (QString.number (c.watchRow + 1))) timestamp

/-- mirrors apps/ecat-studio/workspaces/MainWindowWatchSync.cpp:335-352 -/
def updateRow (c : Candidate) (r : StartupRow) : StartupRow :=
  let previousValue := trimmed r.value
  { r with
    value := c.value
    type := if c.type = "" then r.type else c.type
    status := uiText "Synced"
    detail :=
      if lower previousValue.toList = lower c.value.toList then
        arg (arg (uiText "Confirmed from Watch row %1 at %2") (QString.number (c.watchRow + 1))) timestamp
      else
        arg (arg (arg (uiText "Synced from Watch row %1 at %2; previous value: %3") (QString.number (c.watchRow + 1)))
          timestamp)
          previousValue }

/-- mirrors apps/ecat-studio/workspaces/MainWindowWatchSync.cpp:300-361 -/
def applyCandidate (t : List StartupRow) (c : Candidate) : List StartupRow :=
  if c.startupRows = [] then t ++ [newRow uiText timestamp c]
  else c.startupRows.foldl (fun t i => t.modify i (updateRow uiText timestamp c)) t

/-- mirrors apps/ecat-studio/workspaces/MainWindowWatchSync.cpp:129-376 -/
def syncWatchRowsToStartupSdo (confirmed : Bool) (watch : List WatchRow) (rows : List Int) (startup : List StartupRow) :
    List StartupRow :=
  let candidates := candidates watch startup rows
  if candidates = [] ∨ confirmed = false then startup else candidates.foldl (applyCandidate uiText timestamp) startup

end

/-! ## The selected rows -/

theorem mem_unique {l : List Int} {a : Int} : a ∈ unique l ↔ a ∈ l := by
  fun_induction unique l with
  | case1 => exact Iff.rfl
  | case2 b => exact Iff.rfl
  | case3 b l ih =>
    rw [ih]
    simp
  | case4 b c l hne ih => rw [List.mem_cons, List.mem_cons, ih]

theorem pairwise_unique {l : List Int} (h : l.Pairwise (· ≤ ·)) : (unique l).Pairwise (· < ·) := by
  fun_induction unique l with
  | case1 => exact List.Pairwise.nil
  | case2 b => exact List.pairwise_singleton _ _
  | case3 b l ih => exact ih (List.pairwise_cons.1 h).2
  | case4 b c l hne ih =>
    obtain ⟨hle, hrest⟩ := List.pairwise_cons.1 h
    refine List.pairwise_cons.2 ⟨fun d hd => ?_, ih hrest⟩
    have hbc := hle c List.mem_cons_self
    rcases List.mem_cons.1 (mem_unique.1 hd) with rfl | hd
    · omega
    · have hcd := (List.pairwise_cons.1 hrest).1 d hd
      omega

theorem pairwise_uniqueRows (rows : List Int) : (uniqueRows rows).Pairwise (· < ·) := by
  have hsorted : (rows.mergeSort fun a b => decide (a ≤ b)).Pairwise fun a b => decide (a ≤ b) = true :=
    List.pairwise_mergeSort
      (fun a b c hab hbc => by simp only [decide_eq_true_eq] at *; omega)
      (fun a b => by simp only [Bool.or_eq_true, decide_eq_true_eq]; omega) rows
  exact pairwise_unique (hsorted.imp of_decide_eq_true)

theorem mem_uniqueRows {rows : List Int} {a : Int} : a ∈ uniqueRows rows ↔ a ∈ rows := by
  rw [uniqueRows, mem_unique, List.mem_mergeSort]

section
variable {watch : List WatchRow} {rows : List Int}

theorem pick_row {row : Int} {p : Pick} (h : pick watch row = some p) : row = p.watchRow := by
  unfold pick at h
  split at h
  · cases h
  split at h
  · cases h
  split at h
  · cases h
  split at h
  · cases h
  split at h
  · cases h
  · cases h
    exact (Int.toNat_of_nonneg (by omega)).symm

/-- The row is among those given, can be seen, and has an address and a value. -/
def Selected (watch : List WatchRow) (rows : List Int) (p : Pick) : Prop :=
  (p.watchRow : Int) ∈ rows ∧ pick watch p.watchRow = some p

/-- **The selected rows**, each once. -/
theorem mem_picks {p : Pick} : p ∈ picks watch rows ↔ Selected watch rows p := by
  rw [picks, List.mem_filterMap]
  constructor
  · rintro ⟨row, hrow, hp⟩
    obtain rfl := pick_row hp
    exact ⟨mem_uniqueRows.1 hrow, hp⟩
  · rintro ⟨hrow, hp⟩
    exact ⟨_, mem_uniqueRows.2 hrow, hp⟩

theorem pairwise_picks : (picks watch rows).Pairwise fun p q => p.watchRow < q.watchRow := by
  refine List.Pairwise.filterMap _ (fun a b hab p hp q hq => ?_) (pairwise_uniqueRows rows)
  have ha := pick_row hp
  have hb := pick_row hq
  omega

end

/-! ## The candidates -/

/-- The first of some picks that meet a condition, in the order of the table. -/
theorem find?_eq_some_iff {ps : List Pick} (h : ps.Pairwise fun p q => p.watchRow < q.watchRow) (P : Pick → Bool)
    (q : Pick) :
    ps.find? P = some q ↔ q ∈ ps ∧ P q = true ∧ ∀ p ∈ ps, p.watchRow < q.watchRow → P p = false := by
  induction ps with
  | nil => simp
  | cons a ps ih =>
    obtain ⟨hlt, hrest⟩ := List.pairwise_cons.1 h
    rw [List.find?_cons]
    cases ha : P a with
    | true =>
      rw [Option.some.injEq]
      constructor
      · rintro rfl
        refine ⟨List.mem_cons_self, ha, fun p hp hpa => ?_⟩
        rcases List.mem_cons.1 hp with rfl | hp
        · exact absurd hpa (Nat.lt_irrefl _)
        · exact absurd hpa (Nat.lt_asymm (hlt p hp))
      · rintro ⟨hq, -, hfirst⟩
        rcases List.mem_cons.1 hq with rfl | hq
        · rfl
        · rw [hfirst a List.mem_cons_self (hlt q hq)] at ha
          cases ha
    | false =>
      rw [ih hrest]
      constructor
      · rintro ⟨hq, hP, hfirst⟩
        refine ⟨List.mem_cons_of_mem _ hq, hP, fun p hp hpq => ?_⟩
        rcases List.mem_cons.1 hp with rfl | hp
        · exact ha
        · exact hfirst p hp hpq
      · rintro ⟨hq, hP, hfirst⟩
        rcases List.mem_cons.1 hq with rfl | hq
        · rw [ha] at hP
          cases hP
        · exact ⟨hq, hP, fun p hp => hfirst p (List.mem_cons_of_mem _ hp)⟩

/-- The candidates are the first rows of their keys. -/
structure Collected (startup : List StartupRow) (ps : List Pick) (s : List Candidate × List String) : Prop where
  keys : ∀ k, k ∈ s.2 ↔ ∃ c ∈ s.1, c.key = k
  rows : ∀ c ∈ s.1, c.startupRows = rowsOf startup c.object
  mem : ∀ c ∈ s.1, c.toPick ∈ ps
  nodup : s.1.Pairwise fun c d => c.key ≠ d.key
  first : ∀ k, (s.1.find? fun c => decide (c.key = k)).map Candidate.toPick = ps.find? fun p => decide (p.key = k)

theorem collected_collectRow {startup : List StartupRow} {ps : List Pick} {s : List Candidate × List String}
    (h : Collected startup ps s) (p : Pick) : Collected startup (ps ++ [p]) (collectRow startup s p) := by
  obtain ⟨hkeys, hrows, hmem, hnodup, hfirst⟩ := h
  have hold : ∀ c ∈ s.1, c.toPick ∈ ps ++ [p] := fun c hc => List.mem_append_left _ (hmem c hc)
  unfold collectRow
  split
  · rename_i hdup
    refine ⟨hkeys, hrows, hold, hnodup, fun k => ?_⟩
    rw [hfirst, List.find?_append]
    by_cases hk : p.key = k
    · -- the key has a candidate already
      obtain ⟨c, hc, hck⟩ := (hkeys p.key).1 (List.contains_iff_mem.1 hdup)
      have hsome : (ps.find? fun q => decide (q.key = k)).isSome = true :=
        List.find?_isSome.2 ⟨c.toPick, hmem c hc, decide_eq_true (hck.trans hk)⟩
      rw [Option.or_of_isSome hsome]
    · simp [hk]
  · rename_i hnew
    have hfresh : ∀ c ∈ s.1, c.key ≠ p.key := fun c hc hck => hnew (List.contains_iff_mem.2 ((hkeys p.key).2 ⟨c, hc, hck⟩))
    refine ⟨fun k => ?_, fun c hc => ?_, fun c hc => ?_, ?_, fun k => ?_⟩
    · rw [List.mem_cons, hkeys]
      constructor
      · rintro (rfl | ⟨c, hc, hck⟩)
        · exact ⟨_, List.mem_append_right _ (List.mem_singleton.2 rfl), rfl⟩
        · exact ⟨c, List.mem_append_left _ hc, hck⟩
      · rintro ⟨c, hc, rfl⟩
        rcases List.mem_append.1 hc with hc | hc
        · exact .inr ⟨c, hc, rfl⟩
        · obtain rfl := List.mem_singleton.1 hc
          exact .inl rfl
    · rcases List.mem_append.1 hc with hc | hc
      · exact hrows c hc
      · obtain rfl := List.mem_singleton.1 hc
        rfl
    · rcases List.mem_append.1 hc with hc | hc
      · exact hold c hc
      · obtain rfl := List.mem_singleton.1 hc
        exact List.mem_append_right _ (List.mem_singleton.2 rfl)
    · refine List.pairwise_append.2 ⟨hnodup, List.pairwise_singleton _ _, fun c hc d hd => ?_⟩
      obtain rfl := List.mem_singleton.1 hd
      exact hfresh c hc
    · rw [List.find?_append, List.find?_append, ← hfirst]
      cases s.1.find? fun c => decide (c.key = k) with
      | some c => rfl
      | none =>
        by_cases hk : p.key = k
        · simp [hk]
        · simp [hk]

section
variable (watch : List WatchRow) (startup : List StartupRow) (rows : List Int)

theorem collected : Collected startup (picks watch rows) ((picks watch rows).foldl (collectRow startup) ([], [])) := by
  induction picks watch rows using List.reverseRecOn with
  | nil => exact ⟨by simp, by simp, by simp, List.Pairwise.nil, fun _ => rfl⟩
  | append_singleton ps p ih =>
    rw [List.foldl_append]
    exact collected_collectRow ih p

end

/-! ## The table -/

/-- What becomes of a row. -/
def updated (uiText : String → String) (timestamp : String) (cs : List Candidate) (r : StartupRow) : StartupRow :=
  match cs.find? fun c => decide (r.object = some c.object) with
  | none => r
  | some c => updateRow uiText timestamp c r

def added (uiText : String → String) (timestamp : String) (cs : List Candidate) : List StartupRow :=
  (cs.filter fun c => c.startupRows.isEmpty).map (newRow uiText timestamp)

theorem getElem?_foldl_modify {α : Type} (f : α → α) {is : List Nat} (h : is.Nodup) (l : List α) (i : Nat) :
    (is.foldl (fun l i => l.modify i f) l)[i]? = if i ∈ is then l[i]?.map f else l[i]? := by
  induction is generalizing l with
  | nil => simp
  | cons j is ih =>
    obtain ⟨hj, his⟩ := List.nodup_cons.1 h
    rw [List.foldl_cons, ih his, List.getElem?_modify]
    by_cases hij : j = i
    · subst hij
      simp [hj]
    · simp [hij, Ne.symm hij]

theorem mem_rowsOf {startup : List StartupRow} {o : Object} {i : Nat} :
    i ∈ rowsOf startup o ↔ ∃ r, startup[i]? = some r ∧ r.object = some o := by
  rw [rowsOf, List.mem_filter, List.mem_range, decide_eq_true_eq, Option.bind_eq_some_iff]
  constructor
  · exact And.right
  · rintro ⟨r, hr, ho⟩
    exact ⟨(List.getElem?_eq_some_iff.1 hr).1, r, hr, ho⟩

theorem rowsOf_nodup (startup : List StartupRow) (o : Object) : (rowsOf startup o).Nodup := List.nodup_range.filter _

section
variable {uiText : String → String} {timestamp : String} {startup : List StartupRow} {cs : List Candidate} {c : Candidate}
  {r : StartupRow} {o : Object}

theorem find?_other (hobject : r.object = some o) (hother : ∀ d ∈ cs, d.object ≠ o) :
    (cs.find? fun d => decide (r.object = some d.object)) = none := by
  refine List.find?_eq_none.2 fun d hd => ?_
  rw [hobject, decide_eq_true_eq, Option.some.injEq]
  exact (hother d hd).symm

theorem updated_other (hobject : r.object = some o) (hother : ∀ d ∈ cs, d.object ≠ o) :
    updated uiText timestamp cs r = r := by
  rw [updated, find?_other hobject hother]

/-- A new candidate has its own rows only. -/
theorem updated_append (hother : ∀ d ∈ cs, d.object ≠ c.object) :
    updated uiText timestamp (cs ++ [c]) r =
      if r.object = some c.object then updateRow uiText timestamp c r else updated uiText timestamp cs r := by
  unfold updated
  rw [List.find?_append]
  by_cases hobject : r.object = some c.object
  · rw [find?_other hobject hother, if_pos hobject]
    simp [hobject]
  · rw [if_neg hobject]
    simp [hobject]

theorem added_append : added uiText timestamp (cs ++ [c]) =
    added uiText timestamp cs ++ if c.startupRows = [] then [newRow uiText timestamp c] else [] := by
  by_cases hnone : c.startupRows = []
  · simp [added, hnone]
  · simp [added, hnone]

theorem applyCandidate_eq (hrows : c.startupRows = rowsOf startup c.object) (hother : ∀ d ∈ cs, d.object ≠ c.object) :
    applyCandidate uiText timestamp (startup.map (updated uiText timestamp cs) ++ added uiText timestamp cs) c =
      startup.map (updated uiText timestamp (cs ++ [c])) ++ added uiText timestamp (cs ++ [c]) := by
  unfold applyCandidate
  rw [added_append]
  by_cases hnone : c.startupRows = []
  · rw [if_pos hnone, if_pos hnone, List.append_assoc]
    congr 1
    refine List.map_congr_left fun r hr => ?_
    obtain ⟨i, hi⟩ := List.getElem?_of_mem hr
    rw [updated_append hother, if_neg]
    intro hobject
    have hmem := mem_rowsOf.2 ⟨r, hi, hobject⟩
    rw [← hrows, hnone] at hmem
    cases hmem
  · rw [if_neg hnone, if_neg hnone, List.append_nil]
    refine List.ext_getElem? fun i => ?_
    rw [getElem?_foldl_modify _ (hrows ▸ rowsOf_nodup _ _), hrows]
    rcases Nat.lt_or_ge i startup.length with hlt | hge
    · rw [List.getElem?_append_left (by simpa using hlt), List.getElem?_append_left (by simpa using hlt),
        List.getElem?_map, List.getElem?_map, List.getElem?_eq_getElem hlt, Option.map_some, Option.map_some,
        Option.map_some, updated_append hother]
      split
      · rename_i hmem
        obtain ⟨r, hr, hobject⟩ := mem_rowsOf.1 hmem
        obtain rfl := Option.some.inj ((List.getElem?_eq_getElem hlt).symm.trans hr)
        rw [if_pos hobject, updated_other hobject hother]
      · rename_i hmem
        rw [if_neg fun hobject => hmem (mem_rowsOf.2 ⟨_, List.getElem?_eq_getElem hlt, hobject⟩)]
    · rw [if_neg, List.getElem?_append_right (by simpa using hge), List.getElem?_append_right (by simpa using hge),
        List.length_map, List.length_map]
      intro hmem
      obtain ⟨r, hr, -⟩ := mem_rowsOf.1 hmem
      have hlt := (List.getElem?_eq_some_iff.1 hr).1
      omega

/-- **The table afterwards.** -/
theorem result_eq (uiText : String → String) (timestamp : String) (startup : List StartupRow) {cs : List Candidate}
    (hrows : ∀ c ∈ cs, c.startupRows = rowsOf startup c.object) (hdistinct : cs.Pairwise fun c d => c.object ≠ d.object) :
    cs.foldl (applyCandidate uiText timestamp) startup =
      startup.map (updated uiText timestamp cs) ++ added uiText timestamp cs := by
  induction cs using List.reverseRecOn with
  | nil =>
    have hid : updated uiText timestamp [] = id := rfl
    rw [hid, List.map_id]
    exact (List.append_nil _).symm
  | append_singleton cs c ih =>
    obtain ⟨hbefore, -, hlast⟩ := List.pairwise_append.1 hdistinct
    rw [List.foldl_append, ih (fun d hd => hrows d (List.mem_append_left _ hd)) hbefore]
    have hself := List.mem_singleton.2 (rfl : c = c)
    exact applyCandidate_eq (hrows c (List.mem_append_right _ hself)) fun d hd => hlast d hd c hself

end

/-! ## Objects and keys -/

theorem pick_object {watch : List WatchRow} {row : Int} {p : Pick} (h : pick watch row = some p) :
    (∃ i j, p.object = objectOf p.object.1 i j) ∧ -2 ^ 31 ≤ p.object.1 ∧ p.object.1 < 2 ^ 31 := by
  unfold pick at h
  split at h
  · cases h
  split at h
  · cases h
  split at h
  · cases h
  split at h
  · cases h
  · rename_i hread
    split at h
    · cases h
    · cases h
      exact ⟨⟨_, _, rfl⟩, toInt_range hread⟩

/-- The normal forms of an object are their own. -/
theorem objectOf_normal {o : Object} (h : ∃ i j, o = objectOf o.1 i j) :
    objectOf o.1 (String.ofList o.2.1) (String.ofList o.2.2) = o := by
  obtain ⟨i, j, ho⟩ := h
  rw [ho]
  simp only [objectOf, String.toList_ofList, normalizeHexText_idem]

theorem objectOf_trimmed (position : Int) (index subIndex : String) :
    objectOf position (trimmed index) (trimmed subIndex) = objectOf position index subIndex := by
  simp only [objectOf, toList_trimmed, normalizeHexText_congr (trim_trim _)]

theorem object_newRow {uiText : String → String} {timestamp : String} {c : Candidate}
    (h : (∃ i j, c.object = objectOf c.object.1 i j) ∧ -2 ^ 31 ≤ c.object.1 ∧ c.object.1 < 2 ^ 31) :
    (newRow uiText timestamp c).object = some c.object := by
  have hread : toInt 10 (trimmed (QString.number c.object.1)).toList = some c.object.1 := by
    rw [toList_trimmed, toInt_trim]
    exact toInt_number h.2.1 h.2.2
  rw [StartupRow.object, newRow, hread, Option.map_some, objectOf_trimmed, objectOf_normal h.1]

theorem key_of_object {p q : Pick} (h : p.object = q.object) : p.key = q.key := by
  rw [Pick.key, Pick.key, h]

section
variable {watch : List WatchRow} {rows : List Int} {startup : List StartupRow} {c : Candidate}

/-- No selected row above has the key. -/
def FirstKey (watch : List WatchRow) (rows : List Int) (q : Pick) : Prop :=
  ∀ p, Selected watch rows p → p.watchRow < q.watchRow → p.key ≠ q.key

/-- No selected row above has the object. -/
def FirstObject (watch : List WatchRow) (rows : List Int) (q : Pick) : Prop :=
  ∀ p, Selected watch rows p → p.watchRow < q.watchRow → p.object ≠ q.object

theorem find?_key_iff {q : Pick} : (picks watch rows).find? (fun p => decide (p.key = q.key)) = some q ↔
    Selected watch rows q ∧ FirstKey watch rows q := by
  rw [find?_eq_some_iff pairwise_picks, mem_picks]
  simp [FirstKey, mem_picks]

theorem candidate_unique {d : Candidate} (hc : c ∈ candidates watch startup rows) (hd : d ∈ candidates watch startup rows)
    (hkey : c.key = d.key) : c = d := by
  have hsymm : Std.Symm fun c d : Candidate => c.key ≠ d.key := ⟨fun _ _ h => h.symm⟩
  by_contra hne
  exact (collected watch startup rows).nodup.forall hc hd hne hkey

/-- **The candidates** are the selected rows that are the first of their keys. -/
theorem selected_candidate (hc : c ∈ candidates watch startup rows) :
    Selected watch rows c.toPick ∧ FirstKey watch rows c.toPick := by
  rw [← find?_key_iff, ← (collected watch startup rows).first]
  cases hfind : (candidates watch startup rows).find? fun d => decide (d.key = c.key) with
  | none =>
    have hno := List.find?_eq_none.1 hfind c hc
    exact absurd (decide_eq_true rfl) hno
  | some d =>
    have hkey : d.key = c.key := by simpa using List.find?_some hfind
    obtain rfl := candidate_unique (List.mem_of_find?_eq_some hfind) hc hkey
    exact congrArg (Option.map Candidate.toPick) hfind

theorem candidate_of_selected {q : Pick} (hq : Selected watch rows q) (hfirst : FirstKey watch rows q) :
    ∃ c ∈ candidates watch startup rows, c.toPick = q := by
  have hfind := find?_key_iff.2 ⟨hq, hfirst⟩
  rw [← (collected watch startup rows).first] at hfind
  obtain ⟨c, hc, hcq⟩ := Option.map_eq_some_iff.1 hfind
  exact ⟨c, List.mem_of_find?_eq_some hc, hcq⟩

theorem candidates_distinct : (candidates watch startup rows).Pairwise fun c d => c.object ≠ d.object :=
  (collected watch startup rows).nodup.imp fun hkey hobject => hkey (key_of_object hobject)

theorem candidate_of_object {d : Candidate} (hc : c ∈ candidates watch startup rows) (hd : d ∈ candidates watch startup rows)
    (hobject : c.object = d.object) : c = d :=
  candidate_unique hc hd (key_of_object hobject)

variable (uiText : String → String) (timestamp : String)

theorem sync_eq : syncWatchRowsToStartupSdo uiText timestamp true watch rows startup =
    startup.map (updated uiText timestamp (candidates watch startup rows)) ++
      added uiText timestamp (candidates watch startup rows) := by
  have hdistinct : (candidates watch startup rows).Pairwise fun c d => c.object ≠ d.object := candidates_distinct
  have heq := result_eq uiText timestamp startup (collected watch startup rows).rows hdistinct
  unfold syncWatchRowsToStartupSdo
  dsimp only
  split
  · rename_i hnone
    have hcs : candidates watch startup rows = [] := hnone.resolve_right (by decide)
    have hfold : (candidates watch startup rows).foldl (applyCandidate uiText timestamp) startup = startup := by
      rw [hcs]
      rfl
    exact hfold.symm.trans heq
  · exact heq

theorem object_updated (cs : List Candidate) (r : StartupRow) : (updated uiText timestamp cs r).object = r.object := by
  unfold updated
  split <;> rfl

/-- A row of the table afterwards is a row of before, or is new. -/
theorem mem_sync {r : StartupRow} : r ∈ syncWatchRowsToStartupSdo uiText timestamp true watch rows startup ↔
    (∃ r₀ ∈ startup, updated uiText timestamp (candidates watch startup rows) r₀ = r) ∨
      ∃ c ∈ candidates watch startup rows, c.startupRows = [] ∧ newRow uiText timestamp c = r := by
  rw [sync_eq, List.mem_append, List.mem_map, added, List.mem_map]
  simp only [List.mem_filter, List.isEmpty_iff, and_assoc]

theorem object_added (hc : c ∈ candidates watch startup rows) : (newRow uiText timestamp c).object = some c.object :=
  object_newRow (pick_object (selected_candidate hc).1.2)

/-- **The rows of a candidate's object** hold what it writes. -/
theorem row_of_candidate (hc : c ∈ candidates watch startup rows) {r : StartupRow}
    (hr : r ∈ syncWatchRowsToStartupSdo uiText timestamp true watch rows startup) (hobject : r.object = some c.object) :
    r.value = c.value ∧ (c.type ≠ "" → r.type = c.type) := by
  rcases (mem_sync uiText timestamp).1 hr with ⟨r₀, -, rfl⟩ | ⟨d, hd, -, rfl⟩
  · rw [object_updated] at hobject
    unfold updated
    cases hfind : (candidates watch startup rows).find? fun d => decide (r₀.object = some d.object) with
    | none =>
      have hno := List.find?_eq_none.1 hfind c hc
      exact absurd (decide_eq_true hobject) hno
    | some d =>
      have hd : r₀.object = some d.object := by simpa using List.find?_some hfind
      obtain rfl := candidate_of_object hc (List.mem_of_find?_eq_some hfind) (Option.some.inj (hobject.symm.trans hd))
      exact ⟨rfl, fun htype => if_neg htype⟩
  · rw [object_added uiText timestamp hd, Option.some.injEq] at hobject
    obtain rfl := candidate_of_object hc hd hobject.symm
    exact ⟨rfl, fun _ => rfl⟩

theorem exists_row_of_candidate (hc : c ∈ candidates watch startup rows) :
    ∃ r ∈ syncWatchRowsToStartupSdo uiText timestamp true watch rows startup, r.object = some c.object := by
  by_cases hnone : c.startupRows = []
  · exact ⟨_, (mem_sync uiText timestamp).2 (.inr ⟨c, hc, hnone, rfl⟩), object_added uiText timestamp hc⟩
  · obtain ⟨i, hi⟩ := List.exists_mem_of_ne_nil _ hnone
    rw [(collected watch startup rows).rows c hc] at hi
    obtain ⟨r, hr, hobject⟩ := mem_rowsOf.1 hi
    refine ⟨_, (mem_sync uiText timestamp).2 (.inl ⟨r, List.mem_of_getElem? hr, rfl⟩), ?_⟩
    rw [object_updated, hobject]

/-- The rows of an object without a candidate are as before. -/
theorem mem_sync_other {o : Object} (hother : ∀ c ∈ candidates watch startup rows, c.object ≠ o) {r : StartupRow}
    (hobject : r.object = some o) :
    r ∈ syncWatchRowsToStartupSdo uiText timestamp true watch rows startup ↔ r ∈ startup := by
  rw [mem_sync]
  constructor
  · rintro (⟨r₀, hr₀, rfl⟩ | ⟨c, hc, -, rfl⟩)
    · rw [object_updated] at hobject
      rwa [updated_other hobject hother]
    · rw [object_added uiText timestamp hc, Option.some.injEq] at hobject
      exact absurd hobject (hother c hc)
  · intro hr
    exact .inl ⟨r, hr, updated_other hobject hother⟩

end

/-! ## What was asked for -/

/-- The cells of the object and what is written to it. -/
def StartupRow.core (r : StartupRow) : String × String × String × String × String :=
  (r.position, r.index, r.subIndex, r.value, r.type)

/-- What the Startup table `old` becomes, and what it becomes when the same rows are
written to it once more. -/
structure Synced (watch : List WatchRow) (rows : List Int) (old new again : List StartupRow) : Prop where
  holds : ∀ q, Selected watch rows q → FirstObject watch rows q →
    (∃ r ∈ new, r.object = some q.object) ∧ ∀ r ∈ new, r.object = some q.object → r.value = q.value
  kept : ∀ (i : Nat) (r : StartupRow), old[i]? = some r →
    ∃ r' : StartupRow, new[i]? = some r' ∧ r'.position = r.position ∧ r'.index = r.index ∧
    r'.subIndex = r.subIndex ∧ ((∀ p, Selected watch rows p → r.object ≠ some p.object) → r' = r)
  fresh : ∀ r ∈ new.drop old.length, ∃ p, Selected watch rows p ∧ r.object = some p.object ∧
    ∀ r' ∈ old, r'.object ≠ some p.object
  single : ((new.drop old.length).map StartupRow.object).Nodup
  stable : again.map StartupRow.core = new.map StartupRow.core

/-- The first row of an object is the first of its key, or the table holds its value already. -/
def Told (watch : List WatchRow) (rows : List Int) (startup : List StartupRow) : Prop :=
  ∀ q, Selected watch rows q → FirstObject watch rows q →
    FirstKey watch rows q ∨
      (∃ r ∈ startup, r.object = some q.object) ∧ ∀ r ∈ startup, r.object = some q.object → r.value = q.value

section
variable (uiText : String → String) (timestamp : String) {watch : List WatchRow} {rows : List Int}
  {startup : List StartupRow} {q : Pick}

/-- An object whose first row is not the first of its key has no candidate. -/
theorem no_candidate (hfirst : FirstObject watch rows q) (hkey : ¬FirstKey watch rows q) :
    ∀ c ∈ candidates watch startup rows, c.object ≠ q.object := by
  intro c hc hobject
  obtain ⟨hsel, hfirstKey⟩ := selected_candidate hc
  refine hkey fun p hp hlt hpq => ?_
  rcases Nat.lt_or_ge p.watchRow c.watchRow with hbefore | hafter
  · exact hfirstKey p hp hbefore (hpq.trans (key_of_object hobject.symm))
  · exact hfirst c.toPick hsel (Nat.lt_of_le_of_lt hafter hlt) hobject

theorem holds_iff (hq : Selected watch rows q) (hfirst : FirstObject watch rows q) :
    ((∃ r ∈ syncWatchRowsToStartupSdo uiText timestamp true watch rows startup, r.object = some q.object) ∧
      ∀ r ∈ syncWatchRowsToStartupSdo uiText timestamp true watch rows startup, r.object = some q.object →
        r.value = q.value) ↔
      FirstKey watch rows q ∨
        (∃ r ∈ startup, r.object = some q.object) ∧ ∀ r ∈ startup, r.object = some q.object → r.value = q.value := by
  by_cases hkey : FirstKey watch rows q
  · obtain ⟨c, hc, rfl⟩ : ∃ c ∈ candidates watch startup rows, c.toPick = q := candidate_of_selected hq hkey
    refine iff_of_true ⟨exists_row_of_candidate uiText timestamp hc, fun r hr hobject => ?_⟩ (.inl hkey)
    exact (row_of_candidate uiText timestamp hc hr hobject).1
  · have hother : ∀ c ∈ candidates watch startup rows, c.object ≠ q.object := no_candidate hfirst hkey
    rw [or_iff_right hkey]
    refine and_congr (exists_congr fun r => ?_) (forall_congr' fun r => ?_)
    · refine and_congr_left fun hobject => ?_
      exact mem_sync_other uiText timestamp hother hobject
    · constructor
      · exact fun h hr hobject => h ((mem_sync_other uiText timestamp hother hobject).2 hr) hobject
      · exact fun h hr hobject => h ((mem_sync_other uiText timestamp hother hobject).1 hr) hobject

theorem sync_kept {i : Nat} {r : StartupRow} (hi : startup[i]? = some r) :
    ∃ r' : StartupRow, (syncWatchRowsToStartupSdo uiText timestamp true watch rows startup)[i]? = some r' ∧
      r'.position = r.position ∧ r'.index = r.index ∧ r'.subIndex = r.subIndex ∧ ((∀ p, Selected watch rows p → r.object ≠ some p.object) → r' = r) := by
  have hlt := (List.getElem?_eq_some_iff.1 hi).1
  refine ⟨updated uiText timestamp (candidates watch startup rows) r, ?_, ?_⟩
  · rw [sync_eq, List.getElem?_append_left (by simpa using hlt), List.getElem?_map, hi, Option.map_some]
  · unfold updated
    split
    · exact ⟨rfl, rfl, rfl, fun _ => rfl⟩
    · rename_i c hfind
      refine ⟨rfl, rfl, rfl, fun hnone => ?_⟩
      have hobject : r.object = some c.object := by simpa using List.find?_some hfind
      exact absurd hobject (hnone c.toPick (selected_candidate (List.mem_of_find?_eq_some hfind)).1)

theorem drop_sync : (syncWatchRowsToStartupSdo uiText timestamp true watch rows startup).drop startup.length =
    added uiText timestamp (candidates watch startup rows) := by
  rw [sync_eq, List.drop_left' (List.length_map _)]

theorem sync_fresh {r : StartupRow} (hr : r ∈ added uiText timestamp (candidates watch startup rows)) :
    ∃ p, Selected watch rows p ∧ r.object = some p.object ∧ ∀ r' ∈ startup, r'.object ≠ some p.object := by
  obtain ⟨c, hc, rfl⟩ := List.mem_map.1 hr
  obtain ⟨hc, hnone⟩ := List.mem_filter.1 hc
  refine ⟨c.toPick, (selected_candidate hc).1, object_added uiText timestamp hc, fun r' hr' hobject => ?_⟩
  obtain ⟨i, hi⟩ := List.getElem?_of_mem hr'
  have hmem := mem_rowsOf.2 ⟨r', hi, hobject⟩
  rw [← (collected watch startup rows).rows c hc, List.isEmpty_iff.1 hnone] at hmem
  cases hmem

theorem sync_single : ((added uiText timestamp (candidates watch startup rows)).map StartupRow.object).Nodup := by
  rw [added, List.map_map]
  have hobjects : ((candidates watch startup rows).filter fun c => c.startupRows.isEmpty).map
      (StartupRow.object ∘ newRow uiText timestamp) =
      ((candidates watch startup rows).filter fun c => c.startupRows.isEmpty).map fun c => some c.object := by
    refine List.map_congr_left fun c hc => ?_
    have hmem : c ∈ candidates watch startup rows := (List.mem_filter.1 hc).1
    rw [Function.comp_apply, object_added uiText timestamp hmem]
  have hdistinct : (candidates watch startup rows).Pairwise fun c d => c.object ≠ d.object := candidates_distinct
  rw [hobjects, List.Nodup, List.pairwise_map]
  refine (hdistinct.sublist List.filter_sublist).imp ?_
  intro c d hne hsome
  exact hne (Option.some.inj hsome)

theorem core_updateRow_of_eq {c : Candidate} {r : StartupRow} (hvalue : r.value = c.value)
    (htype : c.type ≠ "" → r.type = c.type) : (updateRow uiText timestamp c r).core = r.core := by
  have hcore : (updateRow uiText timestamp c r).core =
      (r.position, r.index, r.subIndex, c.value, if c.type = "" then r.type else c.type) := rfl
  have htype' : (if c.type = "" then r.type else c.type) = r.type := by
    split
    · rfl
    · rename_i hne
      exact (htype hne).symm
  rw [hcore, htype', ← hvalue]
  rfl

/-- **Once more** changes no address, value or type. -/
theorem sync_stable (timestamp' : String) :
    (syncWatchRowsToStartupSdo uiText timestamp' true watch rows
        (syncWatchRowsToStartupSdo uiText timestamp true watch rows startup)).map StartupRow.core =
      (syncWatchRowsToStartupSdo uiText timestamp true watch rows startup).map StartupRow.core := by
  generalize hnew : syncWatchRowsToStartupSdo uiText timestamp true watch rows startup = new
  -- the candidates are the same, and each has a row now
  have hsame : ∀ c ∈ candidates watch new rows, ∃ d ∈ candidates watch startup rows, d.toPick = c.toPick := by
    intro c hc
    obtain ⟨hsel, hkey⟩ := selected_candidate hc
    exact candidate_of_selected hsel hkey
  have hadded : added uiText timestamp' (candidates watch new rows) = [] := by
    rw [added, List.map_eq_nil_iff, List.filter_eq_nil_iff]
    intro c hc hnone
    obtain ⟨d, hd, hdc⟩ := hsame c hc
    obtain ⟨r, hr, hobject⟩ := exists_row_of_candidate uiText timestamp hd
    obtain ⟨i, hi⟩ := List.getElem?_of_mem (hnew ▸ hr)
    have hmem := mem_rowsOf.2 ⟨r, hi, hobject⟩
    rw [show d.object = c.object from congrArg Pick.object hdc, ← (collected watch new rows).rows c hc,
      List.isEmpty_iff.1 hnone] at hmem
    cases hmem
  rw [sync_eq, hadded, List.append_nil, List.map_map]
  refine List.map_congr_left fun r hr => ?_
  rw [Function.comp_apply, updated]
  split
  · rfl
  · rename_i c hfind
    obtain ⟨d, hd, hdc⟩ := hsame c (List.mem_of_find?_eq_some hfind)
    have hobject : r.object = some c.object := by simpa using List.find?_some hfind
    have hobject' : r.object = some d.object := by rw [hobject, show d.object = c.object from congrArg Pick.object hdc]
    obtain ⟨hvalue, htype⟩ := row_of_candidate uiText timestamp hd (hnew ▸ hr) hobject'
    have hv : d.value = c.value := congrArg Pick.value hdc
    have ht : d.type = c.type := congrArg Pick.type hdc
    rw [hv] at hvalue
    rw [ht] at htype
    exact core_updateRow_of_eq uiText timestamp' hvalue htype

/-- **The table is the one that was asked for exactly if** no object is taken for another one. -/
theorem synced_iff (uiText : String → String) (timestamp timestamp' : String) (watch : List WatchRow) (rows : List Int)
    (startup : List StartupRow) :
    Synced watch rows startup (syncWatchRowsToStartupSdo uiText timestamp true watch rows startup)
        (syncWatchRowsToStartupSdo uiText timestamp' true watch rows
          (syncWatchRowsToStartupSdo uiText timestamp true watch rows startup)) ↔
      Told watch rows startup := by
  constructor
  · intro h q hq hfirst
    exact (holds_iff uiText timestamp hq hfirst).1 (h.holds q hq hfirst)
  · intro h
    refine ⟨fun q hq hfirst => (holds_iff uiText timestamp hq hfirst).2 (h q hq hfirst),
      fun i r hi => sync_kept uiText timestamp hi, ?_, ?_, sync_stable uiText timestamp timestamp'⟩
    · rw [drop_sync]
      exact fun r hr => sync_fresh uiText timestamp hr
    · rw [drop_sync]
      exact sync_single uiText timestamp

end

/-- Indexes without a bar are never taken for one another. -/
theorem told_of_no_bar {watch : List WatchRow} {rows : List Int} {startup : List StartupRow}
    (h : ∀ p, Selected watch rows p → '|' ∉ p.object.2.1) : Told watch rows startup := by
  have hkey : ∀ p, Selected watch rows p → Addressed p.object ∧ p.key = objectKey p.object := by
    intro p hp
    obtain ⟨hnormal, hlow, hhigh⟩ := pick_object hp.2
    refine ⟨⟨hlow, hhigh, h p hp⟩, ?_⟩
    rw [Pick.key, sdoEvidenceKey_eq, objectOf_normal hnormal]
  intro q hq hfirst
  refine .inl fun p hp hlt hpq => hfirst p hp hlt ?_
  obtain ⟨hp', hpkey⟩ := hkey p hp
  obtain ⟨hq', hqkey⟩ := hkey q hq
  exact objectKey_inj hp' hq' (hpkey.symm.trans (hpq.trans hqkey))

/-- Two objects whose keys are "0|x|y|z". -/
def barred : List WatchRow := [⟨"0", "x|y", "z", "1", "", false⟩, ⟨"0", "x", "y|z", "2", "", false⟩]

def firstBarred : Pick := ⟨0, (0, "x|y".toList, "z".toList), "1", ""⟩

def secondBarred : Pick := ⟨1, (0, "x".toList, "y|z".toList), "2", ""⟩

/-- The second one gets no Startup row. -/
theorem lost_object : ¬∀ (uiText : String → String) (timestamp timestamp' : String) (watch : List WatchRow) (rows : List Int)
    (startup : List StartupRow),
    Synced watch rows startup (syncWatchRowsToStartupSdo uiText timestamp true watch rows startup)
      (syncWatchRowsToStartupSdo uiText timestamp' true watch rows
        (syncWatchRowsToStartupSdo uiText timestamp true watch rows startup)) := by
  intro h
  have hzero : pick barred 0 = some firstBarred := by decide +kernel
  have hone : pick barred 1 = some secondBarred := by decide +kernel
  have hselected : Selected barred [0, 1] secondBarred := ⟨by decide, hone⟩
  have hfirst : FirstObject barred [0, 1] secondBarred := by
    rintro p ⟨-, hp⟩ hlt
    have hp0 : p.watchRow = 0 := Nat.lt_one_iff.1 hlt
    rw [hp0] at hp
    obtain rfl := Option.some.inj (hzero.symm.trans hp)
    decide +kernel
  have hsynced := (h id "" "" barred [0, 1] []).holds _ hselected hfirst
  rcases (holds_iff id "" hselected hfirst).1 hsynced with hkey | ⟨⟨r, hr, -⟩, -⟩
  · exact hkey firstBarred ⟨by decide, hzero⟩ Nat.one_pos (by decide +kernel)
  · exact absurd hr List.not_mem_nil

end NekoEcat.L4.WatchSync
