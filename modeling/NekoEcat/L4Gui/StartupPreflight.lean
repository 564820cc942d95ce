import Mathlib.Data.List.Induction
import NekoEcat.Core.QHash
import NekoEcat.Core.QString
import NekoEcat.L4Gui.SdoValidation

/-!
# The preflight of the Startup SDOs

Before the Startup SDOs are applied each row is validated, and is compared with the
first row that has the same key. The key is made of the texts of the address, whereas
the validation reads numbers in them: two spellings of one object have two keys. And a
row is compared with the first one only: one that repeats the value of the first row is
not compared with the rows between them.

* `inv_step`: what the loop has found after each row.
* `ok_iff`: the tables that pass.
* `errorAt_iff`: the rows that are marked.
* `finds_iff`: when every conflict is found.
* `missed_spelling`: a conflict that passes.

Limitations: the messages that go to the diagnostics and the refresh of the Watch table
are left out. A status cell that is written here holds one of three texts.
-/
namespace NekoEcat.L4.StartupPreflight
open NekoEcat.QNumber NekoEcat.QString NekoEcat.L4.SdoValidation

/-- The cells of a row. -/
structure Row where
  position : List Char
  index : List Char
  subIndex : List Char
  value : List Char
  type : List Char
  deriving DecidableEq, Repr

/-- `textAt(…)` -/
def Row.texts (r : Row) : Row := ⟨trim r.position, trim r.index, trim r.subIndex, trim r.value, trim r.type⟩

inductive Status where
  | error | warning | ok
  deriving DecidableEq, Repr

structure Mark where
  status : Status
  detail : String
  deriving DecidableEq, Repr

structure Pass where
  firstOccurrence : QHash String Nat := .empty
  firstOccurrenceValue : QHash String (List Char) := .empty
  firstConflictRows : List Nat := []
  marks : List Mark := []
  errors : Nat := 0
  warnings : Nat := 0

structure Outcome where
  ok : Bool
  marks : List Mark
  errors : Nat
  warnings : Nat

/-- The key of a row that has an address. -/
def Row.key (r : Row) : Option String :=
  if r.index.isEmpty = false ∧ r.subIndex.isEmpty = false then
    some (QString.number ((toInt 10 r.position).getD 0) ++ "|" ++ String.ofList (lower r.index) ++ "|" ++
      String.ofList (lower r.subIndex))
  else none

/-- `compare(…, Qt::CaseInsensitive)` looks at this. -/
def folded (value : List Char) : List Char := lower (trim value)

section
variable (uiText : String → String) (isDouble : List Char → Bool) (online : List Int)

/-- mirrors apps/ecat-studio/workspaces/MainWindowStartupSdoWorkspace.cpp:487-491 -/
def positionErrors (r : Row) : List String :=
  match toInt 10 r.position with
  | none => [uiText "invalid slave position"]
  | some position =>
    if position < 0 then [uiText "invalid slave position"]
    else if online ≠ [] ∧ position ∉ online then [uiText "slave is not present in current topology"]
    else []

def validated (r : Row) : Report := validate uiText isDouble r.index r.subIndex r.value r.type

/-- What is wrong with a row by itself. -/
def ownErrors (r : Row) : List String := positionErrors uiText online r ++ (validated uiText isDouble r).errors

/-- The comparison with the first row of the key.
mirrors apps/ecat-studio/workspaces/MainWindowStartupSdoWorkspace.cpp:494-540 -/
def compareFirst (s : Pass) (r : Row) : Pass × List String × List String :=
  match r.key with
  | none => (s, [], [])
  | some key =>
    match s.firstOccurrence.value key with
    | some firstRow =>
      let firstValue := (s.firstOccurrenceValue.value key).getD []
      if folded firstValue ≠ folded r.value then
        ({ s with
            firstConflictRows := s.firstConflictRows.insert firstRow
            marks := s.marks.set firstRow ⟨.error, arg (uiText "conflicting duplicate object also appears on row %1")
              (QString.number (s.marks.length + 1))⟩ },
          [arg (arg (uiText "conflicting duplicate object on row %1 has value %2") (QString.number (firstRow + 1)))
            (String.ofList firstValue)], [])
      else (s, [], [arg (uiText "duplicate object also appears on row %1") (QString.number (firstRow + 1))])
    | none =>
      ({ s with
          firstOccurrence := s.firstOccurrence.insert key s.marks.length
          firstOccurrenceValue := s.firstOccurrenceValue.insert key r.value }, [], [])

/-- mirrors apps/ecat-studio/workspaces/MainWindowStartupSdoWorkspace.cpp:542-577 -/
def finishRow (s : Pass) (rowErrors rowWarnings : List String) : Pass :=
  if rowErrors ≠ [] then
    { s with errors := s.errors + 1, marks := s.marks ++ [⟨.error, "; ".intercalate rowErrors⟩] }
  else if rowWarnings ≠ [] then
    { s with warnings := s.warnings + 1, marks := s.marks ++ [⟨.warning, "; ".intercalate rowWarnings⟩] }
  else { s with marks := s.marks ++ [⟨.ok, ""⟩] }

def step (s : Pass) (r : Row) : Pass :=
  let (s', errors, warnings) := compareFirst uiText s r
  finishRow s' (ownErrors uiText isDouble online r ++ errors) ((validated uiText isDouble r).warnings ++ warnings)

/-- mirrors apps/ecat-studio/workspaces/MainWindowStartupSdoWorkspace.cpp:453-599 -/
def preflightStartupSdoList (globalIssues : List String) (rows : List Row) : Outcome :=
  if rows = [] then ⟨false, [], 0, 0⟩
  else
    let s := (rows.map Row.texts).foldl (step uiText isDouble online) { warnings := globalIssues.length }
    let errors := s.errors + s.firstConflictRows.length
    ⟨decide (errors = 0), s.marks, errors, s.warnings⟩

end

/-! ## The first row of a key -/

def firstIdx (rows : List Row) (key : String) : Option Nat := rows.findIdx? fun r => decide (r.key = some key)

/-- The first row of the key of `r` is row `f`, which is `x`. -/
structure FirstOf (rows : List Row) (r : Row) (f : Nat) (x : Row) : Prop where
  first : r.key.bind (firstIdx rows) = some f
  row : rows[f]? = some x

def alike (r r' : Row) : Prop := folded r.value = folded r'.value

theorem firstIdx_append (rows : List Row) (r : Row) (key : String) :
    firstIdx (rows ++ [r]) key = (firstIdx rows key).or (if r.key = some key then some rows.length else none) := by
  rw [firstIdx, List.findIdx?_append, List.findIdx?_singleton]
  by_cases hkey : r.key = some key
  · simp [firstIdx, hkey]
  · simp [firstIdx, hkey]

theorem firstIdx_row {rows : List Row} {key : String} {f : Nat} (h : firstIdx rows key = some f) :
    ∃ x, rows[f]? = some x ∧ x.key = some key := by
  obtain ⟨hlt, hkey, -⟩ := List.findIdx?_eq_some_iff_getElem.1 h
  exact ⟨rows[f], List.getElem?_eq_getElem hlt, of_decide_eq_true hkey⟩

theorem firstIdx_of_mem {rows : List Row} {r : Row} {key : String} (hr : r ∈ rows) (hkey : r.key = some key) :
    ∃ f, firstIdx rows key = some f := by
  refine Option.isSome_iff_exists.1 ?_
  rw [firstIdx, List.findIdx?_isSome, List.any_eq_true]
  exact ⟨r, hr, decide_eq_true hkey⟩

theorem FirstOf.same_key {rows : List Row} {r x : Row} {f : Nat} (h : FirstOf rows r f x) : x.key = r.key := by
  obtain ⟨key, hkey, hf⟩ := Option.bind_eq_some_iff.1 h.first
  obtain ⟨y, hy, hykey⟩ := firstIdx_row hf
  rw [Option.some.inj (h.row.symm.trans hy), hykey, hkey]

theorem FirstOf.unique {rows : List Row} {r r' x x' : Row} {f f' : Nat} (h : FirstOf rows r f x)
    (h' : FirstOf rows r' f' x') (hkey : r.key = r'.key) : f = f' ∧ x = x' := by
  have hf : f = f' := Option.some.inj (h.first.symm.trans (hkey ▸ h'.first))
  exact ⟨hf, Option.some.inj (h.row.symm.trans (hf ▸ h'.row))⟩

theorem firstOf_of_mem {rows : List Row} {r : Row} {key : String} (hr : r ∈ rows) (hkey : r.key = some key) :
    ∃ f x, FirstOf rows r f x := by
  obtain ⟨f, hf⟩ := firstIdx_of_mem hr hkey
  obtain ⟨x, hx, -⟩ := firstIdx_row hf
  exact ⟨f, x, by rw [hkey, Option.bind_some, hf], hx⟩

/-- A row that has a first one keeps it. -/
theorem FirstOf.append {rows : List Row} {r x : Row} {f : Nat} (h : FirstOf rows r f x) (r' : Row) :
    FirstOf (rows ++ [r']) r f x := by
  obtain ⟨key, hkey, hf⟩ := Option.bind_eq_some_iff.1 h.first
  have hlt : f < rows.length := (List.getElem?_eq_some_iff.1 h.row).1
  exact ⟨by rw [hkey, Option.bind_some, firstIdx_append, hf, Option.some_or],
    by rw [List.getElem?_append_left hlt, h.row]⟩

theorem firstOf_append_iff {rows : List Row} {r r' x : Row} {f : Nat} (hr : r ∈ rows) :
    FirstOf (rows ++ [r']) r f x ↔ FirstOf rows r f x := by
  constructor
  · intro h
    obtain ⟨key, hkey, -⟩ := Option.bind_eq_some_iff.1 h.first
    obtain ⟨f', x', h'⟩ := firstOf_of_mem hr hkey
    obtain ⟨rfl, rfl⟩ := h.unique (h'.append r') rfl
    exact h'
  · exact fun h => h.append r'

/-! ## What the loop finds -/

section
variable (uiText : String → String) (isDouble : List Char → Bool) (online : List Int)

/-- Nothing is wrong with the row, also not beside the first one. -/
def Fine (rows : List Row) (r : Row) : Prop :=
  ownErrors uiText isDouble online r = [] ∧ ∀ f x, FirstOf rows r f x → alike x r

/-- Row `i` is marked: for itself, for the first row, or as the first row of another one. -/
def Marked (rows : List Row) (i : Nat) (r : Row) : Prop :=
  ownErrors uiText isDouble online r ≠ [] ∨ (∃ f x, FirstOf rows r f x ∧ ¬alike x r) ∨
    ∃ x, FirstOf rows r i x ∧ ∃ r' ∈ rows, r'.key = r.key ∧ ¬alike r r'

def ErrorAt (marks : List Mark) (i : Nat) : Prop := ∃ m, marks[i]? = some m ∧ m.status = .error

structure Inv (rows : List Row) (s : Pass) : Prop where
  length : s.marks.length = rows.length
  first : ∀ key, s.firstOccurrence.value key = firstIdx rows key
  value : ∀ key, s.firstOccurrenceValue.value key = ((firstIdx rows key).bind (rows[·]?)).map Row.value
  mark : ∀ i r, rows[i]? = some r → (ErrorAt s.marks i ↔ Marked uiText isDouble online rows i r)
  errors : s.errors = 0 ↔ ∀ r ∈ rows, Fine uiText isDouble online rows r
  conflicts : s.firstConflictRows ≠ [] → s.errors ≠ 0

theorem finishRow_spec (s : Pass) (e w : List String) :
    ∃ m, (finishRow s e w).marks = s.marks ++ [m] ∧ (m.status = .error ↔ e ≠ []) ∧
      (finishRow s e w).errors = s.errors + (if e = [] then 0 else 1) ∧
      (finishRow s e w).firstOccurrence = s.firstOccurrence ∧
      (finishRow s e w).firstOccurrenceValue = s.firstOccurrenceValue ∧
      (finishRow s e w).firstConflictRows = s.firstConflictRows := by
  unfold finishRow
  by_cases he : e = []
  · rw [if_neg (not_not_intro he), if_pos he]
    split
    · exact ⟨_, rfl, by simp [he], rfl, rfl, rfl, rfl⟩
    · exact ⟨_, rfl, by simp [he], rfl, rfl, rfl, rfl⟩
  · rw [if_pos he, if_neg he]
    exact ⟨_, rfl, by simp [he], rfl, rfl, rfl, rfl⟩

/-- What the comparison with the first row does. -/
inductive Compared (rows : List Row) (s : Pass) (r : Row) : Pass × List String × List String → Prop where
  | unaddressed (h : r.key = none) : Compared rows s r (s, [], [])
  | conflict (f : Nat) (x : Row) (detail message : String) (h : FirstOf rows r f x) (hne : ¬alike x r) :
    Compared rows s r
      ({ s with firstConflictRows := s.firstConflictRows.insert f, marks := s.marks.set f ⟨.error, detail⟩ }, [message], [])
  | repeated (f : Nat) (x : Row) (message : String) (h : FirstOf rows r f x) (heq : alike x r) :
    Compared rows s r (s, [], [message])
  | fresh (key : String) (hkey : r.key = some key) (h : firstIdx rows key = none) :
    Compared rows s r
      ({ s with
          firstOccurrence := s.firstOccurrence.insert key s.marks.length
          firstOccurrenceValue := s.firstOccurrenceValue.insert key r.value }, [], [])

variable {uiText isDouble online}

theorem compareFirst_cases {rows : List Row} {s : Pass} (h : Inv uiText isDouble online rows s) (r : Row) :
    Compared rows s r (compareFirst uiText s r) := by
  unfold compareFirst
  cases hkey : r.key with
  | none => exact .unaddressed hkey
  | some key =>
    simp only [h.first key, h.value key]
    cases hf : firstIdx rows key with
    | none => exact .fresh key hkey hf
    | some f =>
      obtain ⟨x, hx, -⟩ := firstIdx_row hf
      have hfirst : FirstOf rows r f x := ⟨by rw [hkey, Option.bind_some, hf], hx⟩
      simp only [Option.bind_some, hx, Option.map_some, Option.getD_some]
      split
      · rename_i hne
        exact .conflict f x _ _ hfirst hne
      · rename_i heq
        exact .repeated f x _ hfirst (not_not.1 heq)

theorem marked_append_iff {rows : List Row} {i : Nat} {x : Row} (r : Row) (hx : rows[i]? = some x) :
    Marked uiText isDouble online (rows ++ [r]) i x ↔ Marked uiText isDouble online rows i x ∨
      ((∃ y, FirstOf rows x i y) ∧ r.key = x.key ∧ ¬alike x r) := by
  have hmem := List.mem_of_getElem? hx
  simp only [Marked, firstOf_append_iff hmem, List.mem_append, List.mem_singleton]
  constructor
  · rintro (hown | hfirst | ⟨y, hy, r', hr' | rfl, hkey, hne⟩)
    · exact .inl (.inl hown)
    · exact .inl (.inr (.inl hfirst))
    · exact .inl (.inr (.inr ⟨y, hy, r', hr', hkey, hne⟩))
    · exact .inr ⟨⟨y, hy⟩, hkey, hne⟩
  · rintro ((hown | hfirst | ⟨y, hy, r', hr', hkey, hne⟩) | ⟨⟨y, hy⟩, hkey, hne⟩)
    · exact .inl hown
    · exact .inr (.inl hfirst)
    · exact .inr (.inr ⟨y, hy, r', .inl hr', hkey, hne⟩)
    · exact .inr (.inr ⟨y, hy, r, .inr rfl, hkey, hne⟩)

theorem fine_append_iff {rows : List Row} {x : Row} (r : Row) (hx : x ∈ rows) :
    Fine uiText isDouble online (rows ++ [r]) x ↔ Fine uiText isDouble online rows x := by
  simp only [Fine, firstOf_append_iff hx]

/-- A row that is the first of its key is not marked for another one when it is read. -/
theorem marked_last_iff {rows : List Row} {r : Row} :
    Marked uiText isDouble online (rows ++ [r]) rows.length r ↔
      ownErrors uiText isDouble online r ≠ [] ∨ ∃ f x, FirstOf (rows ++ [r]) r f x ∧ ¬alike x r := by
  constructor
  · rintro (hown | hfirst | ⟨x, hx, r', hr', hkey, hne⟩)
    · exact .inl hown
    · exact .inr hfirst
    · rcases List.mem_append.1 hr' with hold | hnew
      · -- the first row would be an older one
        obtain ⟨key, hsome, -⟩ := Option.bind_eq_some_iff.1 hx.first
        obtain ⟨f, y, hy⟩ := firstOf_of_mem hold (hkey.trans hsome)
        obtain ⟨rfl, -⟩ := hx.unique (hy.append r) hkey.symm
        have hlt := (List.getElem?_eq_some_iff.1 hy.row).1
        exact absurd hlt (Nat.lt_irrefl _)
      · obtain rfl := List.mem_singleton.1 hnew
        exact absurd rfl hne
  · rintro (hown | hfirst)
    · exact .inl hown
    · exact .inr (.inl hfirst)

theorem inv_finishRow {rows : List Row} {s s' : Pass} {r : Row} (h : Inv uiText isDouble online rows s) (dup w : List String)
    (hlength : s'.marks.length = rows.length)
    (hfirst : ∀ key, s'.firstOccurrence.value key = firstIdx (rows ++ [r]) key)
    (hvalue : ∀ key, s'.firstOccurrenceValue.value key =
      ((firstIdx (rows ++ [r]) key).bind ((rows ++ [r])[·]?)).map Row.value)
    (hmark : ∀ i x, rows[i]? = some x → (ErrorAt s'.marks i ↔ Marked uiText isDouble online (rows ++ [r]) i x))
    (hdup : dup ≠ [] ↔ ∃ f x, FirstOf (rows ++ [r]) r f x ∧ ¬alike x r) (herrors : s'.errors = s.errors)
    (hconflicts : s'.firstConflictRows ≠ [] → s.errors ≠ 0 ∨ dup ≠ []) :
    Inv uiText isDouble online (rows ++ [r]) (finishRow s' (ownErrors uiText isDouble online r ++ dup) w) := by
  obtain ⟨m, hm, hstatus, he, h1, h2, h3⟩ := finishRow_spec s' (ownErrors uiText isDouble online r ++ dup) w
  have hboth : ownErrors uiText isDouble online r ++ dup ≠ [] ↔
      ownErrors uiText isDouble online r ≠ [] ∨ ∃ f x, FirstOf (rows ++ [r]) r f x ∧ ¬alike x r := by
    rw [← hdup, ne_eq, List.append_eq_nil_iff, not_and_or]
  refine ⟨?_, ?_, ?_, ?_, ?_, ?_⟩
  · rw [hm, List.length_append, List.length_append, hlength]
    rfl
  · rw [h1]
    exact hfirst
  · rw [h2]
    exact hvalue
  · intro i x hx
    rcases Nat.lt_or_ge i rows.length with hlt | hge
    · rw [List.getElem?_append_left hlt] at hx
      rw [← hmark i x hx, ErrorAt, ErrorAt, hm, List.getElem?_append_left (by omega)]
    · have hi : i = rows.length := by
        have := (List.getElem?_eq_some_iff.1 hx).1
        rw [List.length_append, List.length_singleton] at this
        omega
      subst hi
      rw [List.getElem?_concat_length, Option.some.injEq] at hx
      subst hx
      rw [marked_last_iff, ← hboth, ← hstatus, ErrorAt, hm, ← hlength, List.getElem?_concat_length]
      simp
  · rw [he, herrors, Nat.add_eq_zero_iff, h.errors]
    simp only [List.mem_append, List.mem_singleton, or_imp, forall_and, forall_eq]
    refine and_congr (forall₂_congr fun x hx => (fine_append_iff r hx).symm) ?_
    have hfine : Fine uiText isDouble online (rows ++ [r]) r ↔ ownErrors uiText isDouble online r ++ dup = [] := by
      rw [← not_iff_not, ← ne_eq (_ ++ _), hboth, Fine, not_and_or]
      simp only [not_forall, exists_prop]
    rw [hfine]
    split <;> simp_all
  · intro hne
    rw [h3] at hne
    rw [he, herrors]
    rcases hconflicts hne with hs | hd
    · omega
    · have hboth' : ownErrors uiText isDouble online r ++ dup ≠ [] := List.append_ne_nil_of_right_ne_nil _ hd
      rw [if_neg hboth']
      omega

theorem not_fresh_of_firstOf {rows : List Row} {r x y : Row} {key : String} {i : Nat} (hkey : r.key = some key)
    (h : firstIdx rows key = none) (hx : FirstOf rows x i y) : r.key ≠ x.key := by
  intro hsame
  have hfirst := hx.first
  rw [← hsame, hkey, Option.bind_some, h] at hfirst
  cases hfirst

/-- The hash tables know the first rows as long as no new key comes. -/
theorem firstIdx_known {rows : List Row} {r : Row} (h : r.key = none ∨ ∃ f x, FirstOf rows r f x) (key : String) :
    firstIdx (rows ++ [r]) key = firstIdx rows key := by
  rw [firstIdx_append]
  rcases h with hnone | ⟨f, x, hf⟩
  · rw [hnone, if_neg (Option.some_ne_none key).symm, Option.or_none]
  · split
    · rename_i hkey
      have hfirst := hf.first
      rw [hkey, Option.bind_some] at hfirst
      rw [hfirst, Option.some_or]
    · exact Option.or_none

theorem bind_getElem?_append {rows : List Row} (r : Row) (key : String) :
    (firstIdx rows key).bind ((rows ++ [r])[·]?) = (firstIdx rows key).bind (rows[·]?) := by
  cases hf : firstIdx rows key with
  | none => rfl
  | some f =>
    obtain ⟨x, hx, -⟩ := firstIdx_row hf
    exact List.getElem?_append_left (List.getElem?_eq_some_iff.1 hx).1

/-- **One more row.** -/
theorem inv_step {rows : List Row} {s : Pass} (h : Inv uiText isDouble online rows s) (r : Row) :
    Inv uiText isDouble online (rows ++ [r]) (step uiText isDouble online s r) := by
  have hvalue : ∀ key, firstIdx (rows ++ [r]) key = firstIdx rows key → s.firstOccurrenceValue.value key =
      ((firstIdx (rows ++ [r]) key).bind ((rows ++ [r])[·]?)).map Row.value := by
    intro key hsame
    rw [hsame, bind_getElem?_append, h.value]
  have hcompared := compareFirst_cases h r
  revert hcompared
  unfold step
  generalize compareFirst uiText s r = result
  intro hcompared
  cases hcompared with
  | unaddressed hnone =>
    have hknown : ∀ key, firstIdx (rows ++ [r]) key = firstIdx rows key := firstIdx_known (.inl hnone)
    have hno : ∀ f x, ¬FirstOf (rows ++ [r]) r f x := by
      intro f x hx
      have hfirst := hx.first
      rw [hnone] at hfirst
      cases hfirst
    refine inv_finishRow h [] _ h.length (fun key => (h.first key).trans (hknown key).symm)
      (fun key => hvalue key (hknown key)) (fun i x hx => ?_) ?_ rfl (fun hne => .inl (h.conflicts hne))
    · rw [h.mark i x hx, marked_append_iff r hx]
      refine (or_iff_left ?_).symm
      rintro ⟨⟨y, hy⟩, hkey, -⟩
      have hfirst := hy.first
      rw [← hkey, hnone] at hfirst
      cases hfirst
    · refine iff_of_false (not_not_intro rfl) ?_
      rintro ⟨f, x, hx, -⟩
      exact hno f x hx
  | repeated f y message hf heq =>
    have hknown : ∀ key, firstIdx (rows ++ [r]) key = firstIdx rows key := firstIdx_known (.inr ⟨f, y, hf⟩)
    refine inv_finishRow h [] _ h.length (fun key => (h.first key).trans (hknown key).symm)
      (fun key => hvalue key (hknown key)) (fun i x hx => ?_) ?_ rfl (fun hne => .inl (h.conflicts hne))
    · rw [h.mark i x hx, marked_append_iff r hx]
      refine (or_iff_left ?_).symm
      rintro ⟨⟨z, hz⟩, hkey, hne⟩
      obtain ⟨rfl, rfl⟩ := hz.unique hf hkey.symm
      obtain rfl := Option.some.inj (hx.symm.trans hf.row)
      exact hne heq
    · refine iff_of_false (not_not_intro rfl) ?_
      rintro ⟨f', x, hx, hne⟩
      obtain ⟨-, rfl⟩ := hx.unique (hf.append r) rfl
      exact hne heq
  | conflict f y detail message hf hne =>
    have hknown : ∀ key, firstIdx (rows ++ [r]) key = firstIdx rows key := firstIdx_known (.inr ⟨f, y, hf⟩)
    have hlt : f < s.marks.length := h.length ▸ (List.getElem?_eq_some_iff.1 hf.row).1
    refine inv_finishRow h [message] _ ((List.length_set).trans h.length) (fun key => (h.first key).trans (hknown key).symm)
      (fun key => hvalue key (hknown key)) (fun i x hx => ?_) ?_ rfl (fun _ => .inr (List.cons_ne_nil _ _))
    · rw [marked_append_iff r hx, ← h.mark i x hx]
      by_cases hi : i = f
      · subst hi
        obtain rfl := Option.some.inj (hx.symm.trans hf.row)
        have hkey := hf.same_key
        refine iff_of_true ⟨_, List.getElem?_set_self hlt, rfl⟩ (.inr ⟨⟨x, ?_, hf.row⟩, hkey.symm, hne⟩)
        rw [hkey]
        exact hf.first
      · rw [ErrorAt, List.getElem?_set_ne (Ne.symm hi)]
        refine (or_iff_left ?_).symm
        rintro ⟨⟨z, hz⟩, hkey, -⟩
        exact hi (hz.unique hf hkey.symm).1
    · exact iff_of_true (List.cons_ne_nil _ _) ⟨f, y, hf.append r, hne⟩
  | fresh key hkey hnone =>
    have hindex : ∀ key', firstIdx (rows ++ [r]) key' = if key' = key then some rows.length else firstIdx rows key' := by
      intro key'
      rw [firstIdx_append, hkey]
      by_cases hk : key' = key
      · subst hk
        rw [hnone, if_pos rfl, if_pos rfl, Option.none_or]
      · rw [if_neg fun hsome => hk (Option.some.inj hsome).symm, if_neg hk, Option.or_none]
    have hself : FirstOf (rows ++ [r]) r rows.length r :=
      ⟨by rw [hkey, Option.bind_some, hindex, if_pos rfl], List.getElem?_concat_length⟩
    refine inv_finishRow h [] _ h.length (fun key' => ?_) (fun key' => ?_) (fun i x hx => ?_) ?_ rfl
      (fun hne => .inl (h.conflicts hne))
    · rw [QHash.value_insert, h.first, hindex, h.length]
    · rw [QHash.value_insert, hindex]
      split
      · rw [Option.bind_some, List.getElem?_concat_length, Option.map_some]
      · rw [h.value, bind_getElem?_append]
    · rw [h.mark i x hx, marked_append_iff r hx]
      refine (or_iff_left ?_).symm
      rintro ⟨⟨z, hz⟩, hsame, -⟩
      exact not_fresh_of_firstOf hkey hnone hz hsame
    · refine iff_of_false (not_not_intro rfl) ?_
      rintro ⟨f', x, hx, hne⟩
      obtain ⟨-, rfl⟩ := hx.unique hself rfl
      exact hne rfl

/-- **After all rows.** -/
theorem inv_foldl (rows : List Row) (warnings : Nat) :
    Inv uiText isDouble online rows (rows.foldl (step uiText isDouble online) { warnings := warnings }) := by
  induction rows using List.reverseRecOn with
  | nil =>
    refine ⟨rfl, fun _ => rfl, fun _ => rfl, fun i r hr => ?_, ?_, fun hne => absurd rfl hne⟩
    · simp at hr
    · exact iff_of_true rfl fun r hr => absurd hr List.not_mem_nil
  | append_singleton rows r ih =>
    rw [List.foldl_append]
    exact inv_step ih r

/-! ## What is returned -/

variable (uiText isDouble online) (globalIssues : List String) (rows : List Row)

theorem ok_iff : (preflightStartupSdoList uiText isDouble online globalIssues rows).ok = true ↔
    rows ≠ [] ∧ ∀ r ∈ rows.map Row.texts, Fine uiText isDouble online (rows.map Row.texts) r := by
  have hinv : Inv uiText isDouble online _ _ := inv_foldl (rows.map Row.texts) globalIssues.length
  unfold preflightStartupSdoList
  by_cases hrows : rows = []
  · rw [if_pos hrows]
    exact iff_of_false Bool.false_ne_true fun h => h.1 hrows
  · rw [if_neg hrows, decide_eq_true_eq, Nat.add_eq_zero_iff, List.length_eq_zero_iff, ← hinv.errors]
    constructor
    · exact fun h => ⟨hrows, h.1⟩
    · rintro ⟨-, hzero⟩
      exact ⟨hzero, not_not.1 fun hne => hinv.conflicts hne hzero⟩

theorem errorAt_iff {i : Nat} {r : Row} (hr : (rows.map Row.texts)[i]? = some r) :
    ErrorAt (preflightStartupSdoList uiText isDouble online globalIssues rows).marks i ↔
      Marked uiText isDouble online (rows.map Row.texts) i r := by
  have hinv : Inv uiText isDouble online _ _ := inv_foldl (rows.map Row.texts) globalIssues.length
  unfold preflightStartupSdoList
  rw [if_neg, hinv.mark i r hr]
  rintro rfl
  simp at hr

end

/-! ## Conflicts -/

/-- Both rows write to one object, and the numbers are different. -/
def Conflict {N : Type} (number : List Char → Option N) (r r' : Row) : Prop :=
  (∃ p, toInt 10 r.position = some p ∧ toInt 10 r'.position = some p) ∧
    (∃ i, parseNumber r.index = some i ∧ parseNumber r'.index = some i) ∧
    (∃ i, parseNumber r.subIndex = some i ∧ parseNumber r'.subIndex = some i) ∧
    ∃ n n', number (folded r.value) = some n ∧ number (folded r'.value) = some n' ∧ n ≠ n'

section
variable {N : Type} (number : List Char → Option N)

/-- What the preflight is for: no conflict passes, and the rows of a conflict it makes
fail are marked. -/
structure FindsConflicts (rows : List Row) (o : Outcome) : Prop where
  passed : o.ok = true → ∀ r ∈ rows, ∀ r' ∈ rows, ¬Conflict number r r'
  marked : o.ok = false → ∀ i r, rows[i]? = some r → ∀ r' ∈ rows, Conflict number r r' → r.key = r'.key → ErrorAt o.marks i

/-- Where nothing else is wrong, rows in conflict are spelled alike; and a row that
repeats the value of the first row that is spelled like it, against another one, has an
error of its own. -/
structure Told (uiText : String → String) (isDouble : List Char → Bool) (online : List Int) (rows : List Row) : Prop where
  spelled : (∀ r ∈ rows, ownErrors uiText isDouble online r = [] ∧ ∀ r' ∈ rows, r.key = r'.key → alike r r') →
    ∀ r ∈ rows, ∀ r' ∈ rows, Conflict number r r' → r.key = r'.key
  repeated : ∀ i r, rows[i]? = some r → ∀ r' ∈ rows, Conflict number r r' → r.key = r'.key →
    ∀ f x, FirstOf rows r f x → f ≠ i → alike x r → ownErrors uiText isDouble online r ≠ []

variable {number}

theorem Conflict.not_alike {r r' : Row} (h : Conflict number r r') : ¬alike r r' := by
  obtain ⟨-, -, -, n, n', hn, hn', hne⟩ := h
  intro heq
  rw [heq] at hn
  exact hne (Option.some.inj (hn.symm.trans hn'))

theorem isEmpty_of_parseNumber {cs : List Char} {n : Nat} (h : parseNumber cs = some n) : cs.isEmpty = false := by
  cases cs with
  | nil =>
    have hnone : parseNumber [] = none := by decide
    cases hnone.symm.trans h
  | cons c cs => rfl

theorem key_of_ownErrors {uiText : String → String} {isDouble : List Char → Bool} {online : List Int} {r : Row}
    (h : ownErrors uiText isDouble online r = []) : ∃ key, r.key = some key := by
  have haddress : indexErrors uiText r.index ++ subIndexErrors uiText r.subIndex = [] := by
    have hvalidated := (List.append_eq_nil_iff.1 h).2
    unfold validated validate at hvalidated
    dsimp only at hvalidated
    split at hvalidated
    · exact (List.append_eq_nil_iff.1 hvalidated).1
    · exact (List.append_eq_nil_iff.1 hvalidated).1
  obtain ⟨hindex, hsub⟩ := List.append_eq_nil_iff.1 haddress
  obtain ⟨i, hi, -⟩ := addressErrors_eq_nil_iff.1 hindex
  obtain ⟨j, hj, -⟩ := addressErrors_eq_nil_iff.1 hsub
  exact ⟨_, if_pos ⟨isEmpty_of_parseNumber hi, isEmpty_of_parseNumber hj⟩⟩

theorem Conflict.key {r r' : Row} (h : Conflict number r r') : ∃ key, r.key = some key := by
  obtain ⟨-, ⟨i, hi, -⟩, ⟨j, hj, -⟩, -⟩ := h
  exact ⟨_, if_pos ⟨isEmpty_of_parseNumber hi, isEmpty_of_parseNumber hj⟩⟩

/-- Rows of one key whose values differ are not both fine. -/
theorem not_fine {uiText : String → String} {isDouble : List Char → Bool} {online : List Int} {rows : List Row} {r r' : Row}
    {key : String} (hr : r ∈ rows) (hkey : r.key = some key) (hsame : r.key = r'.key) (hne : ¬alike r r')
    (h : Fine uiText isDouble online rows r) (h' : Fine uiText isDouble online rows r') : False := by
  obtain ⟨f, x, hx⟩ := firstOf_of_mem hr hkey
  have hfirst : FirstOf rows r' f x := ⟨hsame ▸ hx.first, hx.row⟩
  exact hne ((h.2 f x hx).symm.trans (h'.2 f x hfirst))

/-- **Every conflict is found exactly if** the spelling and the order tell it. -/
theorem finds_iff (number : List Char → Option N) (uiText : String → String) (isDouble : List Char → Bool)
    (online : List Int) (globalIssues : List String) (rows : List Row) :
    FindsConflicts number (rows.map Row.texts) (preflightStartupSdoList uiText isDouble online globalIssues rows) ↔
      Told number uiText isDouble online (rows.map Row.texts) := by
  have hok := ok_iff uiText isDouble online globalIssues rows
  have herror := @errorAt_iff uiText isDouble online globalIssues rows
  have hrows : ∀ r ∈ rows.map Row.texts, rows ≠ [] := by
    rintro r hr rfl
    exact absurd hr List.not_mem_nil
  generalize preflightStartupSdoList uiText isDouble online globalIssues rows = o at hok herror
  generalize rows.map Row.texts = texts at *
  -- nothing is wrong with any row
  have hfine : (∀ r ∈ texts, Fine uiText isDouble online texts r) ↔
      ∀ r ∈ texts, ownErrors uiText isDouble online r = [] ∧ ∀ r' ∈ texts, r.key = r'.key → alike r r' := by
    constructor
    · intro hall r hr
      refine ⟨(hall r hr).1, fun r' hr' hsame => ?_⟩
      obtain ⟨key, hkey⟩ := key_of_ownErrors (hall r hr).1
      exact not_not.1 fun hne => not_fine hr hkey hsame hne (hall r hr) (hall r' hr')
    · intro hall r hr
      refine ⟨(hall r hr).1, fun f x hx => ?_⟩
      exact (hall x (List.mem_of_getElem? hx.row)).2 r hr hx.same_key
  constructor
  · rintro ⟨hpassed, hmarked⟩
    refine ⟨fun hall r hr r' hr' hc => ?_, fun i r hi r' hr' hc hkey f x hx hf hxr => ?_⟩
    · exact absurd hc (hpassed (hok.2 ⟨hrows r hr, hfine.2 hall⟩) r hr r' hr')
    · have hr := List.mem_of_getElem? hi
      have hfails : o.ok = false := Bool.eq_false_iff.2 fun hpass => hpassed hpass r hr r' hr' hc
      rcases (herror hi).1 (hmarked hfails i r hi r' hr' hc hkey) with hown | ⟨f', x', hx', hne⟩ | ⟨y, hy, -⟩
      · exact hown
      · obtain ⟨-, rfl⟩ := hx'.unique hx rfl
        exact absurd hxr hne
      · exact absurd (hx.unique hy rfl).1 hf
  · rintro ⟨hspelled, hrepeated⟩
    refine ⟨fun hpass r hr r' hr' hc => ?_, fun _ i r hi r' hr' hc hkey => ?_⟩
    · have hall := hfine.1 (hok.1 hpass).2
      exact hc.not_alike ((hall r hr).2 r' hr' (hspelled hall r hr r' hr' hc))
    · rw [herror hi]
      obtain ⟨key, hsome⟩ := hc.key
      obtain ⟨f, x, hx⟩ := firstOf_of_mem (List.mem_of_getElem? hi) hsome
      by_cases hxr : alike x r
      · by_cases hf : f = i
        · subst hf
          exact .inr (.inr ⟨x, hx, r', hr', hkey.symm, hc.not_alike⟩)
        · exact .inl (hrepeated i r hi r' hr' hc hkey f x hx hf hxr)
      · exact .inr (.inl ⟨f, x, hx, hxr⟩)

end

/-- 0x6060 is 24672. -/
def spelledTwice : List Row :=
  [⟨"0".toList, "0x6060".toList, "0".toList, "1".toList, "uint8".toList⟩,
    ⟨"0".toList, "24672".toList, "0".toList, "2".toList, "uint8".toList⟩]

/-- The table passes. -/
theorem missed_spelling :
    ¬∀ (number : List Char → Option Nat) (uiText : String → String) (isDouble : List Char → Bool) (online : List Int)
      (globalIssues : List String) (rows : List Row),
      FindsConflicts number (rows.map Row.texts) (preflightStartupSdoList uiText isDouble online globalIssues rows) := by
  intro h
  have hpass : (preflightStartupSdoList id (fun _ => false) [] [] spelledTwice).ok = true := by decide +kernel
  refine (h parseNumber id (fun _ => false) [] [] spelledTwice).passed hpass _ (List.mem_cons_self) _
    (List.mem_cons_of_mem _ List.mem_cons_self) ?_
  exact ⟨⟨0, by decide +kernel, by decide +kernel⟩, ⟨24672, by decide +kernel, by decide +kernel⟩,
    ⟨0, by decide +kernel, by decide +kernel⟩, 1, 2, by decide +kernel, by decide +kernel, by decide⟩

end NekoEcat.L4.StartupPreflight
