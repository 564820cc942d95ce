import NekoEcat.Core.LineRegex
import NekoEcat.Core.QHash
import Mathlib.Data.List.Forall2

/-!
# Change flags of the Free Run table

An update of the Free Run entries compares each row with what was stored under
the row's address texts, and stores the row's values there at once. Rows that
share their address texts, such as the gaps of one PDO, share one place: a row
is compared with the last row of its address before it, of this update or else
of the previous one.

* `changed_eq`: what a row is compared with.
* `flags_iff`: exactly when the flags of an update are right.
* `flags_of_distinct`: they are when no two rows share their address.
-/
namespace NekoEcat.L4.ChangeFlags
open NekoEcat.QHash (lastWith lastWith_concat lastWith_append value_insertAll insertEach)

/-- A row of cells, as `updateFreeRunTelemetry` makes it. -/
abbrev Row := List String

/-- `values.value(i)` -/
def cell (values : Row) (i : Nat) : String := values.getD i ""

/-- `QString("%1|%2|%3|%4|%5|%6").arg(..)` -/
def key (values : Row) : String :=
  cell values 0 ++ "|" ++ cell values 1 ++ "|" ++ cell values 2 ++ "|" ++ cell values 3 ++ "|" ++
    cell values 4 ++ "|" ++ cell values 5

def valueSignature (values : Row) : String := cell values 10 ++ "|" ++ cell values 11

/-- A row of the table: its texts, and the flag under `Qt::UserRole`. -/
structure TableRow where
  texts : List String
  changed : Bool
  deriving DecidableEq, Repr

/-- `freeRunEntryValues_` -/
abbrev EntryValues := QHash String String

def changed (h : EntryValues) (values : Row) : Bool :=
  match h.value (key values) with
  | some stored => stored != valueSignature values
  | none => false

/-- The 15 columns of the table. -/
def texts (values : Row) : List String := (List.range 15).map (cell values)

/-- mirrors apps/ecat-studio/workspaces/MainWindowTopologyUi.cpp:654-694 -/
def updateFreeRunEntryTable (h : EntryValues) : List Row → EntryValues × List TableRow
  | [] => (h, [])
  | values :: rows =>
    let r := updateFreeRunEntryTable (h.insert (key values) (valueSignature values)) rows
    (r.1, ⟨texts values, changed h values⟩ :: r.2)

/-- Raw and decoded value. -/
def shown (values : Row) : String × String := (cell values 10, cell values 11)

/-! ## What a row is compared with -/

theorem stored_eq (h : EntryValues) (rows : List Row) :
    (updateFreeRunEntryTable h rows).1 = insertEach (fun r => some (key r, valueSignature r)) h rows := by
  induction rows generalizing h with
  | nil => rfl
  | cons r rows ih => exact ih _

/-- The place of an address holds the last row stored there. -/
theorem value_stored (h : EntryValues) (rows : List Row) (k : String) :
    (updateFreeRunEntryTable h rows).1.value k = ((lastWith key k rows).map valueSignature).or (h.value k) := by
  rw [stored_eq, value_insertAll]

theorem updateFreeRunEntryTable_getElem? (h : EntryValues) (rows : List Row) (i : Nat) :
    (updateFreeRunEntryTable h rows).2[i]? = rows[i]?.map fun r =>
      ⟨texts r, changed (updateFreeRunEntryTable h (rows.take i)).1 r⟩ := by
  induction rows generalizing h i with
  | nil => rfl
  | cons r rows ih =>
    cases i with
    | zero => rfl
    | succ i => exact ih _ i

/-- The rows of two updates are of the same entries. -/
def SameEntries (old new : List Row) : Prop := List.Forall₂ (fun o n => ∀ c < 6, cell o c = cell n c) old new

theorem key_eq {o n : Row} (h : ∀ c < 6, cell o c = cell n c) : key o = key n := by
  unfold key
  rw [h 0 (by decide), h 1 (by decide), h 2 (by decide), h 3 (by decide), h 4 (by decide), h 5 (by decide)]

/-- The row that the row `i` of the second update is compared with. -/
def comparedWith (old new : List Row) (i : Nat) (n : Row) : Option Row := lastWith key (key n) (old ++ new.take i)

section
variable {old new : List Row}

theorem SameEntries.key (h : SameEntries old new) {i : Nat} {o n : Row} (ho : old[i]? = some o) (hn : new[i]? = some n) :
    ChangeFlags.key o = ChangeFlags.key n := by
  obtain ⟨hi, rfl⟩ := List.getElem?_eq_some_iff.1 ho
  obtain ⟨hi', rfl⟩ := List.getElem?_eq_some_iff.1 hn
  exact key_eq (h.get hi hi')

/-- There is one: the row's own entry was in the previous update. -/
theorem comparedWith_isSome (h : SameEntries old new) {i : Nat} {o n : Row} (ho : old[i]? = some o)
    (hn : new[i]? = some n) : ∃ p, comparedWith old new i n = some p := by
  have hmem : o ∈ (old ++ new.take i).filter fun r => decide (key r = key n) :=
    List.mem_filter.2 ⟨List.mem_append_left _ (List.mem_of_getElem? ho), decide_eq_true (h.key ho hn)⟩
  exact ⟨_, List.getLast?_eq_some_getLast (List.ne_nil_of_mem hmem)⟩

/-- **The comparison.** -/
theorem changed_eq (h₀ : EntryValues) {i : Nat} {n p : Row} (hn : new[i]? = some n)
    (hp : comparedWith old new i n = some p) :
    (updateFreeRunEntryTable (updateFreeRunEntryTable h₀ old).1 new).2[i]? =
      some ⟨texts n, valueSignature p != valueSignature n⟩ := by
  unfold comparedWith at hp
  rw [lastWith_append] at hp
  rw [updateFreeRunEntryTable_getElem?, hn, Option.map_some, changed, value_stored, value_stored, ← Option.or_assoc,
    ← Option.map_or, hp]
  rfl

/-- The second update flags a row exactly when its raw or decoded value is
another one than in the first. -/
def FlagsRight (h₀ : EntryValues) (old new : List Row) : Prop :=
  ∀ (i : Nat) (o n : Row), old[i]? = some o → new[i]? = some n →
    (updateFreeRunEntryTable (updateFreeRunEntryTable h₀ old).1 new).2[i]? =
      some (TableRow.mk (texts n) (decide (shown o ≠ shown n)))

theorem row_right_iff (h₀ : EntryValues) {i : Nat} {n p : Row} (o : Row) (hn : new[i]? = some n)
    (hp : comparedWith old new i n = some p) :
    (updateFreeRunEntryTable (updateFreeRunEntryTable h₀ old).1 new).2[i]? =
        some (TableRow.mk (texts n) (decide (shown o ≠ shown n))) ↔
      (valueSignature p = valueSignature n ↔ shown o = shown n) := by
  rw [changed_eq h₀ hn hp, Option.some_inj, TableRow.mk.injEq, and_iff_right rfl, bne, Bool.eq_iff_iff]
  simp only [Bool.not_eq_true', beq_eq_false_iff_ne, ne_eq, decide_eq_true_eq]
  exact not_iff_not

/-- **Change flags, exactly.** The flags of two updates of the same entries are
right if and only if every row's signature is that of the row it is compared
with exactly when its values are its own of before. -/
theorem flags_iff (h₀ : EntryValues) (hsame : SameEntries old new) :
    FlagsRight h₀ old new ↔
      ∀ (i : Nat) (o n p : Row), old[i]? = some o → new[i]? = some n → comparedWith old new i n = some p →
        (valueSignature p = valueSignature n ↔ shown o = shown n) := by
  constructor
  · intro h i o n p ho hn hp
    exact (row_right_iff h₀ o hn hp).1 (h i o n ho hn)
  · intro h i o n ho hn
    obtain ⟨p, hp⟩ := comparedWith_isSome hsame ho hn
    exact (row_right_iff h₀ o hn hp).2 (h i o n p ho hn hp)

/-! ## Rows of their own address -/

/-- A signature without a bar in the raw value is read in one way. -/
theorem valueSignature_inj {a b : Row} (ha : '|' ∉ (cell a 10).toList) (hb : '|' ∉ (cell b 10).toList) :
    valueSignature a = valueSignature b ↔ shown a = shown b := by
  constructor
  · intro h
    have hsplit : (cell a 10).toList ++ '|' :: (cell a 11).toList = (cell b 10).toList ++ '|' :: (cell b 11).toList := by
      have := congrArg String.toList h
      simpa [valueSignature] using this
    have hplain {s : String} (hs : '|' ∉ s.toList) : ∀ c ∈ s.toList, (c != '|') = true := by
      intro c hc
      rw [bne_iff_ne]
      exact fun he => hs (he ▸ hc)
    have hstop (s : String) : Regex.Stops (· != '|') ('|' :: s.toList) := Regex.stops_cons rfl _
    obtain ⟨hraw, hdecoded⟩ := Regex.append_unique (hplain ha) (hplain hb) (hstop _) (hstop _) hsplit
    exact Prod.ext (String.toList_inj.1 hraw) (String.toList_inj.1 (List.cons.inj hdecoded).2)
  · intro h
    have hraw : cell a 10 = cell b 10 := congrArg Prod.fst h
    have hdecoded : cell a 11 = cell b 11 := congrArg Prod.snd h
    rw [valueSignature, hraw, hdecoded, valueSignature]

theorem SameEntries.keys (h : SameEntries old new) : old.map ChangeFlags.key = new.map ChangeFlags.key := by
  induction h with
  | nil => rfl
  | cons hk _ ih => rw [List.map_cons, List.map_cons, key_eq hk, ih]

/-- A row of its own address is compared with itself. -/
theorem comparedWith_distinct (h : SameEntries old new) (hn : (old.map key).Nodup) {i : Nat} {o n p : Row}
    (ho : old[i]? = some o) (hi : new[i]? = some n) (hp : comparedWith old new i n = some p) : p = o := by
  obtain ⟨hmem, hkey⟩ := List.mem_filter.1 (List.mem_of_getLast? hp)
  have hkey : key p = key n := of_decide_eq_true hkey
  rcases List.mem_append.1 hmem with hold | hnew
  · exact List.inj_on_of_nodup_map hn hold (List.mem_of_getElem? ho) (hkey.trans (h.key ho hi).symm)
  · -- an earlier row of the update with the same address
    obtain ⟨j, hj, hpj⟩ := List.mem_take_iff_getElem.1 hnew
    have hlt : j < new.length := by omega
    rw [h.keys] at hn
    obtain ⟨hi', hni⟩ := List.getElem?_eq_some_iff.1 hi
    have hj' : j < (new.map key).length := by rwa [List.length_map]
    have hi'' : i < (new.map key).length := by rwa [List.length_map]
    have heq : (new.map key)[j] = (new.map key)[i] := by
      rw [List.getElem_map, List.getElem_map, hpj, hni, hkey]
    have := (List.Nodup.getElem_inj_iff hn).1 heq
    omega

/-- **Rows of their own addresses** are flagged rightly. -/
theorem flags_of_distinct (h₀ : EntryValues) (hsame : SameEntries old new) (hn : (old.map key).Nodup)
    (hold : ∀ r ∈ old, '|' ∉ (cell r 10).toList) (hnew : ∀ r ∈ new, '|' ∉ (cell r 10).toList) :
    FlagsRight h₀ old new := by
  intro i o n ho hi
  obtain ⟨p, hp⟩ := comparedWith_isSome hsame ho hi
  obtain rfl := comparedWith_distinct hsame hn ho hi hp
  exact (row_right_iff h₀ p hi hp).2
    (valueSignature_inj (hold p (List.mem_of_getElem? ho)) (hnew n (List.mem_of_getElem? hi)))

end

/-! ## Gaps -/

/-- The row of a gap of 8 bits. -/
def gapRow (raw : String) : Row :=
  ["0", "3", "TxPDO", "0x1a00", "0x0000", "0x00", "8", "0", "0", "TxPDO 0x0000:0x00", raw, raw, "TxPDO", "", ""]

theorem sameEntries_gap (a b : String) : SameEntries [gapRow a] [gapRow b] := by
  refine .cons (fun c hc => ?_) .nil
  obtain rfl | rfl | rfl | rfl | rfl | rfl : c = 0 ∨ c = 1 ∨ c = 2 ∨ c = 3 ∨ c = 4 ∨ c = 5 := by omega
  all_goals rfl

theorem flags_iff_gap : FlagsRight .empty [gapRow "1"] [gapRow "2"] := by
  have hsame := sameEntries_gap "1" "2"
  refine (flags_iff .empty hsame).2 fun i o n p ho hn hp => ?_
  obtain rfl := comparedWith_distinct hsame (List.nodup_singleton _) ho hn hp
  obtain rfl := List.mem_singleton.1 (List.mem_of_getElem? ho)
  obtain rfl := List.mem_singleton.1 (List.mem_of_getElem? hn)
  decide

/-- **Two gaps.** The values of two gaps of one PDO stay what they are, and both
rows are flagged at every update. -/
theorem gaps_flagged :
    (updateFreeRunEntryTable (updateFreeRunEntryTable .empty [gapRow "1", gapRow "2"]).1
        [gapRow "1", gapRow "2"]).2.map (·.changed) = [true, true] ∧
      ¬ FlagsRight .empty [gapRow "1", gapRow "2"] [gapRow "1", gapRow "2"] := by
  refine ⟨by decide +kernel, fun h => ?_⟩
  have hfirst := h 0 _ _ rfl rfl
  have hflag : (updateFreeRunEntryTable (updateFreeRunEntryTable .empty [gapRow "1", gapRow "2"]).1
      [gapRow "1", gapRow "2"]).2[0]?.map (·.changed) = some true := by decide +kernel
  rw [hfirst] at hflag
  simp at hflag

end NekoEcat.L4.ChangeFlags
