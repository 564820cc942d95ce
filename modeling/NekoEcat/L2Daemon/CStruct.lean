import NekoEcat.Core.CScan
import NekoEcat.Core.QNumber
import NekoEcat.Core.Regex

/-!
# The discovered configuration (`FreeRunController::buildConfiguration`)

The slave tree is read back from the C source that `ethercat cstruct` prints:
three scans of the whole text collect the entries, the PDOs and the sync
managers, and the numbers printed after `_pdo_entries +` and `_pdos +` join
them. `EC_DIR_INVALID` and `EC_WD_DEFAULT` only initialise fields that the
parser always sets.

* `matchStart_entry`, `matchStart_pdo`, `matchStart_sync`: what each expression
  reads off its own line.
* `pdoRe_empty`: a PDO printed with `NULL` is read by none.
-/
namespace NekoEcat.L2.CStruct
open NekoEcat.Regex NekoEcat.QNumber NekoEcat.CScan

/-- mirrors apps/ecatd/FreeRunController.h:54-59 -/
structure EntrySpec where
  index : UInt16
  subindex : UInt8
  bitLength : UInt8
  name : List Char
  deriving DecidableEq, Repr

/-- mirrors apps/ecatd/FreeRunController.h:62-65 -/
structure PdoSpec where
  index : UInt16
  entries : List EntrySpec
  deriving DecidableEq, Repr

/-- `ec_direction_t` -/
inductive Direction where
  | output
  | input
  deriving DecidableEq, Repr

/-- `ec_watchdog_mode_t` -/
inductive Watchdog where
  | enable
  | disable
  deriving DecidableEq, Repr

/-- mirrors apps/ecatd/FreeRunController.h:68-73 -/
structure SyncSpec where
  index : UInt8
  direction : Direction
  watchdog : Watchdog
  pdos : List PdoSpec
  deriving DecidableEq, Repr

/-- mirrors apps/ecatd/FreeRunController.h:76-82 -/
structure SlaveSpec where
  aliasAddress : UInt16
  position : UInt16
  vendorId : UInt32
  productCode : UInt32
  syncs : List SyncSpec
  deriving DecidableEq, Repr

/-! ## Parsing -/

def space : Re := .many isSpace

def hex : Re := .group (.plus (isDigitOf 16))

def decimal : Re := .group (.plus (isDigitOf 10))

/-- `Vendor ID:\s+0x([0-9a-fA-F]+)`, and the same for the product code. -/
def idRe (label : String) : Re := .seq [.lit label.toList, .plus isSpace, .lit "0x".toList, hex]

/-- mirrors apps/ecatd/FreeRunController.cpp:560 -/
def entryRe : Re :=
  .seq [.lit "\x7b0x".toList, hex, .lit [','], space, .lit "0x".toList, hex, .lit [','], space, decimal, .lit ['}']]

/-- mirrors apps/ecatd/FreeRunController.cpp:583 -/
def pdoRe : Re :=
  .seq [.lit "\x7b0x".toList, hex, .lit [','], space, decimal, .lit [','], space, .lit "slave_".toList,
    .plus (isDigitOf 10), .lit "_pdo_entries".toList, space, .lit ['+'], space, decimal, .lit ['}']]

/-- `slave_\d+_pdos\s*\+\s*(\d+)` -/
def pdosRe : Re :=
  .seq [.lit "slave_".toList, .plus (isDigitOf 10), .lit "_pdos".toList, space, .lit ['+'], space, decimal]

/-- mirrors apps/ecatd/FreeRunController.cpp:597-598 -/
def syncRe : Re :=
  .seq [.lit ['{'], decimal, .lit [','], space, .group (.cat (.lit "EC_DIR_".toList) (.plus Char.isUpper)), .lit [','],
    space, decimal, .lit [','], space, .alt pdosRe (.lit "NULL".toList), .lit [','], space,
    .group (.cat (.lit "EC_WD_".toList) (.plus Char.isUpper)), .lit ['}']]

/-- `m.captured(i)` -/
def captured (g : Groups) (i : Nat) : List Char := (g.getD (i - 1) none).getD []

/-- `text.mid(from, to - from)`, both given by the texts behind them; a negative
length means the whole rest. -/
def mid (start stop : List Char) : List Char :=
  if start.length < stop.length then start else start.take (start.length - stop.length)

/-- `nextLine < 0 || commentStart < nextLine` -/
def sameLine (rest commentStart : List Char) : Bool :=
  match strstr ['\n'] rest with
  | none => true
  | some nextLine => decide (nextLine.length < commentStart.length)

/-- The comment behind a match on the same line.
mirrors apps/ecatd/FreeRunController.cpp:564-572 -/
def commentName (rest : List Char) : List Char :=
  match strstr ['/', '*'] rest with
  | none => []
  | some commentStart =>
    if sameLine rest commentStart then
      match strstr ['*', '/'] commentStart with
      | none => []
      | some commentEnd => trim (mid (commentStart.drop 2) commentEnd)
    else []

/-- mirrors apps/ecatd/FreeRunController.cpp:573-578 -/
def entrySpec (m : Groups × List Char) : EntrySpec where
  index := UInt16.ofNat ((toUShort 16 (captured m.1 1)).getD 0)
  subindex := UInt8.ofNat ((toUShort 16 (captured m.1 2)).getD 0)
  bitLength := UInt8.ofNat ((toUShort 10 (captured m.1 3)).getD 0)
  name := commentName m.2

/-- The `count` elements from `start` on, as far as they exist. -/
def range {α : Type} (all : List α) (start count : List Char) : List α :=
  (all.drop ((toInt 10 start).getD 0).toNat).take ((toInt 10 count).getD 0).toNat

/-- mirrors apps/ecatd/FreeRunController.cpp:586-594 -/
def pdoSpec (allEntries : List EntrySpec) (m : Groups × List Char) : PdoSpec where
  index := UInt16.ofNat ((toUShort 16 (captured m.1 1)).getD 0)
  entries := range allEntries (captured m.1 3) (captured m.1 2)

/-- mirrors apps/ecatd/FreeRunController.cpp:601-611 -/
def syncSpec (allPdos : List PdoSpec) (m : Groups × List Char) : SyncSpec where
  index := UInt8.ofNat ((toUShort 10 (captured m.1 1)).getD 0)
  direction := if captured m.1 2 = "EC_DIR_OUTPUT".toList then .output else .input
  watchdog := if captured m.1 5 = "EC_WD_ENABLE".toList then .enable else .disable
  pdos :=
    if (captured m.1 4).isEmpty then allPdos.take ((toInt 10 (captured m.1 3)).getD 0).toNat
    else range allPdos (captured m.1 4) (captured m.1 3)

/-- mirrors apps/ecatd/FreeRunController.cpp:543-620 -/
def parseCStruct (position : UInt16) (text : List Char) : Except String SlaveSpec :=
  match firstMatch (idRe "Vendor ID:") text, firstMatch (idRe "Product code:") text with
  | some vendor, some product =>
    let allEntries := (globalMatch entryRe text).map entrySpec
    let allPdos := (globalMatch pdoRe text).map (pdoSpec allEntries)
    let syncs := (globalMatch syncRe text).map (syncSpec allPdos)
    if syncs.isEmpty then
      .error ("No PDO sync information found for slave " ++ QString.number position.toNat ++ ".")
    else
      .ok {
        aliasAddress := 0
        position := position
        vendorId := UInt32.ofNat ((toUInt 16 (captured vendor 1)).getD 0)
        productCode := UInt32.ofNat ((toUInt 16 (captured product 1)).getD 0)
        syncs := syncs }
  | _, _ =>
    .error ("Failed to parse vendor/product from cstruct for slave " ++ QString.number position.toNat ++ ".")

/-! ## The printed form -/

/-- A hexadecimal field of at least `w` digits. -/
def hexField (w n : Nat) : List Char :=
  List.replicate (w - (Nat.toDigits 16 n).length) '0' ++ Nat.toDigits 16 n

def dec (n : Nat) : List Char := Nat.toDigits 10 n

def comment (name : List Char) : List Char :=
  if name.isEmpty then [] else [' ', '/', '*'] ++ (' ' :: name ++ [' ']) ++ ['*', '/']

def entryText (e : EntrySpec) : List Char :=
  "\x7b0x".toList ++ hexField 4 e.index.toNat ++ ", 0x".toList ++ hexField 2 e.subindex.toNat ++ ", ".toList ++
    dec e.bitLength.toNat ++ ['}']

def entryLine (e : EntrySpec) : List Char :=
  "    ".toList ++ entryText e ++ [','] ++ comment e.name ++ ['\n']

/-- `slave_N_` -/
def prefixed (number : Nat) (array : String) : List Char := "slave_".toList ++ dec number ++ array.toList

-- by hand, as deriving it evaluates the literal
theorem prefixed_eq (number : Nat) (array : String) :
    prefixed number array = "slave_".toList ++ dec number ++ array.toList := by
  delta prefixed
  rfl

/-- `slave_N_<array> + START`, or `NULL` -/
def pointer (number : Nat) (array : String) (start count : Nat) : List Char :=
  if count = 0 then "NULL".toList else prefixed number array ++ " + ".toList ++ dec start

def pdoText (number start : Nat) (p : PdoSpec) : List Char :=
  "\x7b0x".toList ++ hexField 4 p.index.toNat ++ ", ".toList ++ dec p.entries.length ++ ", ".toList ++
    pointer number "_pdo_entries" start p.entries.length ++ ['}']

def pdoLine (number start : Nat) (p : PdoSpec) : List Char := "    ".toList ++ pdoText number start p ++ ",\n".toList

def Direction.text : Direction → List Char
  | .output => "EC_DIR_OUTPUT".toList
  | .input => "EC_DIR_INPUT".toList

def Watchdog.text : Watchdog → List Char
  | .enable => "EC_WD_ENABLE".toList
  | .disable => "EC_WD_DISABLE".toList

def syncText (number start : Nat) (s : SyncSpec) : List Char :=
  ['{'] ++ dec s.index.toNat ++ ", ".toList ++ s.direction.text ++ ", ".toList ++ dec s.pdos.length ++ ", ".toList ++
    pointer number "_pdos" start s.pdos.length ++ ", ".toList ++ s.watchdog.text ++ ['}']

def syncLine (number start : Nat) (s : SyncSpec) : List Char :=
  "    ".toList ++ syncText number start s ++ ",\n".toList

/-- The lines of the PDOs, each with the number of entries before it. -/
def pdoLines (number : Nat) : Nat → List PdoSpec → List Char
  | _, [] => []
  | start, p :: ps => pdoLine number start p ++ pdoLines number (start + p.entries.length) ps

/-- The lines of the sync managers, each with the number of PDOs before it. -/
def syncLines (number : Nat) : Nat → List SyncSpec → List Char
  | _, [] => []
  | start, s :: ss => syncLine number start s ++ syncLines number (start + s.pdos.length) ss

def array (type : String) (number : Nat) (name : String) (body : List Char) : List Char :=
  if body.isEmpty then []
  else type.toList ++ [' '] ++ prefixed number name ++ "[] = \x7b\n".toList ++ body ++ "\x7d;\n\n".toList

def allPdos (slave : SlaveSpec) : List PdoSpec := slave.syncs.flatMap (·.pdos)

def allEntries (slave : SlaveSpec) : List EntrySpec := (allPdos slave).flatMap (·.entries)

/-- The head comment, without the name of the device. -/
def headComment (master number : Nat) (slave : SlaveSpec) : List Char :=
  "/* Master ".toList ++ dec master ++ ", Slave ".toList ++ dec number ++ "\n * Vendor ID:       0x".toList ++
    hexField 8 slave.vendorId.toNat ++ "\n * Product code:    0x".toList ++ hexField 8 slave.productCode.toNat ++
    "\n */\n\n".toList

/-- What `ethercat cstruct` prints for a slave. -/
def cstruct (master number : Nat) (slave : SlaveSpec) : List Char :=
  headComment master number slave ++
    (array "ec_pdo_entry_info_t" number "_pdo_entries" ((allEntries slave).flatMap entryLine) ++
    (array "ec_pdo_info_t" number "_pdos" (pdoLines number 0 (allPdos slave)) ++
    array "ec_sync_info_t" number "_syncs"
      (if slave.syncs.isEmpty then [] else syncLines number 0 slave.syncs ++ "    \x7b0xff\x7d\n".toList)))

/-! ## Numbers -/

theorem hexField_ne_nil (w n : Nat) : hexField w n ≠ [] := by
  simp [hexField, Nat.toDigits_ne_nil]

theorem isDigitOf_hexField {w n : Nat} : ∀ c ∈ hexField w n, isDigitOf 16 c = true := by
  intro c hc
  rcases List.mem_append.1 hc with hc | hc
  · rw [List.eq_of_mem_replicate hc]; decide
  · exact isDigitOf_toDigits (by decide) (by decide) c hc

theorem ofDigits_hexField (w n : Nat) : ofDigits 16 (hexField w n) = n := by
  rw [hexField, ofDigits_zeros, ofDigits_toDigits (by decide) (by decide)]

theorem toUnsigned_hexField {w k n : Nat} (h : n < 2 ^ w) : toUnsigned w 16 (hexField k n) = some n := by
  rw [toUnsigned_digits (by decide) (hexField_ne_nil k n) isDigitOf_hexField, ofDigits_hexField, if_pos h]

theorem isDigitOf_dec {n : Nat} : ∀ c ∈ dec n, isDigitOf 10 c = true := isDigitOf_toDigits (by decide) (by decide)

theorem dec_ne_nil (n : Nat) : dec n ≠ [] := Nat.toDigits_ne_nil

theorem toUnsigned_dec {w n : Nat} (h : n < 2 ^ w) : toUnsigned w 10 (dec n) = some n := by
  rw [toUnsigned_digits (by decide) (dec_ne_nil n) isDigitOf_dec, dec, ofDigits_toDigits (by decide) (by decide),
    if_pos h]

theorem toInt_dec {n : Nat} (h : n < 2 ^ 31) : toInt 10 (dec n) = some (n : Int) := by
  rw [toInt, toSigned_digits (by decide) (dec_ne_nil n) isDigitOf_dec, dec, ofDigits_toDigits (by decide) (by decide),
    if_pos h]

theorem ne_of_class {p : Char → Bool} {c x : Char} (hc : p c = true) (hx : p x = false) : c ≠ x := by
  rintro rfl
  rw [hc] at hx
  cases hx

/-- A class before a literal. -/
theorem rejects_lit {p : Char → Bool} {x : Char} {text : List Char} {r : Re} (hx : p x = false) (c : Char)
    (hc : p c = true) : (Re.cat (.lit (x :: text)) r).rejects c = true := by
  simp [Re.rejects, ne_of_class hc hx]

theorem not_digit_of_space {base : Nat} (hb : base ≤ 36) {c : Char} (hc : isSpace c = true) :
    isDigitOf base c = false := by
  cases hd : isDigitOf base c with
  | false => rfl
  | true =>
    have hr := range_of_digitVal (Nat.lt_of_lt_of_le (isDigitOf_iff.1 hd) hb)
    simp only [isSpace, Bool.or_eq_true, beq_iff_eq, Bool.and_eq_true, decide_eq_true_eq] at hc
    rcases hc with rfl | hc
    · exact absurd hr.1 (by decide)
    · omega

/-! ## The expressions on the printed pieces -/

section
variable {β : Type} {r : Re} {s : List Char} {g : Groups} {k : Cont β}

theorem run_hex {w n : Nat} (hs : Stops (isDigitOf 16) s) (hr : ∀ c, isDigitOf 16 c = true → r.rejects c = true) :
    run (.cat hex r) (hexField w n ++ s) g k = run r s (g ++ [some (hexField w n)]) k :=
  run_group_cat isDigitOf_hexField hs hr (hexField_ne_nil w n)

theorem run_decimal {n : Nat} (hs : Stops (isDigitOf 10) s) (hr : ∀ c, isDigitOf 10 c = true → r.rejects c = true) :
    run (.cat decimal r) (dec n ++ s) g k = run r s (g ++ [some (dec n)]) k :=
  run_group_cat isDigitOf_dec hs hr (dec_ne_nil n)

theorem run_space (hs : Stops isSpace s) (hr : ∀ c, isSpace c = true → r.rejects c = true) :
    run (.cat space r) (' ' :: s) g k = run r s g k :=
  run_many_cat (a := [' ']) (List.all_eq_true.1 (by decide)) hs hr

theorem stops_dec {n : Nat} : Stops isSpace (dec n ++ s) := by
  refine stops_append (dec_ne_nil n) ?_ s
  intro c hc
  cases hsp : isSpace c with
  | false => rfl
  | true =>
    have := not_digit_of_space (by decide : 10 ≤ 36) hsp
    rw [isDigitOf_dec c hc] at this
    cases this

theorem rejects_decimal (c : Char) (hc : isSpace c = true) : (Re.cat decimal r).rejects c = true := by
  have := not_digit_of_space (by decide : 10 ≤ 36) hc
  simp [Re.rejects, decimal, Re.plus, this]

end

theorem matchStart_entry (e : EntrySpec) (b : List Char) :
    matchStart entryRe (entryText e ++ b) =
      some ([some (hexField 4 e.index.toNat), some (hexField 2 e.subindex.toNat), some (dec e.bitLength.toNat)], b) := by
  have hre : entryRe = .cat (.lit ['{', '0', 'x']) (.cat hex (.cat (.lit [',']) (.cat space (.cat (.lit ['0', 'x'])
    (.cat hex (.cat (.lit [',']) (.cat space (.cat decimal (.cat (.lit ['}']) (.lit [])))))))))) := rfl
  have ht : entryText e ++ b = '{' :: '0' :: 'x' :: (hexField 4 e.index.toNat ++ ',' :: ' ' :: '0' :: 'x' ::
      (hexField 2 e.subindex.toNat ++ ',' :: ' ' :: (dec e.bitLength.toNat ++ '}' :: b))) := by
    unfold entryText
    simp
  rw [hre, ht, matchStart]
  simp only [run_lit_same, run_nil_cat]
  rw [run_hex (stops_cons (by decide) _) (rejects_lit (by decide))]
  simp only [run_lit_same, run_nil_cat]
  rw [run_space (stops_cons (by decide) _) (rejects_lit (by decide))]
  simp only [run_lit_same, run_nil_cat]
  rw [run_hex (stops_cons (by decide) _) (rejects_lit (by decide))]
  simp only [run_lit_same, run_nil_cat]
  rw [run_space stops_dec rejects_decimal, run_decimal (stops_cons (by decide) _) (rejects_lit (by decide))]
  simp only [run_lit_same, run_nil_cat, run_nil]
  rfl

/-- A decimal number does not start with `0x`. -/
theorem run_0x_dec {β : Type} {text : List Char} {r : Re} {n : Nat} {c : Char} (hc : c ≠ 'x') (s : List Char) (g : Groups)
    (k : Cont β) : run (.cat (.lit ('0' :: 'x' :: text)) r) (dec n ++ c :: s) g k = none := by
  rw [run_cat]
  apply run_lit_ne
  intro h
  cases hd : dec n with
  | nil => exact absurd hd (dec_ne_nil n)
  | cons d ds =>
    rw [hd] at h
    obtain ⟨-, h⟩ := List.cons_prefix_cons.1 h
    cases ds with
    | nil => exact hc (List.cons_prefix_cons.1 h).1.symm
    | cons d' ds =>
      have hx : 'x' = d' := (List.cons_prefix_cons.1 h).1
      have hdig := isDigitOf_dec (n := n) d' (by rw [hd]; simp)
      rw [← hx] at hdig
      exact absurd hdig (by decide)

/-- After `{0x` and a hexadecimal field only `entryRe` and `pdoRe` go on. -/
theorem syncRe_brace_hex (s : List Char) : matchStart syncRe ('{' :: '0' :: 'x' :: s) = none := by
  have hre : syncRe = .cat (.lit ['{']) (.cat decimal (.cat (.lit [',']) (.seq (space :: _)))) := rfl
  have ht : '0' :: 'x' :: s = dec 0 ++ 'x' :: s := rfl
  rw [hre, matchStart, run_lit_same, run_nil_cat, ht, run_decimal (stops_cons (by decide) _) (rejects_lit (by decide))]
  exact run_rejects (by decide) _ _ _

theorem pdoRe_entry (e : EntrySpec) (b : List Char) : matchStart pdoRe (entryText e ++ b) = none := by
  have hre : pdoRe = .cat (.lit ['{', '0', 'x']) (.cat hex (.cat (.lit [',']) (.cat space (.cat decimal
    (.cat (.lit [',']) (.seq (space :: _))))))) := rfl
  have ht : entryText e ++ b = '{' :: '0' :: 'x' :: (hexField 4 e.index.toNat ++ ',' :: ' ' :: (dec 0 ++ 'x' ::
      (hexField 2 e.subindex.toNat ++ ',' :: ' ' :: (dec e.bitLength.toNat ++ '}' :: b)))) := by
    unfold entryText
    simp [dec, Nat.toDigits_zero]
  rw [hre, ht, matchStart]
  simp only [run_lit_same, run_nil_cat]
  rw [run_hex (stops_cons (by decide) _) (rejects_lit (by decide))]
  simp only [run_lit_same, run_nil_cat]
  rw [run_space stops_dec rejects_decimal, run_decimal (stops_cons (by decide) _) (rejects_lit (by decide))]
  exact run_rejects (by decide) _ _ _

theorem syncRe_entry (e : EntrySpec) (b : List Char) : matchStart syncRe (entryText e ++ b) = none := by
  unfold entryText
  simp only [List.append_assoc]
  exact syncRe_brace_hex _

theorem pdoText_append (number start : Nat) (p : PdoSpec) (b : List Char) :
    pdoText number start p ++ b = '{' :: '0' :: 'x' :: (hexField 4 p.index.toNat ++ ',' :: ' ' ::
      (dec p.entries.length ++ ',' :: ' ' :: (pointer number "_pdo_entries" start p.entries.length ++ '}' :: b))) := by
  unfold pdoText
  simp

theorem pointer_append {count : Nat} (hc : count ≠ 0) (number : Nat) (array : String) (start : Nat) (b : List Char) :
    pointer number array start count ++ b = 's' :: 'l' :: 'a' :: 'v' :: 'e' :: '_' :: (dec number ++
      (array.toList ++ ' ' :: '+' :: ' ' :: (dec start ++ b))) := by
  rw [pointer, if_neg hc, prefixed_eq]
  simp

theorem entryRe_pdo (number start : Nat) (p : PdoSpec) (b : List Char) :
    matchStart entryRe (pdoText number start p ++ b) = none := by
  have hre : entryRe = .cat (.lit ['{', '0', 'x']) (.cat hex (.cat (.lit [',']) (.cat space (.cat (.lit ['0', 'x'])
    (.seq (hex :: _)))))) := rfl
  rw [hre, pdoText_append, matchStart]
  simp only [run_lit_same, run_nil_cat]
  rw [run_hex (stops_cons (by decide) _) (rejects_lit (by decide))]
  simp only [run_lit_same, run_nil_cat]
  rw [run_space stops_dec (rejects_lit (by decide)), run_0x_dec (by decide)]

theorem syncRe_pdo (number start : Nat) (p : PdoSpec) (b : List Char) :
    matchStart syncRe (pdoText number start p ++ b) = none := by
  unfold pdoText
  simp only [List.append_assoc]
  exact syncRe_brace_hex _

/-- A PDO without entries is not found. -/
theorem pdoRe_empty (number start : Nat) {p : PdoSpec} (hp : p.entries = []) (b : List Char) :
    matchStart pdoRe (pdoText number start p ++ b) = none := by
  have hre : pdoRe = .cat (.lit ['{', '0', 'x']) (.cat hex (.cat (.lit [',']) (.cat space (.cat decimal
    (.cat (.lit [',']) (.cat space (.cat (.lit ['s', 'l', 'a', 'v', 'e', '_'])
      (.seq (.plus (isDigitOf 10) :: _))))))))) := rfl
  have ht : pdoText number start p ++ b = '{' :: '0' :: 'x' :: (hexField 4 p.index.toNat ++ ',' :: ' ' ::
      (dec 0 ++ ',' :: ' ' :: 'N' :: ("ULL\x7d".toList ++ b))) := by
    rw [pdoText_append, hp]
    rfl
  rw [hre, ht, matchStart]
  simp only [run_lit_same, run_nil_cat]
  rw [run_hex (stops_cons (by decide) _) (rejects_lit (by decide))]
  simp only [run_lit_same, run_nil_cat]
  rw [run_space stops_dec rejects_decimal, run_decimal (stops_cons (by decide) _) (rejects_lit (by decide))]
  simp only [run_lit_same, run_nil_cat]
  rw [run_space (stops_cons (by decide) _) (rejects_lit (by decide))]
  exact run_rejects (by decide) _ _ _

theorem matchStart_pdo (number start : Nat) {p : PdoSpec} (hp : p.entries ≠ []) (b : List Char) :
    matchStart pdoRe (pdoText number start p ++ b) =
      some ([some (hexField 4 p.index.toNat), some (dec p.entries.length), some (dec start)], b) := by
  have hre : pdoRe = .cat (.lit ['{', '0', 'x']) (.cat hex (.cat (.lit [',']) (.cat space (.cat decimal
    (.cat (.lit [',']) (.cat space (.cat (.lit ['s', 'l', 'a', 'v', 'e', '_']) (.cat (.plus (isDigitOf 10))
      (.cat (.lit ['_', 'p', 'd', 'o', '_', 'e', 'n', 't', 'r', 'i', 'e', 's']) (.cat space (.cat (.lit ['+'])
        (.cat space (.cat decimal (.cat (.lit ['}']) (.lit []))))))))))))))) := rfl
  have hc : p.entries.length ≠ 0 := by simpa using hp
  have ht : pdoText number start p ++ b = '{' :: '0' :: 'x' :: (hexField 4 p.index.toNat ++ ',' :: ' ' ::
      (dec p.entries.length ++ ',' :: ' ' :: 's' :: 'l' :: 'a' :: 'v' :: 'e' :: '_' :: (dec number ++
        '_' :: 'p' :: 'd' :: 'o' :: '_' :: 'e' :: 'n' :: 't' :: 'r' :: 'i' :: 'e' :: 's' :: ' ' :: '+' :: ' ' ::
          (dec start ++ '}' :: b)))) := by
    rw [pdoText_append, pointer_append hc]
    rfl
  rw [hre, ht, matchStart]
  simp only [run_lit_same, run_nil_cat]
  rw [run_hex (stops_cons (by decide) _) (rejects_lit (by decide))]
  simp only [run_lit_same, run_nil_cat]
  rw [run_space stops_dec rejects_decimal, run_decimal (stops_cons (by decide) _) (rejects_lit (by decide))]
  simp only [run_lit_same, run_nil_cat]
  rw [run_space (stops_cons (by decide) _) (rejects_lit (by decide))]
  simp only [run_lit_same, run_nil_cat]
  rw [run_plus_cat isDigitOf_dec (stops_cons (by decide) _) (rejects_lit (by decide)) (dec_ne_nil number)]
  simp only [run_lit_same, run_nil_cat]
  rw [run_space (stops_cons (by decide) _) (rejects_lit (by decide))]
  simp only [run_lit_same, run_nil_cat]
  rw [run_space stops_dec rejects_decimal, run_decimal (stops_cons (by decide) _) (rejects_lit (by decide))]
  simp only [run_lit_same, run_nil_cat, run_nil]
  rfl

theorem syncText_append (number start : Nat) (s : SyncSpec) (b : List Char) :
    syncText number start s ++ b = '{' :: (dec s.index.toNat ++ ',' :: ' ' :: (s.direction.text ++ ',' :: ' ' ::
      (dec s.pdos.length ++ ',' :: ' ' :: (pointer number "_pdos" start s.pdos.length ++ ',' :: ' ' ::
        (s.watchdog.text ++ '}' :: b))))) := by
  unfold syncText
  simp

/-- A sync manager starts with its number, not with `0x`. -/
theorem not_0x_sync {r : Re} (number start : Nat) (s : SyncSpec) (b : List Char) :
    matchStart (.cat (.lit ['{', '0', 'x']) r) (syncText number start s ++ b) = none := by
  rw [syncText_append, matchStart, run_lit_same, run_0x_dec (by decide)]

theorem entryRe_sync (number start : Nat) (s : SyncSpec) (b : List Char) :
    matchStart entryRe (syncText number start s ++ b) = none := not_0x_sync number start s b

theorem pdoRe_sync (number start : Nat) (s : SyncSpec) (b : List Char) :
    matchStart pdoRe (syncText number start s ++ b) = none := not_0x_sync number start s b

section
variable {β : Type} {r : Re} {b : List Char} {g : Groups} {k : Cont β} {x : Char} (hx : x.isUpper = false)
  (hr : ∀ c, c.isUpper = true → r.rejects c = true)
include hx hr

theorem run_direction (d : Direction) :
    run (.cat (.group (.cat (.lit "EC_DIR_".toList) (.plus Char.isUpper))) r) (d.text ++ x :: b) g k =
      run r (x :: b) (g ++ [some d.text]) k := by
  cases d with
  | output =>
    have ht : Direction.output.text = "EC_DIR_".toList ++ "OUTPUT".toList := rfl
    rw [ht, run_word_cat (List.all_eq_true.1 (by decide)) (stops_cons hx b) hr (by decide)]
  | input =>
    have ht : Direction.input.text = "EC_DIR_".toList ++ "INPUT".toList := rfl
    rw [ht, run_word_cat (List.all_eq_true.1 (by decide)) (stops_cons hx b) hr (by decide)]

theorem run_watchdog (w : Watchdog) :
    run (.cat (.group (.cat (.lit "EC_WD_".toList) (.plus Char.isUpper))) r) (w.text ++ x :: b) g k =
      run r (x :: b) (g ++ [some w.text]) k := by
  cases w with
  | enable =>
    have ht : Watchdog.enable.text = "EC_WD_".toList ++ "ENABLE".toList := rfl
    rw [ht, run_word_cat (List.all_eq_true.1 (by decide)) (stops_cons hx b) hr (by decide)]
  | disable =>
    have ht : Watchdog.disable.text = "EC_WD_".toList ++ "DISABLE".toList := rfl
    rw [ht, run_word_cat (List.all_eq_true.1 (by decide)) (stops_cons hx b) hr (by decide)]

end

/-- What the fourth group captures. -/
def pointerGroup (start count : Nat) : Option (List Char) := if count = 0 then none else some (dec start)

theorem run_pointer {β : Type} {r : Re} (hr : ∀ c, isDigitOf 10 c = true → r.rejects c = true) (number start count : Nat)
    (b : List Char) (g : Groups) (k : Cont β) :
    run (.cat (.alt pdosRe (.lit "NULL".toList)) r) (pointer number "_pdos" start count ++ ',' :: b) g k =
      run r (',' :: b) (g ++ [pointerGroup start count]) k := by
  have hp : pdosRe = .cat (.lit ['s', 'l', 'a', 'v', 'e', '_']) (.cat (.plus (isDigitOf 10))
    (.cat (.lit ['_', 'p', 'd', 'o', 's']) (.cat space (.cat (.lit ['+']) (.cat space (.cat decimal (.lit []))))))) := rfl
  rw [run_cat, run]
  by_cases hc : count = 0
  · have hn : ∀ K : Cont β, run pdosRe ('N' :: ("ULL".toList ++ ',' :: b)) g K = none :=
      run_rejects (by decide) _ g
    simp only [pointer, pointerGroup, hc, if_true]
    show (run pdosRe ('N' :: ("ULL".toList ++ ',' :: b)) g _).orElse _ = _
    rw [hn]
    rw [Option.orElse_none, run_lit]
    rfl
  · have ht : pointer number "_pdos" start count ++ ',' :: b = 's' :: 'l' :: 'a' :: 'v' :: 'e' :: '_' :: (dec number ++
        '_' :: 'p' :: 'd' :: 'o' :: 's' :: ' ' :: '+' :: ' ' :: (dec start ++ ',' :: b)) := by
      rw [pointer_append hc]
      rfl
    have hsecond : ∀ g' (K : Cont β), run (.lit "NULL".toList) ('s' :: 'l' :: 'a' :: 'v' :: 'e' :: '_' :: (dec number ++
        '_' :: 'p' :: 'd' :: 'o' :: 's' :: ' ' :: '+' :: ' ' :: (dec start ++ ',' :: b))) g' K = none :=
      fun g' K => run_rejects (by decide) _ g' K
    rw [ht, hsecond, hp]
    simp only [run_lit_same, run_nil_cat]
    rw [run_plus_cat isDigitOf_dec (stops_cons (by decide) _) (rejects_lit (by decide)) (dec_ne_nil number)]
    simp only [run_lit_same, run_nil_cat]
    rw [run_space (stops_cons (by decide) _) (rejects_lit (by decide))]
    simp only [run_lit_same, run_nil_cat]
    rw [run_space stops_dec rejects_decimal, run_cat, decimal,
      run_group_plus (dec_ne_nil start) isDigitOf_dec (stops_cons (by decide) b)]
    · simp only [run_nil, pointerGroup, if_neg hc, Re.groups, List.replicate_zero, List.append_nil]
      cases run r (',' :: b) (g ++ [some (dec start)]) k <;> rfl
    · intro c t g' hd
      rw [run_nil, run_rejects (hr c hd)]

theorem stops_direction (d : Direction) (b : List Char) : Stops isSpace (d.text ++ b) := by
  cases d <;> exact stops_word (by decide) (by decide) b

theorem stops_watchdog (w : Watchdog) (b : List Char) : Stops isSpace (w.text ++ b) := by
  cases w <;> exact stops_word (by decide) (by decide) b

theorem stops_pointer (number start count : Nat) (b : List Char) :
    Stops isSpace (pointer number "_pdos" start count ++ b) := by
  unfold pointer
  split
  · exact stops_word (by decide) (by decide) b
  · simp only [prefixed_eq, List.append_assoc]
    exact stops_word (by decide) (by decide) _

/-- A space does not start a word, nor a pointer. -/
theorem rejects_word {label : List Char} (hl : label.head? = some 'E') {q r : Re} (c : Char) (hc : isSpace c = true) :
    (Re.cat (.group (.cat (.lit label) q)) r).rejects c = true := by
  obtain ⟨t, rfl⟩ := List.head?_eq_some_iff.1 hl
  simp [Re.rejects, ne_of_class (x := 'E') hc (by decide)]

theorem rejects_pointer {r : Re} (c : Char) (hc : isSpace c = true) :
    (Re.cat (.alt pdosRe (.lit "NULL".toList)) r).rejects c = true := by
  show (c != 's' && c != 'N') = true
  simp [ne_of_class (x := 's') hc (by decide), ne_of_class (x := 'N') hc (by decide)]

theorem matchStart_sync (number start : Nat) (s : SyncSpec) (b : List Char) :
    matchStart syncRe (syncText number start s ++ b) =
      some ([some (dec s.index.toNat), some s.direction.text, some (dec s.pdos.length),
        pointerGroup start s.pdos.length, some s.watchdog.text], b) := by
  have hre : syncRe = .cat (.lit ['{']) (.cat decimal (.cat (.lit [',']) (.cat space
    (.cat (.group (.cat (.lit "EC_DIR_".toList) (.plus Char.isUpper))) (.cat (.lit [',']) (.cat space (.cat decimal
      (.cat (.lit [',']) (.cat space (.cat (.alt pdosRe (.lit "NULL".toList)) (.cat (.lit [',']) (.cat space
        (.cat (.group (.cat (.lit "EC_WD_".toList) (.plus Char.isUpper))) (.cat (.lit ['}']) (.lit []))))))))))))))) := rfl
  rw [hre, syncText_append, matchStart]
  simp only [run_lit_same, run_nil_cat]
  rw [run_decimal (stops_cons (by decide) _) (rejects_lit (by decide))]
  simp only [run_lit_same, run_nil_cat]
  rw [run_space (stops_direction _ _) (rejects_word rfl), run_direction (by decide) (rejects_lit (by decide))]
  simp only [run_lit_same, run_nil_cat]
  rw [run_space stops_dec rejects_decimal, run_decimal (stops_cons (by decide) _) (rejects_lit (by decide))]
  simp only [run_lit_same, run_nil_cat]
  rw [run_space (stops_pointer _ _ _ _) rejects_pointer, run_pointer (rejects_lit (by decide))]
  simp only [run_lit_same, run_nil_cat]
  rw [run_space (stops_watchdog _ _) (rejects_word rfl), run_watchdog (by decide) (rejects_lit (by decide))]
  simp only [run_lit_same, run_nil_cat, run_nil]
  rfl

end NekoEcat.L2.CStruct
