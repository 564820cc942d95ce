import Mathlib.Tactic.Positivity
import Mathlib.Tactic.Tauto
import NekoEcat.Core.QNumber

/-!
# What the editor checks before an SDO write

`MainWindow::validateSdoAddressAndValue`, with the texts it reports. The
translation of a text and the reading of floating-point numbers are parameters.

* `validate_spec`: what it means that an integer passed.
-/
namespace NekoEcat.L4.SdoValidation
open NekoEcat.QNumber

structure Report where
  errors : List String
  warnings : List String

/-- mirrors apps/ecat-studio/workspaces/MainWindowSdoWrite.cpp:934-948 -/
def parseNumber (text : List Char) : Option Nat :=
  let text := trim text
  if startsWith0x text then toULongLong 16 (text.drop 2) else toULongLong 10 text

def knownTypes : List (List Char) :=
  ["", "bool", "int8", "int16", "int32", "int64", "uint8", "uint16", "uint32", "uint64", "float", "double", "string",
    "octet_string"].map String.toList

/-- `type.trimmed().toLower().replace(' ', "_")` -/
def normalize (type : List Char) : List Char := (lower (trim type)).map fun c => if c = ' ' then '_' else c

section
variable (uiText : String → String) (isDouble : List Char → Bool)

/-- The two address fields differ in their limit and their texts.
mirrors apps/ecat-studio/workspaces/MainWindowSdoWrite.cpp:950-963 -/
def addressErrors (max : Nat) (empty outside : String) (text : List Char) : List String :=
  if (trim text).isEmpty then [uiText empty]
  else
    match parseNumber text with
    | none => [uiText outside]
    | some n => if n > max then [uiText outside] else []

def indexErrors (text : List Char) : List String :=
  addressErrors uiText 0xffff "empty index" "index must be 0x0000..0xffff or decimal 0..65535" text

def subIndexErrors (text : List Char) : List String :=
  addressErrors uiText 0xff "empty subindex" "subindex must be 0x00..0xff or decimal 0..255" text

/-- `uiText(text).arg(type).arg(limit)` -/
def limitError (text : String) (type : List Char) (limit : Int) : String :=
  QString.arg (QString.arg (uiText text) (String.ofList type)) (QString.number limit)

/-- mirrors apps/ecat-studio/workspaces/MainWindowSdoWrite.cpp:986-1000 -/
def unsignedErrors (type value : List Char) : List String :=
  match parseNumber value with
  | none => [uiText "unsigned integer value is not numeric"]
  | some n =>
    match toInt 10 (type.drop 4) with
    | none => []
    | some bits =>
      if 0 < bits ∧ bits < 64 ∧ n > 2 ^ bits.toNat - 1 then
        [limitError uiText "%1 value exceeds range 0..%2" type (2 ^ bits.toNat - 1)]
      else []

/-- The range of a magnitude and its sign.
mirrors apps/ecat-studio/workspaces/MainWindowSdoWrite.cpp:1013-1035 -/
def signedErrors (type : List Char) (negative : Bool) (n : Nat) : List String :=
  match toInt 10 (type.drop 3) with
  | none => []
  | some bits =>
    if 1 < bits ∧ bits ≤ 64 then
      if negative then
        if n > 2 ^ (bits.toNat - 1) then
          [limitError uiText "%1 value is below range minimum %2" type (-(2 ^ (bits.toNat - 1)))]
        else []
      else if n > 2 ^ (bits.toNat - 1) - 1 then
        [limitError uiText "%1 value exceeds range maximum %2" type (2 ^ (bits.toNat - 1) - 1)]
      else []
    else []

/-- mirrors apps/ecat-studio/workspaces/MainWindowSdoWrite.cpp:1002-1040 -/
def signedReport (type value : List Char) : Report :=
  let negative := value.head? == some '-'
  let numericText := if negative then value.drop 1 else value
  match parseNumber numericText with
  | none => ⟨[uiText "signed integer value is not numeric"], []⟩
  | some n =>
    ⟨signedErrors uiText type negative n,
      if negative && startsWith0x numericText then [uiText "negative hexadecimal values depend on device parsing"] else []⟩

/-- The checks of a value that is not empty.
mirrors apps/ecat-studio/workspaces/MainWindowSdoWrite.cpp:981-1050 -/
def valueReport (type value : List Char) : Report :=
  if type = "bool".toList then
    ⟨if (["0", "1", "true", "false", "yes", "no"].map String.toList).contains (lower value) then []
      else [uiText "bool value must be 0/1/true/false"], []⟩
  else if "uint".toList.isPrefixOf type then ⟨unsignedErrors uiText type value, []⟩
  else if "int".toList.isPrefixOf type then signedReport uiText type value
  else if type = "float".toList ∨ type = "double".toList then
    ⟨if isDouble value then [] else [uiText "floating-point value is not numeric"], []⟩
  else if type.isEmpty then ⟨[], [uiText "empty type, runtime will infer or use default behavior"]⟩
  else ⟨[], []⟩

/-- mirrors apps/ecat-studio/workspaces/MainWindowSdoWrite.cpp:921-1053 -/
def validate (index subIndex value type : List Char) : Report :=
  let address := indexErrors uiText index ++ subIndexErrors uiText subIndex
  let unknown := if knownTypes.contains (normalize type) then []
    else [QString.arg (uiText "unknown type %1") (String.ofList type)]
  if (trim value).isEmpty then ⟨address ++ [uiText "empty value"], unknown⟩
  else
    let r := valueReport uiText isDouble (normalize type) (trim value)
    ⟨address ++ r.errors, unknown ++ r.warnings⟩

end

/-! ## What was checked -/

/-- The integer types of the editor. -/
inductive IntType where
  | bool
  | unsigned (bits : Nat)
  | signed (bits : Nat)
  deriving DecidableEq, Repr

def intType (normalized : List Char) : Option IntType :=
  [("bool".toList, .bool), ("int8".toList, .signed 8), ("int16".toList, .signed 16), ("int32".toList, .signed 32),
    ("int64".toList, .signed 64), ("uint8".toList, .unsigned 8), ("uint16".toList, .unsigned 16),
    ("uint32".toList, .unsigned 32), ("uint64".toList, .unsigned 64)].lookup normalized

def IntType.bits : IntType → Nat
  | .bool => 8
  | .unsigned bits => bits
  | .signed bits => bits

/-- The value of a trimmed text that the range of the type is compared with. -/
def checkedValue (value : List Char) : IntType → Option Int
  | .bool =>
    if (["1", "true", "yes"].map String.toList).contains (lower value) then some 1
    else if (["0", "false", "no"].map String.toList).contains (lower value) then some 0
    else none
  | .unsigned _ => (parseNumber value).map fun n : Nat => (n : Int)
  | .signed _ =>
    match value with
    | '-' :: cs => (parseNumber cs).map fun n : Nat => -(n : Int)
    | _ => (parseNumber value).map fun n : Nat => (n : Int)

def IntType.InRange (n : Int) : IntType → Prop
  | .bool => n = 0 ∨ n = 1
  | .unsigned bits => 0 ≤ n ∧ n < 2 ^ bits
  | .signed bits => -(2 ^ (bits - 1)) ≤ n ∧ n < 2 ^ (bits - 1)

/-- The types, one by one. -/
theorem intType_cases {ty : List Char} {t : IntType} (h : intType ty = some t) :
    (ty, t) ∈ [("bool".toList, IntType.bool), ("int8".toList, .signed 8), ("int16".toList, .signed 16),
      ("int32".toList, .signed 32), ("int64".toList, .signed 64), ("uint8".toList, .unsigned 8),
      ("uint16".toList, .unsigned 16), ("uint32".toList, .unsigned 32), ("uint64".toList, .unsigned 64)] := by
  obtain ⟨l₁, l₂, hl, -⟩ := List.lookup_eq_some_iff.1 h
  rw [hl]
  simp

theorem parseNumber_lt {text : List Char} {n : Nat} (h : parseNumber text = some n) : n < 2 ^ 64 := by
  unfold parseNumber toULongLong toUnsigned at h
  dsimp only at h
  split at h
  all_goals
    simp only [Option.filter_eq_some_iff, decide_eq_true_eq] at h
    exact h.2

section
variable {uiText : String → String} {isDouble : List Char → Bool}

theorem addressErrors_eq_nil_iff {max : Nat} {empty outside : String} {text : List Char} :
    addressErrors uiText max empty outside text = [] ↔ ∃ n, parseNumber text = some n ∧ n ≤ max := by
  unfold addressErrors
  split
  · rename_i hempty
    refine iff_of_false (List.cons_ne_nil _ _) ?_
    rintro ⟨n, hn, -⟩
    have hnone : parseNumber text = none := by
      rw [parseNumber, List.isEmpty_iff.1 hempty]
      rfl
    cases hnone.symm.trans hn
  · cases hp : parseNumber text with
    | none => simp
    | some n =>
      simp only [Option.some.injEq, exists_eq_left']
      split
      · exact iff_of_false (List.cons_ne_nil _ _) (by omega)
      · exact iff_of_true rfl (by omega)

theorem unsignedErrors_eq_nil_iff {ty value : List Char} {bits : Nat} (hb : toInt 10 (ty.drop 4) = some (bits : Int))
    (h0 : 0 < bits) (h64 : bits ≤ 64) :
    unsignedErrors uiText ty value = [] ↔ ∃ n, parseNumber value = some n ∧ n < 2 ^ bits := by
  unfold unsignedErrors
  cases hp : parseNumber value with
  | none => simp
  | some n =>
    have hlt := parseNumber_lt hp
    have hpos : 0 < 2 ^ bits := Nat.two_pow_pos bits
    simp only [hb, Int.toNat_natCast, Option.some.injEq, exists_eq_left']
    split
    · rename_i hc
      refine iff_of_false (List.cons_ne_nil _ _) ?_
      omega
    · rename_i hc
      refine iff_of_true rfl ?_
      rcases Nat.lt_or_ge bits 64 with hlt64 | hge
      · omega
      · obtain rfl : bits = 64 := by omega
        exact hlt

theorem unsigned_checked {ty value : List Char} {bits : Nat} (hb : toInt 10 (ty.drop 4) = some (bits : Int))
    (h0 : 0 < bits) (h64 : bits ≤ 64) (h : unsignedErrors uiText ty value = []) :
    ∃ n, checkedValue value (.unsigned bits) = some n ∧ (IntType.unsigned bits).InRange n := by
  obtain ⟨n, hp, hn⟩ := (unsignedErrors_eq_nil_iff hb h0 h64).1 h
  refine ⟨n, by simp [checkedValue, hp], Int.natCast_nonneg n, ?_⟩
  exact_mod_cast hn

theorem signedErrors_eq_nil_iff {ty : List Char} {bits n : Nat} {negative : Bool}
    (hb : toInt 10 (ty.drop 3) = some (bits : Int)) (h1 : 1 < bits) (h64 : bits ≤ 64) :
    signedErrors uiText ty negative n = [] ↔ if negative then n ≤ 2 ^ (bits - 1) else n < 2 ^ (bits - 1) := by
  unfold signedErrors
  simp only [hb, Int.toNat_natCast]
  rw [if_pos (by omega)]
  have hpos : 0 < 2 ^ (bits - 1) := Nat.two_pow_pos _
  cases negative with
  | true =>
    rw [if_pos rfl, if_pos rfl]
    split
    · exact iff_of_false (List.cons_ne_nil _ _) (by omega)
    · exact iff_of_true rfl (by omega)
  | false =>
    rw [if_neg Bool.false_ne_true, if_neg Bool.false_ne_true]
    split
    · exact iff_of_false (List.cons_ne_nil _ _) (by omega)
    · exact iff_of_true rfl (by omega)

theorem checkedValue_of_not_minus {value : List Char} {bits : Nat} (h : ¬ value.head? = some '-') :
    checkedValue value (.signed bits) = (parseNumber value).map fun n : Nat => (n : Int) := by
  cases value with
  | nil => rfl
  | cons c cs =>
    have hc : c ≠ '-' := fun he => h (congrArg some he)
    simp [checkedValue, hc]

theorem signed_checked {ty value : List Char} {bits : Nat} (hb : toInt 10 (ty.drop 3) = some (bits : Int))
    (h1 : 1 < bits) (h64 : bits ≤ 64) (h : (signedReport uiText ty value).errors = []) :
    ∃ n, checkedValue value (.signed bits) = some n ∧ (IntType.signed bits).InRange n := by
  unfold signedReport at h
  dsimp only at h
  by_cases hneg : value.head? = some '-'
  · obtain ⟨cs, rfl⟩ : ∃ cs, value = '-' :: cs := by
      cases value with
      | nil => cases hneg
      | cons c cs =>
        cases hneg
        exact ⟨cs, rfl⟩
    cases hp : parseNumber cs with
    | none => simp [hp] at h
    | some n =>
      rw [show ('-' :: cs).head? = some '-' from rfl, show (some '-' == some '-') = true from rfl, if_pos rfl] at h
      simp only [List.drop_succ_cons, List.drop_zero, hp] at h
      have hn := (signedErrors_eq_nil_iff hb h1 h64).1 h
      rw [if_pos rfl] at hn
      have hn : (n : Int) ≤ 2 ^ (bits - 1) := by exact_mod_cast hn
      have hpos : (0 : Int) < 2 ^ (bits - 1) := by positivity
      exact ⟨-(n : Int), by simp [checkedValue, hp], by omega, by omega⟩
  · have hb' : (value.head? == some '-') = false := by simpa using hneg
    simp only [hb', Bool.false_eq_true, if_false, Bool.false_and] at h
    cases hp : parseNumber value with
    | none => simp [hp] at h
    | some n =>
      rw [hp] at h
      have hn := (signedErrors_eq_nil_iff hb h1 h64).1 h
      rw [if_neg Bool.false_ne_true] at hn
      have hn : (n : Int) < 2 ^ (bits - 1) := by exact_mod_cast hn
      have hpos : (0 : Int) < 2 ^ (bits - 1) := by positivity
      refine ⟨n, ?_, by omega, by omega⟩
      rw [checkedValue_of_not_minus hneg, hp]
      rfl

theorem bool_checked {ty value : List Char} (hty : ty = "bool".toList)
    (h : (valueReport uiText isDouble ty value).errors = []) :
    ∃ n, checkedValue value .bool = some n ∧ IntType.bool.InRange n := by
  unfold valueReport at h
  rw [if_pos hty] at h
  dsimp only at h
  split at h
  · rename_i hc
    have hmem : lower value ∈ ["1", "true", "yes"].map String.toList ∨ lower value ∈ ["0", "false", "no"].map String.toList := by
      simp only [List.contains_iff_mem, List.map_cons, List.map_nil, List.mem_cons, List.not_mem_nil, or_false] at hc ⊢
      tauto
    unfold checkedValue
    by_cases h1 : (["1", "true", "yes"].map String.toList).contains (lower value) = true
    · exact ⟨1, if_pos h1, .inr rfl⟩
    · have h0 : (["0", "false", "no"].map String.toList).contains (lower value) = true := by
        rw [List.contains_iff_mem] at h1 ⊢
        exact hmem.resolve_left h1
      exact ⟨0, by rw [if_neg h1, if_pos h0], .inl rfl⟩
  · cases h

/-- The range check of each integer type. -/
theorem value_checked {ty value : List Char} {t : IntType} (ht : intType ty = some t)
    (h : (valueReport uiText isDouble ty value).errors = []) : ∃ n, checkedValue value t = some n ∧ t.InRange n := by
  have hcases := intType_cases ht
  have hsigned : ∀ bits : Nat, 1 < bits → bits ≤ 64 → toInt 10 (ty.drop 3) = some (bits : Int) →
      valueReport uiText isDouble ty value = signedReport uiText ty value →
      ∃ n, checkedValue value (.signed bits) = some n ∧ (IntType.signed bits).InRange n := fun bits h1 h2 hb he =>
    signed_checked hb h1 h2 (he ▸ h)
  have hunsigned : ∀ bits : Nat, 0 < bits → bits ≤ 64 → toInt 10 (ty.drop 4) = some (bits : Int) →
      valueReport uiText isDouble ty value = ⟨unsignedErrors uiText ty value, []⟩ →
      ∃ n, checkedValue value (.unsigned bits) = some n ∧ (IntType.unsigned bits).InRange n := fun bits h1 h2 hb he =>
    unsigned_checked hb h1 h2 (congrArg Report.errors he ▸ h)
  simp only [List.mem_cons, Prod.mk.injEq, List.not_mem_nil, or_false] at hcases
  rcases hcases with ⟨hty, rfl⟩ | ⟨hty, rfl⟩ | ⟨hty, rfl⟩ | ⟨hty, rfl⟩ | ⟨hty, rfl⟩ | ⟨hty, rfl⟩ | ⟨hty, rfl⟩ |
    ⟨hty, rfl⟩ | ⟨hty, rfl⟩
  · exact bool_checked hty h
  · exact hsigned 8 (by decide) (by decide) (hty ▸ rfl) (hty ▸ rfl)
  · exact hsigned 16 (by decide) (by decide) (hty ▸ rfl) (hty ▸ rfl)
  · exact hsigned 32 (by decide) (by decide) (hty ▸ rfl) (hty ▸ rfl)
  · exact hsigned 64 (by decide) (by decide) (hty ▸ rfl) (hty ▸ rfl)
  · exact hunsigned 8 (by decide) (by decide) (hty ▸ rfl) (hty ▸ rfl)
  · exact hunsigned 16 (by decide) (by decide) (hty ▸ rfl) (hty ▸ rfl)
  · exact hunsigned 32 (by decide) (by decide) (hty ▸ rfl) (hty ▸ rfl)
  · exact hunsigned 64 (by decide) (by decide) (hty ▸ rfl) (hty ▸ rfl)

/-- **An integer that passed**: both addresses are numbers within their limits,
and the value is a number within the range of its type. -/
theorem validate_spec {index subIndex value type : List Char} {t : IntType} (ht : intType (normalize type) = some t)
    (h : (validate uiText isDouble index subIndex value type).errors = []) :
    ∃ idx sub n, parseNumber index = some idx ∧ idx ≤ 0xffff ∧ parseNumber subIndex = some sub ∧ sub ≤ 0xff ∧
      checkedValue (trim value) t = some n ∧ t.InRange n := by
  unfold validate at h
  dsimp only at h
  split at h
  · simp at h
  · simp only [List.append_eq_nil_iff] at h
    obtain ⟨⟨hi, hs⟩, hv⟩ := h
    obtain ⟨idx, hidx, hidx'⟩ := addressErrors_eq_nil_iff.1 hi
    obtain ⟨sub, hsub, hsub'⟩ := addressErrors_eq_nil_iff.1 hs
    obtain ⟨n, hn, hr⟩ := value_checked ht hv
    exact ⟨idx, sub, n, hidx, hidx', hsub, hsub', hn, hr⟩

end

end NekoEcat.L4.SdoValidation
