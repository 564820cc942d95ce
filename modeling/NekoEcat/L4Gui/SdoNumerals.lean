import NekoEcat.L4Gui.SdoValidation

/-!
# The range of a number in the SDO editor

A value of an integer type is a numeral, decimal or in base 16, of any length. What it
denotes is compared with the range of the type in unsigned 64-bit numbers, the sign
apart; a numeral that does not fit into 64 bits is not read as a number at all.

* `parseNumber_unsignedText`: how a numeral is read.
* `unsigned_iff`, `signed_iff`: the check of each kind of type.
* `errors_iff`: an error is reported exactly for what the type cannot hold.
-/
namespace NekoEcat.L4.SdoNumerals
open NekoEcat.QNumber NekoEcat.L4.SdoValidation

/-- What stands in front of the digits. -/
inductive Spelling where
  | decimal | hex | upperHex
  deriving DecidableEq, Repr

def Spelling.base : Spelling → Nat
  | .decimal => 10
  | .hex | .upperHex => 16

def Spelling.start : Spelling → List Char
  | .decimal => []
  | .hex => ['0', 'x']
  | .upperHex => ['0', 'X']

structure Numeral where
  negative : Bool
  spelling : Spelling
  digits : List Char
  nonempty : digits ≠ []
  valid : ∀ c ∈ digits, isDigitOf spelling.base c = true

section
variable (m : Numeral)

def Numeral.unsignedText : List Char := m.spelling.start ++ m.digits

def Numeral.text : List Char := if m.negative then '-' :: m.unsignedText else m.unsignedText

def Numeral.magnitude : Nat := ofDigits m.spelling.base m.digits

/-- The integer that is denoted. -/
def Numeral.value : Int := if m.negative then -m.magnitude else m.magnitude

end

def ValidAddress (index subIndex : List Char) : Prop :=
  (∃ n, parseNumber index = some n ∧ n ≤ 0xffff) ∧ ∃ n, parseNumber subIndex = some n ∧ n ≤ 0xff

def IsSigned : IntType → Prop
  | .signed _ => True
  | .bool | .unsigned _ => False

/-! ## The text -/

section
variable (m : Numeral)

theorem digit_of_mem {c : Char} (h : c ∈ m.unsignedText) : digitVal c < 16 ∨ c = 'x' ∨ c = 'X' := by
  have hdigits : c ∈ m.digits → digitVal c < 16 := by
    intro hc
    have hvalid := isDigitOf_iff.1 (m.valid c hc)
    cases hs : m.spelling <;> rw [hs, Spelling.base] at hvalid <;> omega
  rcases List.mem_append.1 h with hstart | hc
  · cases hs : m.spelling with
    | decimal =>
      rw [hs] at hstart
      exact absurd hstart List.not_mem_nil
    | hex =>
      rw [hs] at hstart
      rcases List.mem_cons.1 hstart with rfl | hx
      · exact .inl (by decide)
      · exact .inr (.inl (List.mem_singleton.1 hx))
    | upperHex =>
      rw [hs] at hstart
      rcases List.mem_cons.1 hstart with rfl | hx
      · exact .inl (by decide)
      · exact .inr (.inr (List.mem_singleton.1 hx))
  · exact .inl (hdigits hc)

theorem trim_unsignedText : trim m.unsignedText = m.unsignedText := by
  apply trim_of_not_space
  intro c hc
  rcases digit_of_mem m hc with hval | rfl | rfl
  · exact not_isSpace_of_digitVal (by omega)
  · rfl
  · rfl

/-- **How a numeral is read.** -/
theorem parseNumber_unsignedText :
    parseNumber m.unsignedText = if m.magnitude < 2 ^ 64 then some m.magnitude else none := by
  have hread : ∀ base, base = m.spelling.base → base ≤ 16 →
      toULongLong base m.digits = if m.magnitude < 2 ^ 64 then some m.magnitude else none := by
    rintro base rfl hbase
    exact toUnsigned_digits hbase m.nonempty m.valid
  rw [parseNumber, trim_unsignedText, Numeral.unsignedText]
  cases hs : m.spelling with
  | decimal =>
    have hvalid := m.valid
    rw [hs] at hvalid
    have hplain : startsWith0x m.digits = false := by
      refine Bool.eq_false_iff.2 fun hx => ?_
      obtain ⟨c, hc, hdigit⟩ := not_isDigitOf_of_startsWith0x hx
      cases hdigit.symm.trans (hvalid c hc)
    rw [Spelling.start, List.nil_append, hplain]
    exact hread 10 (by rw [hs]; rfl) (by decide)
  | hex => exact hread 16 (by rw [hs]; rfl) (by decide)
  | upperHex => exact hread 16 (by rw [hs]; rfl) (by decide)

theorem parseNumber_eq_some_iff {n : Nat} : parseNumber m.unsignedText = some n ↔ m.magnitude = n ∧ n < 2 ^ 64 := by
  rw [parseNumber_unsignedText]
  split
  · rw [Option.some.injEq]
    constructor
    · rintro rfl
      exact ⟨rfl, by assumption⟩
    · exact And.left
  · refine iff_of_false (Option.some_ne_none n).symm ?_
    rintro ⟨rfl, hlt⟩
    contradiction

theorem head_unsignedText : (m.unsignedText.head? == some '-') = false := by
  refine Bool.eq_false_iff.2 fun hminus => ?_
  rcases digit_of_mem m (List.mem_of_head? (beq_iff_eq.1 hminus)) with hval | hx | hx
  · exact absurd hval (by decide)
  · exact absurd hx (by decide)
  · exact absurd hx (by decide)

end

/-! ## The check -/

section
variable {uiText : String → String} {isDouble : List Char → Bool} {m : Numeral} {bits : Nat}

theorem unsigned_iff {ty : List Char} (hb : toInt 10 (ty.drop 4) = some (bits : Int)) (h0 : 0 < bits) (h64 : bits ≤ 64)
    (hsign : m.negative = false) :
    unsignedErrors uiText ty m.text = [] ↔ (IntType.unsigned bits).InRange m.value := by
  have hpow : 2 ^ bits ≤ 2 ^ 64 := Nat.pow_le_pow_right (by decide) h64
  rw [Numeral.text, hsign, if_neg Bool.false_ne_true, unsignedErrors_eq_nil_iff hb h0 h64, Numeral.value, hsign,
    if_neg Bool.false_ne_true]
  constructor
  · rintro ⟨n, hn, hlt⟩
    obtain ⟨rfl, -⟩ := (parseNumber_eq_some_iff m).1 hn
    exact ⟨Int.natCast_nonneg _, by exact_mod_cast hlt⟩
  · rintro ⟨-, hlt⟩
    have hlt : m.magnitude < 2 ^ bits := by exact_mod_cast hlt
    exact ⟨m.magnitude, (parseNumber_eq_some_iff m).2 ⟨rfl, by omega⟩, hlt⟩

theorem signed_iff {ty : List Char} (hb : toInt 10 (ty.drop 3) = some (bits : Int)) (h1 : 1 < bits) (h64 : bits ≤ 64) :
    (signedReport uiText ty m.text).errors = [] ↔ (IntType.signed bits).InRange m.value := by
  have hpow : 2 ^ (bits - 1) < 2 ^ 64 := Nat.pow_lt_pow_right (by decide) (by omega)
  have hpos : 0 < 2 ^ (bits - 1) := Nat.two_pow_pos _
  have hreport : (signedReport uiText ty m.text).errors = [] ↔
      ∃ n, parseNumber m.unsignedText = some n ∧ signedErrors uiText ty m.negative n = [] := by
    have hhead : (m.text.head? == some '-') = m.negative := by
      unfold Numeral.text
      cases m.negative with
      | true => rfl
      | false => exact head_unsignedText m
    have hrest : (if m.negative then m.text.drop 1 else m.text) = m.unsignedText := by
      unfold Numeral.text
      cases m.negative <;> rfl
    unfold signedReport
    simp only [hhead, hrest]
    cases parseNumber m.unsignedText with
    | none => simp
    | some n => simp
  have hcast : ((2 ^ (bits - 1) : Nat) : Int) = 2 ^ (bits - 1) := by push_cast; rfl
  rw [hreport]
  simp only [signedErrors_eq_nil_iff hb h1 h64, parseNumber_eq_some_iff, IntType.InRange, Numeral.value, ← hcast]
  constructor
  · rintro ⟨n, ⟨rfl, -⟩, hn⟩
    cases hneg : m.negative with
    | true =>
      rw [hneg, if_pos rfl] at hn
      rw [if_pos rfl]
      omega
    | false =>
      rw [hneg, if_neg Bool.false_ne_true] at hn
      rw [if_neg Bool.false_ne_true]
      omega
  · intro hrange
    refine ⟨m.magnitude, ⟨rfl, ?_⟩, ?_⟩
    · split at hrange <;> omega
    · cases hneg : m.negative with
      | true =>
        rw [hneg, if_pos rfl] at hrange
        rw [if_pos rfl]
        omega
      | false =>
        rw [hneg, if_neg Bool.false_ne_true] at hrange
        rw [if_neg Bool.false_ne_true]
        omega

theorem value_iff {ty : List Char} {t : IntType} (ht : intType ty = some t) (hbool : t ≠ .bool)
    (hsign : m.negative = true → IsSigned t) :
    (valueReport uiText isDouble ty m.text).errors = [] ↔ t.InRange m.value := by
  have hsigned : ∀ bits : Nat, 1 < bits → bits ≤ 64 → toInt 10 (ty.drop 3) = some (bits : Int) →
      valueReport uiText isDouble ty m.text = signedReport uiText ty m.text →
      ((valueReport uiText isDouble ty m.text).errors = [] ↔ (IntType.signed bits).InRange m.value) :=
    fun bits h1 h2 hb he => he ▸ signed_iff hb h1 h2
  have hunsigned : ∀ bits : Nat, 0 < bits → bits ≤ 64 → m.negative = false → toInt 10 (ty.drop 4) = some (bits : Int) →
      valueReport uiText isDouble ty m.text = ⟨unsignedErrors uiText ty m.text, []⟩ →
      ((valueReport uiText isDouble ty m.text).errors = [] ↔ (IntType.unsigned bits).InRange m.value) :=
    fun bits h1 h2 hneg hb he => he ▸ unsigned_iff hb h1 h2 hneg
  have hplain : ∀ bits, t = .unsigned bits → m.negative = false := by
    rintro bits rfl
    exact Bool.eq_false_iff.2 hsign
  have hcases := intType_cases ht
  simp only [List.mem_cons, Prod.mk.injEq, List.not_mem_nil, or_false] at hcases
  rcases hcases with ⟨-, rfl⟩ | ⟨hty, rfl⟩ | ⟨hty, rfl⟩ | ⟨hty, rfl⟩ | ⟨hty, rfl⟩ | ⟨hty, rfl⟩ | ⟨hty, rfl⟩ |
    ⟨hty, rfl⟩ | ⟨hty, rfl⟩
  · exact absurd rfl hbool
  · exact hsigned 8 (by decide) (by decide) (hty ▸ rfl) (hty ▸ rfl)
  · exact hsigned 16 (by decide) (by decide) (hty ▸ rfl) (hty ▸ rfl)
  · exact hsigned 32 (by decide) (by decide) (hty ▸ rfl) (hty ▸ rfl)
  · exact hsigned 64 (by decide) (by decide) (hty ▸ rfl) (hty ▸ rfl)
  · exact hunsigned 8 (by decide) (by decide) (hplain _ rfl) (hty ▸ rfl) (hty ▸ rfl)
  · exact hunsigned 16 (by decide) (by decide) (hplain _ rfl) (hty ▸ rfl) (hty ▸ rfl)
  · exact hunsigned 32 (by decide) (by decide) (hplain _ rfl) (hty ▸ rfl) (hty ▸ rfl)
  · exact hunsigned 64 (by decide) (by decide) (hplain _ rfl) (hty ▸ rfl) (hty ▸ rfl)

/-- **An error is reported exactly** when the integer lies outside the range of its type. -/
theorem errors_iff {index subIndex value type : List Char} {t : IntType} (ht : intType (normalize type) = some t)
    (hbool : t ≠ .bool) (hsign : m.negative = true → IsSigned t) (haddress : ValidAddress index subIndex)
    (hvalue : trim value = m.text) :
    (validate uiText isDouble index subIndex value type).errors ≠ [] ↔ ¬t.InRange m.value := by
  have hindex : indexErrors uiText index = [] := addressErrors_eq_nil_iff.2 haddress.1
  have hsub : subIndexErrors uiText subIndex = [] := addressErrors_eq_nil_iff.2 haddress.2
  have hne : (trim value).isEmpty = false := by
    have hdigits := m.nonempty
    rw [hvalue, Numeral.text, Numeral.unsignedText]
    split <;> simp [hdigits]
  rw [validate, hne, if_neg Bool.false_ne_true, hindex, hsub, hvalue]
  exact not_congr (value_iff ht hbool hsign)

end

/-- "-0x81" -/
def minus129 : Numeral where
  negative := true
  spelling := .hex
  digits := ['8', '1']
  nonempty := List.cons_ne_nil _ _
  valid := List.all_eq_true.1 (by decide)

/-- It is below the range of `int8`. -/
theorem errors_below : (validate id (fun _ => false) "0x6060".toList "0".toList "-0x81".toList "int8".toList).errors ≠ [] ↔
    ¬(IntType.signed 8).InRange (-129) :=
  errors_iff (m := minus129) (by decide +kernel) (by decide) (fun _ => trivial)
    ⟨⟨0x6060, by decide +kernel, by decide⟩, ⟨0, by decide +kernel, by decide⟩⟩ (by decide +kernel)

end NekoEcat.L4.SdoNumerals
