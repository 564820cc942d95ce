import Mathlib.Data.List.DropRight
import NekoEcat.Core.Bytes
import NekoEcat.Core.QString

/-!
# Numbers in `QString`s

`QString::toULongLong(&ok, base)` and its narrower and signed forms. The text is
trimmed, may have a sign (`-` only for the signed ones) and, in base 16, a `0x`,
and must then consist of digits of the base. A text that is no number, or one
outside the type, leaves `ok` false: `none`.

* `toUnsigned_digits`, `toSigned_digits`: a run of digits is read as its value.
* `ofDigits_toDigits`: what `QString::number` prints is read back.
* `ofDigits_hex_iff`: which decimal texts are the same number in base 16.
* `toUnsigned_eq_some`, `toSigned_eq_some`: the number that the text writes, if it
  is in range.
* `toUnsigned_hex`, `toUnsigned_ten`: which texts are numbers, by their base.
* `fromHex_eq`: a text of hexadecimal digits as bytes.
* `hexDump_fromHex`: which texts are dumps of bytes.
-/
namespace NekoEcat.QNumber
open NekoEcat.Bytes NekoEcat.QString

/-- `QStringView::trimmed` -/
def trim (cs : List Char) : List Char := ((cs.dropWhile isSpace).reverse.dropWhile isSpace).reverse

/-- The value of a digit or letter; 36 for any other character. -/
def digitVal (c : Char) : Nat :=
  if '0' ≤ c ∧ c ≤ '9' then c.toNat - 48
  else if 'a' ≤ c ∧ c ≤ 'z' then c.toNat - 87
  else if 'A' ≤ c ∧ c ≤ 'Z' then c.toNat - 55
  else 36

def isDigitOf (base : Nat) (c : Char) : Bool := decide (digitVal c < base)

def ofDigits (base : Nat) (cs : List Char) : Nat := cs.foldl (fun n c => base * n + digitVal c) 0

/-- The prefix `strtoull` skips in base 16. -/
def skipPrefix (base : Nat) : List Char → List Char
  | '0' :: c :: cs => if base = 16 ∧ (c = 'x' ∨ c = 'X') then cs else '0' :: c :: cs
  | cs => cs

/-- Digits up to the end of the text. -/
def magnitude (base : Nat) (cs : List Char) : Option Nat :=
  let ds := skipPrefix base cs
  if !ds.isEmpty && ds.all (isDigitOf base) then some (ofDigits base ds) else none

def skipPlus : List Char → List Char
  | '+' :: cs => cs
  | cs => cs

/-- `QString::toULongLong(&ok, base)`, for a type of `w` bits. -/
def toUnsigned (w base : Nat) (cs : List Char) : Option Nat :=
  (magnitude base (skipPlus (trim cs))).filter fun n => decide (n < 2 ^ w)

/-- `QString::toLongLong(&ok, base)`, for a type of `w` bits. -/
def toSigned (w base : Nat) (cs : List Char) : Option Int :=
  match trim cs with
  | '-' :: cs => ((magnitude base cs).filter fun n => decide (n ≤ 2 ^ (w - 1))).map fun n : Nat => -(n : Int)
  | cs => ((magnitude base (skipPlus cs)).filter fun n => decide (n < 2 ^ (w - 1))).map fun n : Nat => (n : Int)

def toULongLong (base : Nat) (cs : List Char) : Option Nat := toUnsigned 64 base cs

def toUInt (base : Nat) (cs : List Char) : Option Nat := toUnsigned 32 base cs

def toUShort (base : Nat) (cs : List Char) : Option Nat := toUnsigned 16 base cs

def toInt (base : Nat) (cs : List Char) : Option Int := toSigned 32 base cs

/-- The natural number that a text writes, of any size. -/
def natural (base : Nat) (cs : List Char) : Option Nat := magnitude base (skipPlus (trim cs))

/-- The integer that a text writes, of any size. -/
def integer (base : Nat) (cs : List Char) : Option Int :=
  match trim cs with
  | '-' :: cs => (magnitude base cs).map fun n : Nat => -(n : Int)
  | cs => (magnitude base (skipPlus cs)).map fun n : Nat => (n : Int)

/-- `startsWith("0x", Qt::CaseInsensitive)` -/
def startsWith0x : List Char → Bool
  | '0' :: c :: _ => c == 'x' || c == 'X'
  | _ => false

/-- `QString::toLower`. Of the characters that are not ASCII only the Kelvin and
Angstrom signs have a lower case of one ASCII letter or one Latin-1 letter;
neither is in a word that is compared with. -/
def lower (cs : List Char) : List Char := cs.map Char.toLower

/-- Two digits a byte, from the last digit on. -/
def pairs : List Char → Bytes
  | [] => []
  | [c] => [UInt8.ofNat (digitVal c)]
  | c :: c' :: cs => UInt8.ofNat (digitVal c + 16 * digitVal c') :: pairs cs

/-- `QByteArray::fromHex`, which skips what is no hexadecimal digit. -/
def fromHex (cs : List Char) : Bytes := (pairs (cs.filter (isDigitOf 16)).reverse).reverse

/-- `QString::number(b, 16).rightJustified(2, '0')` for every byte. -/
def hexDump (bs : Bytes) : List Char :=
  bs.flatMap fun b => [Nat.digitChar (b.toNat / 16), Nat.digitChar (b.toNat % 16)]

/-! ## Digits -/

theorem isDigitOf_iff {base : Nat} {c : Char} : isDigitOf base c = true ↔ digitVal c < base := decide_eq_true_iff

theorem digitVal_digitChar {d : Nat} (h : d < 16) : digitVal d.digitChar = d := by
  revert d; decide

/-- The digits and letters lie between `0` and `z`. -/
theorem range_of_digitVal {c : Char} (h : digitVal c < 36) : 48 ≤ c.toNat ∧ c.toNat ≤ 122 := by
  have hrange : ∀ a b : Char, 48 ≤ a.toNat ∧ b.toNat ≤ 122 → a ≤ c ∧ c ≤ b → 48 ≤ c.toNat ∧ c.toNat ≤ 122 :=
    fun a b hab hc => ⟨Nat.le_trans hab.1 hc.1, Nat.le_trans hc.2 hab.2⟩
  unfold digitVal at h
  split at h
  · exact hrange '0' '9' (by decide) ‹_›
  · split at h
    · exact hrange 'a' 'z' (by decide) ‹_›
    · split at h
      · exact hrange 'A' 'Z' (by decide) ‹_›
      · omega

theorem isDigitOf_mono {b b' : Nat} (h : b ≤ b') {c : Char} (hc : isDigitOf b c = true) : isDigitOf b' c = true :=
  isDigitOf_iff.2 (Nat.lt_of_lt_of_le (isDigitOf_iff.1 hc) h)

theorem ofDigits_append (base : Nat) (a b : List Char) :
    ofDigits base (a ++ b) = b.foldl (fun n c => base * n + digitVal c) (ofDigits base a) :=
  List.foldl_append ..

theorem ofDigits_concat (base : Nat) (a : List Char) (c : Char) :
    ofDigits base (a ++ [c]) = base * ofDigits base a + digitVal c := by
  rw [ofDigits_append]; rfl

theorem ofDigits_zeros (base : Nat) (k : Nat) (cs : List Char) :
    ofDigits base (List.replicate k '0' ++ cs) = ofDigits base cs := by
  induction k with
  | zero => rfl
  | succ k ih =>
    rw [← ih]
    show List.foldl _ (base * 0 + digitVal '0') _ = _
    have h0 : base * 0 + digitVal '0' = 0 := by rw [Nat.mul_zero]; rfl
    rw [h0]
    rfl

theorem ofDigits_toDigits {base : Nat} (hb : 1 < base) (hb' : base ≤ 16) (n : Nat) :
    ofDigits base (Nat.toDigits base n) = n := by
  induction n using Nat.strongRecOn with
  | _ n ih =>
    by_cases h : n < base
    · rw [Nat.toDigits_of_lt_base h]
      show base * 0 + digitVal n.digitChar = n
      rw [digitVal_digitChar (by omega)]
      omega
    · rw [Nat.toDigits_of_base_le hb (Nat.le_of_not_lt h), ofDigits_concat,
        ih _ (Nat.div_lt_self (by omega) hb), digitVal_digitChar (Nat.lt_of_lt_of_le (Nat.mod_lt _ (by omega)) hb'),
        Nat.div_add_mod]

theorem isDigitOf_toDigits {base : Nat} (hb : 1 < base) (hb' : base ≤ 16) {n : Nat} :
    ∀ c ∈ Nat.toDigits base n, isDigitOf base c = true := by
  induction n using Nat.strongRecOn with
  | _ n ih =>
    intro c hc
    by_cases h : n < base
    · rw [Nat.toDigits_of_lt_base h, List.mem_singleton] at hc
      rw [hc, isDigitOf_iff, digitVal_digitChar (by omega)]
      exact h
    · rw [Nat.toDigits_of_base_le hb (Nat.le_of_not_lt h), List.mem_append, List.mem_singleton] at hc
      have hm : n % base < base := Nat.mod_lt _ (by omega)
      rcases hc with hc | rfl
      · exact ih _ (Nat.div_lt_self (by omega) hb) c hc
      · rw [isDigitOf_iff, digitVal_digitChar (by omega)]
        exact hm

/-! ## Reading digits -/

theorem not_isSpace_of_digitVal {c : Char} (h : digitVal c < 36) : isSpace c = false := by
  have hr := range_of_digitVal h
  simp only [isSpace, Bool.or_eq_false_iff, beq_eq_false_iff_ne, Bool.and_eq_false_iff, decide_eq_false_iff_not]
  omega

/-- Nothing is trimmed off a text that starts and ends with something else. -/
theorem trim_of_not_space {cs : List Char} (h : ∀ c ∈ cs, isSpace c = false) : trim cs = cs := by
  have hd : ∀ l : List Char, (∀ c ∈ l, isSpace c = false) → l.dropWhile isSpace = l := by
    intro l hl
    cases l with
    | nil => rfl
    | cons c l => rw [List.dropWhile_cons_of_neg (by simp [hl c List.mem_cons_self])]
  unfold trim
  rw [hd cs h, hd cs.reverse fun c hc => h c (List.mem_reverse.1 hc), List.reverse_reverse]

theorem skipPrefix_of_digits {base : Nat} {cs : List Char} (h : ∀ c ∈ cs, digitVal c < 33) : skipPrefix base cs = cs := by
  unfold skipPrefix
  split
  · rename_i c cs
    split
    · rename_i hx
      have hc := h c (List.mem_cons_of_mem _ List.mem_cons_self)
      rcases hx.2 with rfl | rfl <;> exact absurd hc (by decide)
    · rfl
  · rfl

theorem magnitude_digits {base : Nat} (hb : base ≤ 16) {cs : List Char} (hne : cs ≠ [])
    (h : ∀ c ∈ cs, isDigitOf base c = true) : magnitude base cs = some (ofDigits base cs) := by
  have hs : skipPrefix base cs = cs :=
    skipPrefix_of_digits fun c hc => by have := isDigitOf_iff.1 (h c hc); omega
  have he : (!cs.isEmpty && cs.all (isDigitOf base)) = true := by
    rw [Bool.and_eq_true, List.all_eq_true]
    exact ⟨by simpa using hne, h⟩
  simp only [magnitude, hs, he, if_true]

theorem skipPlus_of_digits {base : Nat} (hb : base ≤ 16) {cs : List Char} (h : ∀ c ∈ cs, isDigitOf base c = true) :
    skipPlus cs = cs := by
  unfold skipPlus
  split
  · have hp := isDigitOf_mono hb (h '+' List.mem_cons_self)
    exact absurd hp (by decide)
  · rfl

/-- **A run of digits is its value**, if that fits. -/
theorem toUnsigned_digits {w base : Nat} (hb : base ≤ 16) {cs : List Char} (hne : cs ≠ [])
    (h : ∀ c ∈ cs, isDigitOf base c = true) :
    toUnsigned w base cs = if ofDigits base cs < 2 ^ w then some (ofDigits base cs) else none := by
  have ht : trim cs = cs := trim_of_not_space fun c hc => by
    have := isDigitOf_iff.1 (h c hc)
    exact not_isSpace_of_digitVal (by omega)
  rw [toUnsigned, ht, skipPlus_of_digits hb h, magnitude_digits hb hne h]
  simp [Option.filter]

theorem toSigned_digits {w base : Nat} (hb : base ≤ 16) {cs : List Char} (hne : cs ≠ [])
    (h : ∀ c ∈ cs, isDigitOf base c = true) :
    toSigned w base cs = if ofDigits base cs < 2 ^ (w - 1) then some (ofDigits base cs : Int) else none := by
  have ht : trim cs = cs := trim_of_not_space fun c hc => by
    have := isDigitOf_iff.1 (h c hc)
    exact not_isSpace_of_digitVal (by omega)
  unfold toSigned
  rw [ht]
  split
  · exact absurd (isDigitOf_mono hb (h '-' List.mem_cons_self)) (by decide)
  · rw [skipPlus_of_digits hb h, magnitude_digits hb hne h]
    by_cases hlt : ofDigits base cs < 2 ^ (w - 1) <;> simp [Option.filter, hlt]

/-! ## Numbers of any size -/

theorem toUnsigned_eq_some {w base : Nat} {cs : List Char} {n : Nat} :
    toUnsigned w base cs = some n ↔ natural base cs = some n ∧ n < 2 ^ w := by
  rw [toUnsigned, ← natural, Option.filter_eq_some_iff, decide_eq_true_eq]

theorem toSigned_eq_some {w base : Nat} {cs : List Char} {n : Int} :
    toSigned w base cs = some n ↔ integer base cs = some n ∧ -2 ^ (w - 1) ≤ n ∧ n < 2 ^ (w - 1) := by
  have hpow : ((2 ^ (w - 1) : Nat) : Int) = 2 ^ (w - 1) := by push_cast; rfl
  have hpos := Nat.two_pow_pos (w - 1)
  unfold toSigned integer
  split
  · simp only [Option.map_eq_some_iff, Option.filter_eq_some_iff, decide_eq_true_eq]
    constructor
    · rintro ⟨m, ⟨hm, hle⟩, rfl⟩
      exact ⟨⟨m, hm, rfl⟩, by omega, by omega⟩
    · rintro ⟨⟨m, hm, rfl⟩, hlow, -⟩
      exact ⟨m, ⟨hm, by omega⟩, rfl⟩
  · simp only [Option.map_eq_some_iff, Option.filter_eq_some_iff, decide_eq_true_eq]
    constructor
    · rintro ⟨m, ⟨hm, hlt⟩, rfl⟩
      exact ⟨⟨m, hm, rfl⟩, by omega, by omega⟩
    · rintro ⟨⟨m, hm, rfl⟩, -, hlt⟩
      exact ⟨m, ⟨hm, by omega⟩, rfl⟩

/-! ## Texts that may be numbers -/

/-- **A text is a number** if, the prefix aside, it consists of digits. -/
theorem magnitude_eq_some {base : Nat} {cs : List Char} {n : Nat} :
    magnitude base cs = some n ↔ skipPrefix base cs ≠ [] ∧ (∀ c ∈ skipPrefix base cs, isDigitOf base c = true) ∧
      ofDigits base (skipPrefix base cs) = n := by
  simp [magnitude, and_assoc]

theorem trim_trim (cs : List Char) : trim (trim cs) = trim cs := by
  have htrim : ∀ l, trim l = (l.dropWhile isSpace).rdropWhile isSpace := fun _ => rfl
  rw [htrim cs, htrim]
  have hidem := List.dropWhile_idempotent isSpace cs
  generalize cs.dropWhile isSpace = l at hidem ⊢
  have hdrop : (l.rdropWhile isSpace).dropWhile isSpace = l.rdropWhile isSpace := by
    obtain ⟨t, ht⟩ := List.rdropWhile_prefix isSpace l
    cases hr : l.rdropWhile isSpace with
    | nil => rfl
    | cons c r =>
      -- what is left starts with the first character of `l`, which is no space
      rw [hr] at ht
      rw [← ht, List.cons_append] at hidem
      by_cases hc : isSpace c = true
      · rw [List.dropWhile_cons_of_pos hc] at hidem
        have hlen := congrArg List.length hidem
        have hle := List.Sublist.length_le (List.dropWhile_sublist (l := r ++ t) isSpace)
        rw [List.length_cons] at hlen
        omega
      · exact List.dropWhile_cons_of_neg hc
  rw [hdrop, List.rdropWhile_idempotent]

/-- The spaces around a text do not matter to the integer that is read from it. -/
theorem toInt_trim (base : Nat) (cs : List Char) : toInt base (trim cs) = toInt base cs := by
  rw [toInt, toInt, toSigned, toSigned, trim_trim]

theorem digitVal_toLower (c : Char) : digitVal c.toLower = digitVal c := by
  have hupper : ∀ k < 26, digitVal (Char.ofNat (65 + k)).toLower = digitVal (Char.ofNat (65 + k)) := by decide
  by_cases h : 65 ≤ c.toNat ∧ c.toNat ≤ 90
  · have hc := hupper (c.toNat - 65) (by omega)
    rwa [show 65 + (c.toNat - 65) = c.toNat by omega, Char.ofNat_toNat] at hc
  · have hc : c.toLower = c := by
      refine dif_neg fun hr => h ⟨?_, ?_⟩
      · exact UInt32.le_iff_toNat_le.1 hr.1
      · exact UInt32.le_iff_toNat_le.1 hr.2
    rw [hc]

/-- The case of the digits does not matter. -/
theorem fromHex_lower (cs : List Char) : fromHex (lower cs) = fromHex cs := by
  have hpairs : ∀ l, pairs (l.map Char.toLower) = pairs l := by
    intro l
    induction l using pairs.induct with
    | case1 => rfl
    | case2 c => simp [pairs, digitVal_toLower]
    | case3 c c' cs ih => simp [pairs, digitVal_toLower, ih]
  have hfilter : (cs.map Char.toLower).filter (isDigitOf 16) = (cs.filter (isDigitOf 16)).map Char.toLower := by
    rw [List.filter_map]
    congr 1
    refine List.filter_congr fun c _ => ?_
    simp [isDigitOf, digitVal_toLower]
  rw [fromHex, lower, hfilter, ← List.map_reverse, hpairs]
  rfl

/-- Digits are at least worth as much in base 16. -/
theorem ofDigits_le_hex (ds : List Char) : ofDigits 10 ds ≤ ofDigits 16 ds := by
  induction ds using List.reverseRecOn with
  | nil => exact Nat.le_refl _
  | append_singleton ds c ih =>
    rw [ofDigits_concat, ofDigits_concat]
    omega

/-- **Which decimal texts are the same number in base 16.** -/
theorem ofDigits_hex_iff {ds : List Char} (h : ∀ c ∈ ds, isDigitOf 10 c = true) :
    ofDigits 16 ds = ofDigits 10 ds ↔ ofDigits 10 ds < 10 := by
  induction ds using List.reverseRecOn with
  | nil => decide
  | append_singleton ds c ih =>
    have hc := isDigitOf_iff.1 (h c (by simp))
    have hle := ofDigits_le_hex ds
    have ih := ih fun x hx => h x (List.mem_append_left _ hx)
    rw [ofDigits_concat, ofDigits_concat]
    omega

/-! ## Prefixes and signs -/

theorem skipPlus_of_startsWith0x {cs : List Char} (h : startsWith0x cs = true) : skipPlus cs = cs := by
  unfold startsWith0x at h
  split at h
  · rfl
  · cases h

theorem skipPrefix_of_startsWith0x {cs : List Char} (h : startsWith0x cs = true) : skipPrefix 16 cs = cs.drop 2 := by
  unfold startsWith0x at h
  split at h
  · simp only [Bool.or_eq_true, beq_iff_eq] at h
    simp [skipPrefix, h]
  · cases h

theorem skipPrefix_ten (cs : List Char) : skipPrefix 10 cs = cs := by
  unfold skipPrefix
  split
  · exact if_neg fun h => absurd h.1 (by decide)
  · rfl

/-- A text with `0x` in base 16. -/
theorem toUnsigned_hex {w : Nat} {text : List Char} {n : Nat} (h : startsWith0x (trim text) = true) :
    toUnsigned w 16 text = some n ↔ (trim text).drop 2 ≠ [] ∧ (∀ c ∈ (trim text).drop 2, isDigitOf 16 c = true) ∧
      ofDigits 16 ((trim text).drop 2) = n ∧ n < 2 ^ w := by
  unfold toUnsigned
  rw [skipPlus_of_startsWith0x h, Option.filter_eq_some_iff, magnitude_eq_some, skipPrefix_of_startsWith0x h,
    decide_eq_true_eq, and_assoc, and_assoc]

/-- A text in base 10. -/
theorem toUnsigned_ten {w : Nat} {text : List Char} {n : Nat} :
    toUnsigned w 10 text = some n ↔ skipPlus (trim text) ≠ [] ∧ (∀ c ∈ skipPlus (trim text), isDigitOf 10 c = true) ∧
      ofDigits 10 (skipPlus (trim text)) = n ∧ n < 2 ^ w := by
  unfold toUnsigned
  rw [Option.filter_eq_some_iff, magnitude_eq_some, skipPrefix_ten, decide_eq_true_eq, and_assoc, and_assoc]

theorem not_isDigitOf_of_startsWith0x {cs : List Char} (h : startsWith0x cs = true) : ∃ c ∈ cs, isDigitOf 10 c = false := by
  unfold startsWith0x at h
  split at h
  · rename_i c cs
    simp only [Bool.or_eq_true, beq_iff_eq] at h
    refine ⟨c, by simp, ?_⟩
    obtain rfl | rfl := h
    · decide
    · decide
  · cases h

/-- The digit of a value below ten. -/
theorem eq_of_digitVal {c : Char} {d : Nat} (hd : d < 10) (h : digitVal c = d) : c = Char.ofNat (48 + d) := by
  have hc : c.toNat = 48 + d := by
    unfold digitVal at h
    split at h
    · rename_i hr
      have h0 : 48 ≤ c.toNat := hr.1
      omega
    · split at h
      · rename_i hr
        have ha : 97 ≤ c.toNat := hr.1
        omega
      · split at h
        · rename_i hr
          have hA : 65 ≤ c.toNat := hr.1
          omega
        · omega
  rw [← hc, Char.ofNat_toNat]

theorem digitVal_ofNat : ∀ d < 10, digitVal (Char.ofNat (48 + d)) = d := by decide

theorem eq_of_lower {cs : List Char} {d : Nat} (hd : d < 10) (h : lower cs = [Char.ofNat (48 + d)]) :
    cs = [Char.ofNat (48 + d)] := by
  obtain ⟨c, rfl, hc⟩ := List.map_eq_singleton_iff.1 h
  have hval : digitVal c = d := by
    rw [← digitVal_toLower, hc, digitVal_ofNat d hd]
  rw [eq_of_digitVal hd hval]

theorem startsWith0x_lower (cs : List Char) (h : startsWith0x cs = true) : startsWith0x (lower cs) = true := by
  unfold startsWith0x at h
  split at h
  · rename_i c cs
    simp only [Bool.or_eq_true, beq_iff_eq] at h
    obtain rfl | rfl := h
    · rfl
    · rfl
  · cases h

/-! ## Bytes -/

/-- The bytes of the digits, from the last one on, are the little-endian bytes
of the number they write. -/
theorem pairs_eq {ds : List Char} (h : ∀ c ∈ ds, isDigitOf 16 c = true) :
    pairs ds = leBytes ((ds.length + 1) / 2) (ofDigits 16 ds.reverse) := by
  induction ds using pairs.induct with
  | case1 => rfl
  | case2 c =>
    have hc := isDigitOf_iff.1 (h c List.mem_cons_self)
    have hn : ofDigits 16 [c].reverse = digitVal c := by simp [ofDigits]
    have hlen : ([c].length + 1) / 2 = 0 + 1 := by simp
    rw [pairs, hlen, hn, leBytes, Nat.mod_eq_of_lt (by omega)]
    rfl
  | case3 c c' cs ih =>
    have hc := isDigitOf_iff.1 (h c List.mem_cons_self)
    have hc' := isDigitOf_iff.1 (h c' (by simp))
    have hn : ofDigits 16 (c :: c' :: cs).reverse =
        256 * ofDigits 16 cs.reverse + (digitVal c + 16 * digitVal c') := by
      rw [List.reverse_cons, List.reverse_cons, ofDigits_concat, ofDigits_concat]
      omega
    have hlen : ((c :: c' :: cs).length + 1) / 2 = (cs.length + 1) / 2 + 1 := by
      simp only [List.length_cons]
      omega
    rw [pairs, ih fun x hx => h x (List.mem_cons_of_mem _ (List.mem_cons_of_mem _ hx)), hlen, hn, leBytes]
    have h1 : (256 * ofDigits 16 cs.reverse + (digitVal c + 16 * digitVal c')) % 256 = digitVal c + 16 * digitVal c' := by
      omega
    have h2 : (256 * ofDigits 16 cs.reverse + (digitVal c + 16 * digitVal c')) / 256 = ofDigits 16 cs.reverse := by
      omega
    rw [h1, h2]

/-- **A text of hexadecimal digits as bytes**: the number, most significant byte
first. -/
theorem fromHex_eq (cs : List Char) :
    fromHex cs = (leBytes (((cs.filter (isDigitOf 16)).length + 1) / 2) (ofDigits 16 (cs.filter (isDigitOf 16)))).reverse := by
  have hdigits : ∀ c ∈ (cs.filter (isDigitOf 16)).reverse, isDigitOf 16 c = true := fun c hc =>
    (List.mem_filter.1 (List.mem_reverse.1 hc)).2
  rw [fromHex, pairs_eq hdigits, List.length_reverse, List.reverse_reverse]

/-! ## Dumps -/

theorem hexDump_cons (b : UInt8) (bs : Bytes) :
    hexDump (b :: bs) = Nat.digitChar (b.toNat / 16) :: Nat.digitChar (b.toNat % 16) :: hexDump bs := rfl

theorem hexDump_length (bs : Bytes) : (hexDump bs).length = 2 * bs.length := by
  induction bs with
  | nil => rfl
  | cons b bs ih =>
    rw [hexDump_cons, List.length_cons, List.length_cons, List.length_cons, ih]
    omega

theorem mem_hexDump {bs : Bytes} {c : Char} (h : c ∈ hexDump bs) : ∃ d < 16, c = Nat.digitChar d := by
  induction bs with
  | nil => cases h
  | cons b bs ih =>
    have hb := b.toNat_lt
    rw [hexDump_cons, List.mem_cons, List.mem_cons] at h
    obtain h | h | h := h
    · exact ⟨_, by omega, h⟩
    · exact ⟨_, by omega, h⟩
    · exact ih h

theorem isDigitOf_digitChar : ∀ d < 16, isDigitOf 16 (Nat.digitChar d) = true := by decide

theorem toLower_digitChar : ∀ d < 16, (Nat.digitChar d).toLower = Nat.digitChar d := by decide

theorem lower_hexDump (bs : Bytes) : lower (hexDump bs) = hexDump bs := by
  refine (List.map_congr_left fun c hc => ?_).trans (List.map_id _)
  obtain ⟨d, hd, rfl⟩ := mem_hexDump hc
  exact toLower_digitChar d hd

theorem isDigitOf_hexDump {bs : Bytes} : ∀ c ∈ hexDump bs, isDigitOf 16 c = true := by
  intro c hc
  obtain ⟨d, hd, rfl⟩ := mem_hexDump hc
  exact isDigitOf_digitChar d hd

theorem hexDump_inj {a b : Bytes} (h : hexDump a = hexDump b) : a = b := by
  have hlen := congrArg List.length h
  rw [hexDump_length, hexDump_length] at hlen
  induction a generalizing b with
  | nil =>
    cases b with
    | nil => rfl
    | cons y b => simp at hlen
  | cons x a ih =>
    cases b with
    | nil => simp at hlen
    | cons y b =>
      rw [hexDump_cons, hexDump_cons, List.cons.injEq, List.cons.injEq] at h
      obtain ⟨h1, h2, h3⟩ := h
      have hx := x.toNat_lt
      have hy := y.toNat_lt
      have hv := congrArg digitVal h1
      have hv' := congrArg digitVal h2
      rw [digitVal_digitChar (by omega), digitVal_digitChar (by omega)] at hv hv'
      have hxy : x = y := UInt8.toNat_inj.1 (by omega)
      simp only [List.length_cons] at hlen
      rw [hxy, ih h3 (by omega)]

theorem pairs_append {a : List Char} (b : List Char) (h : a.length % 2 = 0) : pairs (a ++ b) = pairs a ++ pairs b := by
  induction a using pairs.induct with
  | case1 => rfl
  | case2 c => simp at h
  | case3 c c' cs ih =>
    simp only [List.length_cons] at h
    simp only [List.cons_append, pairs, ih (by omega)]

/-- A hexadecimal digit in lower case. -/
theorem digitChar_digitVal {c : Char} (h : isDigitOf 16 c = true) : Nat.digitChar (digitVal c) = c.toLower := by
  have hall : ∀ k < 123, digitVal (Char.ofNat k) < 16 →
      Nat.digitChar (digitVal (Char.ofNat k)) = (Char.ofNat k).toLower := by decide
  have hv := isDigitOf_iff.1 h
  have hr := range_of_digitVal (c := c) (by omega)
  have hc := hall c.toNat (by omega)
  rw [Char.ofNat_toNat] at hc
  exact hc hv

/-- **A dump read back**: an even number of digits is the dump of its bytes. -/
theorem hexDump_fromHex {cs : List Char} (h : ∀ c ∈ cs, isDigitOf 16 c = true) (heven : cs.length % 2 = 0) :
    hexDump (fromHex cs) = lower cs := by
  have hfilter : ∀ l : List Char, (∀ c ∈ l, isDigitOf 16 c = true) → l.filter (isDigitOf 16) = l := fun l hl =>
    List.filter_eq_self.2 hl
  rw [fromHex, hfilter cs h]
  clear hfilter
  induction cs using pairs.induct with
  | case1 => rfl
  | case2 c => simp at heven
  | case3 c c' cs ih =>
    have hc := h c List.mem_cons_self
    have hc' := h c' (by simp)
    have hv := isDigitOf_iff.1 hc
    have hv' := isDigitOf_iff.1 hc'
    have hlen : cs.reverse.length % 2 = 0 := by
      simp only [List.length_cons] at heven
      rw [List.length_reverse]
      omega
    have hrev : (c :: c' :: cs).reverse = cs.reverse ++ [c', c] := by simp
    have hbyte : (UInt8.ofNat (digitVal c' + 16 * digitVal c)).toNat = digitVal c' + 16 * digitVal c := by
      rw [UInt8.toNat_ofNat']
      omega
    rw [hrev, pairs_append _ hlen]
    simp only [pairs, List.reverse_append, List.reverse_cons, List.reverse_nil, List.nil_append, List.cons_append]
    rw [hexDump_cons, hbyte, ih (fun x hx => h x (by simp [hx])) (by rw [List.length_reverse] at hlen; exact hlen)]
    have h1 : (digitVal c' + 16 * digitVal c) / 16 = digitVal c := by omega
    have h2 : (digitVal c' + 16 * digitVal c) % 16 = digitVal c' := by omega
    rw [h1, h2, digitChar_digitVal hc, digitChar_digitVal hc']
    rfl

/-- What `QString::number` prints is the number. -/
theorem integer_intText (n : Int) : integer 10 (QJson.intText n) = some n := by
  have hdigits {n : Nat} : ∀ c ∈ Nat.toDigits 10 n, isDigitOf 10 c = true := isDigitOf_toDigits (by decide) (by decide)
  have hspace {n : Nat} : ∀ c ∈ Nat.toDigits 10 n, isSpace c = false := fun c hc =>
    not_isSpace_of_digitVal (Nat.lt_trans (isDigitOf_iff.1 (hdigits c hc)) (by decide))
  have hmagnitude (n : Nat) : magnitude 10 (Nat.toDigits 10 n) = some n := by
    rw [magnitude_digits (by decide) Nat.toDigits_ne_nil hdigits, ofDigits_toDigits (by decide) (by decide)]
  cases n with
  | ofNat n =>
    unfold integer QJson.intText
    rw [trim_of_not_space hspace]
    split
    · rename_i cs heq
      exact absurd (hdigits '-' (heq ▸ List.mem_cons_self)) (by decide)
    · rw [skipPlus_of_digits (by decide) hdigits, hmagnitude]
      rfl
  | negSucc n =>
    have htrim : trim ('-' :: Nat.toDigits 10 (n + 1)) = '-' :: Nat.toDigits 10 (n + 1) :=
      trim_of_not_space (List.forall_mem_cons.2 ⟨by decide, hspace⟩)
    unfold integer QJson.intText
    rw [htrim]
    change (magnitude 10 (Nat.toDigits 10 (n + 1))).map _ = _
    rw [hmagnitude]
    rfl

end NekoEcat.QNumber
