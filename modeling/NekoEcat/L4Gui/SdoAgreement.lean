import NekoEcat.L2Daemon.NativeSdo
import NekoEcat.L4Gui.SdoValidation

/-!
# What the editor checks and what the backend writes

The editor's check and `EthercatNativeBackend::download` read the four texts
with rules of their own. The check takes a number to be decimal unless it starts
with `0x`; the backend reads every address in base 16, the narrow integers in
base 10 only, and every other type as a run of hexadecimal digits.

* `address_iff`: which addresses are the same object to both.
* `encode_iff`: which values are the same bytes to both.
* `agrees_iff`: both, for a download.
-/
namespace NekoEcat.L4.SdoAgreement
open NekoEcat.Bytes NekoEcat.QNumber NekoEcat.L2.NativeSdo NekoEcat.L4.SdoValidation

/-- What was checked is what is written. -/
def Agrees (index subIndex value type : List Char) (t : IntType) : Prop :=
  ∃ idx sub n, parseNumber index = some idx ∧ parseNumber subIndex = some sub ∧ checkedValue (trim value) t = some n ∧
    ∀ (bus : Bus) (position : Int), bus.opens = true →
      (download bus position index subIndex value type).1 =
        some ⟨UInt16.ofNat (position % 2 ^ 16).toNat, UInt16.ofNat idx, UInt8.ofNat sub,
          leBytes (t.bits / 8) (n % 2 ^ t.bits).toNat⟩ ∧
      (bus.ret = 0 → (download bus position index subIndex value type).2 = .ok ())

/-- A text both read as the same address: `0x` and hexadecimal digits, or a
decimal number below ten. -/
def SameAddress (text : List Char) : Prop :=
  if startsWith0x (trim text) then ∀ c ∈ (trim text).drop 2, isDigitOf 16 c = true
  else ofDigits 10 (skipPlus (trim text)) < 10

/-- The hexadecimal digits of a text, one `0x` in front aside. -/
def hexDigits (value : List Char) : List Char :=
  (if startsWith0x value then value.drop 2 else value).filter (isDigitOf 16)

/-- Only digits after a minus sign, and no `0x`. -/
def SignedDecimal : List Char → Prop
  | '-' :: cs => ∀ c ∈ cs, isDigitOf 10 c = true
  | value => startsWith0x value = false

/-- A text with all sixteen digits of 64 bits (or fifteen) that, byte by byte
from the last one on, write the number. -/
def Mirrored (value : List Char) (t : IntType) : Prop :=
  ((hexDigits value).length = 15 ∨ (hexDigits value).length = 16) ∧
    ∀ n ∈ checkedValue value t, leBytes 8 (n % 2 ^ 64).toNat = (leBytes 8 (ofDigits 16 (hexDigits value))).reverse

/-- A trimmed text both read as the same value, by type. -/
def SameValue (value : List Char) : IntType → Prop
  | .bool => value = ['0'] ∨ value = ['1']
  | .unsigned 64 => Mirrored value (.unsigned 64)
  | .signed 64 => Mirrored value (.signed 64)
  | .unsigned _ => startsWith0x value = false
  | .signed _ => SignedDecimal value

/-! ## Addresses -/

/-- What the check accepts without a `0x`. -/
theorem parseNumber_ten {text : List Char} {n : Nat} (h : startsWith0x (trim text) = false) :
    parseNumber text = some n ↔ skipPlus (trim text) ≠ [] ∧ (∀ c ∈ skipPlus (trim text), isDigitOf 10 c = true) ∧
      ofDigits 10 (skipPlus (trim text)) = n ∧ n < 2 ^ 64 := by
  unfold parseNumber toULongLong
  dsimp only
  rw [h, if_neg Bool.false_ne_true, toUnsigned_ten, trim_trim]

/-- What the check accepts with a `0x`, where only digits follow. -/
theorem parseNumber_hex {text : List Char} {n : Nat} (h : startsWith0x (trim text) = true)
    (hd : ∀ c ∈ (trim text).drop 2, isDigitOf 16 c = true) :
    parseNumber text = some n ↔ (trim text).drop 2 ≠ [] ∧ ofDigits 16 ((trim text).drop 2) = n ∧ n < 2 ^ 64 := by
  unfold parseNumber toULongLong
  dsimp only
  rw [h, if_pos rfl]
  by_cases hne : (trim text).drop 2 = []
  · rw [hne]
    exact ⟨fun hn => absurd hn (by simp [toUnsigned, trim, skipPlus, magnitude, skipPrefix]), fun hn => absurd rfl hn.1⟩
  · rw [toUnsigned_digits (by decide) hne hd]
    constructor
    · intro hn
      split at hn
      · cases hn
        exact ⟨hne, rfl, ‹_›⟩
      · cases hn
    · rintro ⟨-, rfl, hlt⟩
      exact if_pos hlt

/-- Not even the low byte of a longer address is the same number in both bases. -/
theorem ofDigits_hex_mod {ds : List Char} {w : Nat} (hw : w = 8 ∨ w = 16) (hd : ∀ c ∈ ds, isDigitOf 10 c = true)
    (h16 : ofDigits 16 ds < 2 ^ 16) (hn : ofDigits 10 ds < 2 ^ w) (h : ofDigits 16 ds % 2 ^ w = ofDigits 10 ds) :
    ofDigits 10 ds < 10 := by
  rcases hw with rfl | rfl
  · -- the value is below 256, so the digits before the last two write less than three
    obtain rfl | ⟨ds, c, rfl⟩ := List.eq_nil_or_concat' ds
    · decide
    have hc := isDigitOf_iff.1 (hd c (by simp))
    obtain rfl | ⟨ds, c', rfl⟩ := List.eq_nil_or_concat' ds
    · simp only [List.nil_append, ofDigits, List.foldl_cons, List.foldl_nil]
      omega
    have hc' := isDigitOf_iff.1 (hd c' (by simp))
    have hds : ∀ x ∈ ds, isDigitOf 10 x = true := fun x hx => hd x (by simp [hx])
    have heq := (ofDigits_hex_iff hds).2
    simp only [ofDigits_concat] at h hn ⊢
    have hlt : ofDigits 10 ds < 10 := by omega
    rw [heq hlt] at h
    omega
  · rw [Nat.mod_eq_of_lt h16] at h
    exact (ofDigits_hex_iff hd).1 h

/-- **An address**: what the backend reads in base 16 is the address that was
checked, up to the width of the field. -/
theorem sameAddress_iff {text : List Char} {n : Nat} {w : Nat} (hw : w = 8 ∨ w = 16) (hp : parseNumber text = some n)
    (hn : n < 2 ^ w) : (∃ m, toUShort 16 text = some m ∧ m % 2 ^ w = n) ↔ SameAddress text := by
  have hn16 : n < 2 ^ 16 := by rcases hw with rfl | rfl <;> omega
  unfold SameAddress
  cases h : startsWith0x (trim text) with
  | true =>
    rw [if_pos rfl]
    constructor
    · rintro ⟨m, hm, -⟩
      exact ((toUnsigned_hex h).1 hm).2.1
    · intro hd
      obtain ⟨hne, hv, -⟩ := (parseNumber_hex h hd).1 hp
      exact ⟨n, (toUnsigned_hex h).2 ⟨hne, hd, hv, hn16⟩, Nat.mod_eq_of_lt hn⟩
  | false =>
    rw [if_neg Bool.false_ne_true]
    obtain ⟨hne, hd, rfl, -⟩ := (parseNumber_ten h).1 hp
    generalize hds : skipPlus (trim text) = ds at hne hd hn hn16 ⊢
    have hread : toUShort 16 text = if ofDigits 16 ds < 2 ^ 16 then some (ofDigits 16 ds) else none := by
      have hm := magnitude_digits (Nat.le_refl 16) hne fun c hc => isDigitOf_mono (by decide) (hd c hc)
      unfold toUShort toUnsigned
      rw [hds, hm]
      simp [Option.filter]
    rw [hread]
    constructor
    · rintro ⟨m, hm, hmod⟩
      split at hm
      · cases hm
        exact ofDigits_hex_mod hw hd ‹_› hn hmod
      · cases hm
    · intro hlt
      have heq := (ofDigits_hex_iff hd).2 hlt
      rw [heq, if_pos hn16]
      exact ⟨_, rfl, Nat.mod_eq_of_lt hn⟩

/-- **The object**: which pairs of addresses are the same object to both. -/
theorem address_iff {index subIndex : List Char} {idx sub : Nat} (hi : parseNumber index = some idx) (hi' : idx ≤ 0xffff)
    (hs : parseNumber subIndex = some sub) (hs' : sub ≤ 0xff) :
    address index subIndex = .ok (UInt16.ofNat idx, UInt8.ofNat sub) ↔ SameAddress index ∧ SameAddress subIndex := by
  rw [← sameAddress_iff (.inr rfl) hi (Nat.lt_succ_of_le hi'), ← sameAddress_iff (.inl rfl) hs (Nat.lt_succ_of_le hs')]
  have hidx : ∀ m, UInt16.ofNat m = UInt16.ofNat idx ↔ m % 2 ^ 16 = idx := by
    intro m
    rw [← UInt16.toNat_inj, UInt16.toNat_ofNat', UInt16.toNat_ofNat']
    omega
  have hsub : ∀ m, UInt8.ofNat m = UInt8.ofNat sub ↔ m % 2 ^ 8 = sub := by
    intro m
    rw [← UInt8.toNat_inj, UInt8.toNat_ofNat', UInt8.toNat_ofNat']
    omega
  unfold address
  cases toUShort 16 index with
  | none => simp
  | some m =>
    cases toUShort 16 subIndex with
    | none => simp
    | some m' => simp [hidx, hsub]

/-! ## Values -/

/-- How the backend encodes the types of the editor. -/
def encoding : IntType → SdoType
  | .bool => .other
  | .unsigned 64 => .other
  | .signed 64 => .other
  | .unsigned bits => .unsigned bits
  | .signed bits => .signed bits

theorem lower_trim_of_normalize {type s : List Char} (h : normalize type = s) (hs : '_' ∉ s) : lower (trim type) = s := by
  unfold SdoValidation.normalize at h
  generalize lower (trim type) = l at h
  rw [← h]
  refine (List.map_id' l).symm.trans (List.map_congr_left fun c hc => ?_)
  split
  · refine absurd ?_ hs
    rw [← h, List.mem_map]
    exact ⟨c, hc, if_pos ‹_›⟩
  · rfl

theorem sdoType_eq {type : List Char} {t : IntType} (ht : intType (normalize type) = some t) : sdoType type = encoding t := by
  have hcases := intType_cases ht
  have hname : ∀ s : List Char, normalize type = s → '_' ∉ s → sdoTypeOf s = encoding t → sdoType type = encoding t :=
    fun s hn hs he => by rw [sdoType, lower_trim_of_normalize hn hs, he]
  simp only [List.mem_cons, Prod.mk.injEq, List.not_mem_nil, or_false] at hcases
  rcases hcases with ⟨hty, rfl⟩ | ⟨hty, rfl⟩ | ⟨hty, rfl⟩ | ⟨hty, rfl⟩ | ⟨hty, rfl⟩ | ⟨hty, rfl⟩ | ⟨hty, rfl⟩ |
    ⟨hty, rfl⟩ | ⟨hty, rfl⟩
  all_goals exact hname _ hty (by decide) (by decide)

/-- The unsigned types the backend knows: it takes no `0x`. -/
theorem encode_unsigned {value type : List Char} {bits : Nat} {n : Int} (hs : sdoType type = .unsigned bits)
    (hb : bits ≤ 32) (hc : checkedValue (trim value) (.unsigned bits) = some n) (hr : (IntType.unsigned bits).InRange n) :
    encode value type = .ok (leBytes (bits / 8) (n % 2 ^ bits).toNat) ↔ startsWith0x (trim value) = false := by
  obtain ⟨k, hk, rfl⟩ := Option.map_eq_some_iff.1 hc
  have hk32 : k < 2 ^ 32 := by
    have hlt : k < 2 ^ bits := by exact_mod_cast hr.2
    exact Nat.lt_of_lt_of_le hlt (Nat.pow_le_pow_right Nat.two_pos hb)
  have hmod : ((k : Int) % 2 ^ bits).toNat = k := by rw [Int.emod_eq_of_lt hr.1 hr.2, Int.toNat_natCast]
  unfold encode
  rw [hs, hmod]
  cases h : startsWith0x (trim value) with
  | true =>
    have hnone : toUInt 10 value = none := by
      rw [Option.eq_none_iff_forall_ne_some]
      intro m hm
      obtain ⟨c, hc, hd⟩ := not_isDigitOf_of_startsWith0x h
      have hall := (toUnsigned_ten.1 hm).2.1
      rw [skipPlus_of_startsWith0x h] at hall
      exact absurd (hall c hc) (by simp [hd])
    simp [hnone]
  | false =>
    rw [parseNumber_ten (by rw [trim_trim, h]), trim_trim] at hk
    have hsome : toUInt 10 value = some k := toUnsigned_ten.2 ⟨hk.1, hk.2.1, hk.2.2.1, hk32⟩
    simp [hsome]

theorem toInt_minus {value cs : List Char} (h : trim value = '-' :: cs) :
    toInt 10 value = ((magnitude 10 cs).filter fun n => decide (n ≤ 2 ^ 31)).map fun n : Nat => -(n : Int) := by
  unfold toInt toSigned
  rw [h]
  rfl

theorem toInt_plain {value : List Char} (h : ¬ (trim value).head? = some '-') :
    toInt 10 value =
      ((magnitude 10 (skipPlus (trim value))).filter fun n => decide (n < 2 ^ 31)).map fun n : Nat => (n : Int) := by
  unfold toInt toSigned
  split
  · rename_i cs hcs
    exact absurd (by rw [hcs]; rfl) h
  · rfl

/-- After a minus sign the check trims once more and takes a plus sign or a
`0x`; the backend takes digits. -/
theorem toInt_of_minus {value cs : List Char} {k : Nat} (h : trim value = '-' :: cs) (hk : parseNumber cs = some k)
    (hk31 : k ≤ 2 ^ 31) : (∀ c ∈ cs, isDigitOf 10 c = true) ∧ toInt 10 value = some (-(k : Int)) ∨
      (¬ ∀ c ∈ cs, isDigitOf 10 c = true) ∧ toInt 10 value = none := by
  rw [toInt_minus h]
  by_cases hd : ∀ c ∈ cs, isDigitOf 10 c = true
  · have htrim : trim cs = cs := trim_of_not_space fun c hc => by
      have hlt := isDigitOf_iff.1 (hd c hc)
      exact not_isSpace_of_digitVal (by omega)
    have h0 : startsWith0x cs = false := by
      by_contra h0
      obtain ⟨c, hc, hcd⟩ := not_isDigitOf_of_startsWith0x (Bool.eq_true_of_not_eq_false h0)
      exact absurd (hd c hc) (by simp [hcd])
    rw [parseNumber_ten (by rw [htrim, h0]), htrim, skipPlus_of_digits (by decide) hd] at hk
    obtain ⟨hne, -, hv, -⟩ := hk
    rw [magnitude_digits (by decide) hne hd, hv]
    exact .inl ⟨hd, by simp only [Option.filter, decide_eq_true hk31, if_true, Option.map_some]⟩
  · refine .inr ⟨hd, ?_⟩
    have hnone : magnitude 10 cs = none := by
      rw [Option.eq_none_iff_forall_ne_some]
      intro m hm
      rw [magnitude_eq_some, skipPrefix_ten] at hm
      exact hd hm.2.1
    rw [hnone]
    rfl

theorem toInt_of_plain {value : List Char} {k : Nat} (h : ¬ (trim value).head? = some '-')
    (hk : parseNumber (trim value) = some k) (hk31 : k < 2 ^ 31) :
    startsWith0x (trim value) = false ∧ toInt 10 value = some (k : Int) ∨
      ¬ startsWith0x (trim value) = false ∧ toInt 10 value = none := by
  rw [toInt_plain h]
  cases h0 : startsWith0x (trim value) with
  | false =>
    rw [parseNumber_ten (by rw [trim_trim, h0]), trim_trim] at hk
    have hm : magnitude 10 (skipPlus (trim value)) = some k :=
      magnitude_eq_some.2 (by rw [skipPrefix_ten]; exact ⟨hk.1, hk.2.1, hk.2.2.1⟩)
    rw [hm]
    exact .inl ⟨rfl, by simp only [Option.filter, decide_eq_true hk31, if_true, Option.map_some]⟩
  | true =>
    obtain ⟨c, hc, hcd⟩ := not_isDigitOf_of_startsWith0x h0
    have hnone : magnitude 10 (skipPlus (trim value)) = none := by
      rw [Option.eq_none_iff_forall_ne_some]
      intro m hm
      rw [magnitude_eq_some, skipPrefix_ten, skipPlus_of_startsWith0x h0] at hm
      exact absurd (hm.2.1 c hc) (by simp [hcd])
    rw [hnone]
    exact .inr ⟨by decide, rfl⟩

/-- What the backend reads of a signed number, whenever it reads one. -/
theorem toInt_signed {value : List Char} {bits : Nat} {n : Int} (h0 : 0 < bits) (hb : bits ≤ 32)
    (hc : checkedValue (trim value) (.signed bits) = some n) (hr : (IntType.signed bits).InRange n) :
    SignedDecimal (trim value) ∧ toInt 10 value = some n ∨ ¬ SignedDecimal (trim value) ∧ toInt 10 value = none := by
  have hpow : 2 ^ (bits - 1) ≤ 2 ^ 31 := Nat.pow_le_pow_right Nat.two_pos (by omega)
  by_cases hneg : (trim value).head? = some '-'
  · obtain ⟨cs, hcs⟩ : ∃ cs, trim value = '-' :: cs := by
      cases hv : trim value with
      | nil => rw [hv] at hneg; cases hneg
      | cons c cs => rw [hv] at hneg; cases hneg; exact ⟨cs, rfl⟩
    rw [hcs] at hc ⊢
    obtain ⟨k, hk, rfl⟩ := Option.map_eq_some_iff.1 hc
    have hk31 : k ≤ 2 ^ (bits - 1) := by
      have hle : (k : Int) ≤ 2 ^ (bits - 1) := Int.neg_le_neg_iff.1 hr.1
      exact_mod_cast hle
    exact toInt_of_minus hcs hk (Nat.le_trans hk31 hpow)
  · rw [checkedValue_of_not_minus hneg] at hc
    obtain ⟨k, hk, rfl⟩ := Option.map_eq_some_iff.1 hc
    have hk31 : k < 2 ^ (bits - 1) := by exact_mod_cast hr.2
    have hplain : SignedDecimal (trim value) ↔ startsWith0x (trim value) = false := by
      unfold SignedDecimal
      split
      · rename_i hv
        exact absurd (by rw [hv]; rfl) hneg
      · rfl
    rw [hplain]
    exact toInt_of_plain hneg hk (Nat.lt_of_lt_of_le hk31 hpow)

/-- The signed types the backend knows. -/
theorem encode_signed {value type : List Char} {bits : Nat} {n : Int} (hs : sdoType type = .signed bits) (h0 : 0 < bits)
    (hb : bits ≤ 32) (hc : checkedValue (trim value) (.signed bits) = some n) (hr : (IntType.signed bits).InRange n) :
    encode value type = .ok (leBytes (bits / 8) (n % 2 ^ bits).toNat) ↔ SignedDecimal (trim value) := by
  unfold encode
  rw [hs]
  obtain ⟨hd, hn⟩ | ⟨hd, hn⟩ := toInt_signed h0 hb hc hr
  · simp [hn, hd]
  · simp [hn, hd]

/-- Every other type: the digits as bytes, the first pair first. -/
theorem encode_other {value type : List Char} (hs : sdoType type = .other) :
    encode value type =
      .ok ((leBytes (((hexDigits (trim value)).length + 1) / 2) (ofDigits 16 (hexDigits (trim value)))).reverse.take
        maxSdoDataSize) := by
  unfold encode
  rw [hs]
  dsimp only
  rw [fromHex_eq]
  rfl

/-- The types of 64 bits. -/
theorem encode_wide {value type : List Char} {t : IntType} {n : Int} (hs : sdoType type = .other)
    (hc : checkedValue (trim value) t = some n) :
    encode value type = .ok (leBytes 8 (n % 2 ^ 64).toNat) ↔ Mirrored (trim value) t := by
  rw [encode_other hs, Except.ok.injEq]
  unfold Mirrored
  generalize hexDigits (trim value) = ds
  have hforall : (∀ m ∈ checkedValue (trim value) t,
      leBytes 8 (m % 2 ^ 64).toNat = (leBytes 8 (ofDigits 16 ds)).reverse) ↔
        leBytes 8 (n % 2 ^ 64).toNat = (leBytes 8 (ofDigits 16 ds)).reverse := by
    rw [hc]
    simp
  rw [hforall]
  have hlen : ∀ k, (leBytes k (ofDigits 16 ds)).reverse.take maxSdoDataSize = leBytes 8 (n % 2 ^ 64).toNat → k = 8 := by
    intro k h
    have h := congrArg List.length h
    simp only [List.length_take, List.length_reverse, leBytes_length, maxSdoDataSize] at h
    omega
  have htake : (leBytes 8 (ofDigits 16 ds)).reverse.take maxSdoDataSize = (leBytes 8 (ofDigits 16 ds)).reverse :=
    List.take_of_length_le (by simp [maxSdoDataSize])
  constructor
  · intro h
    have h8 := hlen _ h
    rw [h8, htake] at h
    exact ⟨by omega, h.symm⟩
  · rintro ⟨h16, h⟩
    have h8 : (ds.length + 1) / 2 = 8 := by omega
    rw [h8, htake, h]

/-- A word for a truth value is the value of its hexadecimal digits. -/
theorem encode_word {value type s : List Char} (hs : sdoType type = .other) (hw : lower (trim value) = s)
    (h0 : startsWith0x s = false) : encode value type = .ok ((fromHex s).take maxSdoDataSize) := by
  have h0x : startsWith0x (trim value) = false := by
    by_contra hx
    have hx' := startsWith0x_lower _ (Bool.eq_true_of_not_eq_false hx)
    rw [hw, h0] at hx'
    cases hx'
  unfold encode
  rw [hs]
  dsimp only
  rw [h0x, if_neg Bool.false_ne_true, ← hw, fromHex_lower]

/-- The words for a truth value: only the digits are their own value. -/
theorem encode_bool {value type : List Char} {n : Int} (hs : sdoType type = .other)
    (hc : checkedValue (trim value) .bool = some n) :
    encode value type = .ok (leBytes 1 (n % 2 ^ 8).toNat) ↔ trim value = ['0'] ∨ trim value = ['1'] := by
  -- the other words have one hexadecimal digit too many, too few or a wrong one
  have hother : ∀ s : List Char, ∀ b : Bytes, lower (trim value) = s → startsWith0x s = false → fromHex s = b →
      b.take maxSdoDataSize ≠ leBytes 1 (n % 2 ^ 8).toNat → s ≠ ['0'] ∧ s ≠ ['1'] →
      (encode value type = .ok (leBytes 1 (n % 2 ^ 8).toNat) ↔ trim value = ['0'] ∨ trim value = ['1']) := by
    intro s b hw h0 hb hne hs'
    rw [encode_word hs hw h0, hb, Except.ok.injEq]
    refine ⟨fun h => absurd h hne, fun h => ?_⟩
    obtain h | h := h
    · rw [h] at hw
      exact absurd hw.symm hs'.1
    · rw [h] at hw
      exact absurd hw.symm hs'.2
  have hdigit : ∀ d < 10, lower (trim value) = [Char.ofNat (48 + d)] → n = d → (d = 0 ∨ d = 1) →
      (encode value type = .ok (leBytes 1 (n % 2 ^ 8).toNat) ↔ trim value = ['0'] ∨ trim value = ['1']) := by
    intro d hd hw hn hd'
    have htrim := eq_of_lower hd hw
    obtain rfl | rfl := hd'
    · exact ⟨fun _ => .inl htrim, fun _ => by rw [encode_word hs hw (by decide), hn]; rfl⟩
    · exact ⟨fun _ => .inr htrim, fun _ => by rw [encode_word hs hw (by decide), hn]; rfl⟩
  unfold checkedValue at hc
  simp only [List.contains_iff_mem, List.map_cons, List.map_nil, List.mem_cons, List.not_mem_nil, or_false] at hc
  split at hc
  · cases hc
    obtain h | h | h := ‹lower (trim value) = _ ∨ _›
    · exact hdigit 1 (by decide) h rfl (.inr rfl)
    · exact hother _ [14] h (by decide) (by decide) (by decide) (by decide)
    · exact hother _ [14] h (by decide) (by decide) (by decide) (by decide)
  · split at hc
    · cases hc
      obtain h | h | h := ‹lower (trim value) = _ ∨ _›
      · exact hdigit 0 (by decide) h rfl (.inl rfl)
      · exact hother _ [15, 174] h (by decide) (by decide) (by decide) (by decide)
      · exact hother _ [] h (by decide) (by decide) (by decide) (by decide)
    · cases hc

/-- **A value**: which texts the backend writes as the value that was checked. -/
theorem encode_iff {value type : List Char} {t : IntType} {n : Int} (ht : intType (normalize type) = some t)
    (hc : checkedValue (trim value) t = some n) (hr : t.InRange n) :
    encode value type = .ok (leBytes (t.bits / 8) (n % 2 ^ t.bits).toNat) ↔ SameValue (trim value) t := by
  have hs := sdoType_eq ht
  have hcases := intType_cases ht
  simp only [List.mem_cons, Prod.mk.injEq, List.not_mem_nil, or_false] at hcases
  rcases hcases with ⟨-, rfl⟩ | ⟨-, rfl⟩ | ⟨-, rfl⟩ | ⟨-, rfl⟩ | ⟨-, rfl⟩ | ⟨-, rfl⟩ | ⟨-, rfl⟩ | ⟨-, rfl⟩ | ⟨-, rfl⟩
  · exact encode_bool hs hc
  · exact encode_signed hs (by decide) (by decide) hc hr
  · exact encode_signed hs (by decide) (by decide) hc hr
  · exact encode_signed hs (by decide) (by decide) hc hr
  · exact encode_wide hs hc
  · exact encode_unsigned hs (by decide) hc hr
  · exact encode_unsigned hs (by decide) hc hr
  · exact encode_unsigned hs (by decide) hc hr
  · exact encode_wide hs hc

/-! ## Downloads -/

/-- A transfer is made of the address and the bytes, and succeeds with it. -/
theorem download_iff {bus : Bus} {position : Int} {index subIndex value type : List Char} {idx : UInt16} {sub : UInt8}
    {data : Bytes} (hb : bus.opens = true) :
    ((download bus position index subIndex value type).1 = some ⟨UInt16.ofNat (position % 2 ^ 16).toNat, idx, sub, data⟩ ∧
      (bus.ret = 0 → (download bus position index subIndex value type).2 = .ok ())) ↔
        address index subIndex = .ok (idx, sub) ∧ encode value type = .ok data := by
  unfold download
  rw [hb, Bool.not_true, if_neg Bool.false_ne_true]
  cases address index subIndex with
  | error e => simp
  | ok a =>
    cases encode value type with
    | error e => simp
    | ok d =>
      simp only [Option.some.injEq, Transfer.mk.injEq, true_and, Except.ok.injEq, Prod.ext_iff]
      constructor
      · rintro ⟨⟨h1, h2, h3⟩, -⟩
        exact ⟨⟨h1, h2⟩, h3⟩
      · rintro ⟨⟨h1, h2⟩, h3⟩
        exact ⟨⟨h1, h2, h3⟩, fun h0 => if_neg (by simp [h0])⟩

/-- **The editor and the backend agree** on the texts that both read the same
way: every address in hexadecimal or below ten, a narrow integer in plain
decimal, `0` or `1` for a truth value, and all the digits of the bytes for 64
bits. On every other text that passes the check they disagree. -/
theorem agrees_iff {uiText : String → String} {isDouble : List Char → Bool} {index subIndex value type : List Char}
    {t : IntType} (ht : intType (normalize type) = some t)
    (h : (validate uiText isDouble index subIndex value type).errors = []) :
    Agrees index subIndex value type t ↔ SameAddress index ∧ SameAddress subIndex ∧ SameValue (trim value) t := by
  obtain ⟨idx, sub, n, hi, hi', hs, hs', hc, hr⟩ := validate_spec ht h
  rw [← and_assoc, ← address_iff hi hi' hs hs', ← encode_iff ht hc hr]
  constructor
  · rintro ⟨idx', sub', n', hidx, hsub, hn, hall⟩
    rw [hi] at hidx
    rw [hs] at hsub
    rw [hc] at hn
    cases hidx
    cases hsub
    cases hn
    exact (download_iff rfl).1 (hall ⟨true, 0, 0, []⟩ 0 rfl)
  · intro hboth
    exact ⟨idx, sub, n, hi, hs, hc, fun bus position hb => (download_iff hb).2 hboth⟩

theorem sameAddress_index : SameAddress "0x6040".toList := by
  have h : startsWith0x (trim "0x6040".toList) = true := by decide +kernel
  rw [SameAddress, if_pos h]
  exact List.all_eq_true.1 (by decide +kernel)

/-- The control word, by its hexadecimal index. -/
theorem controlword_agrees : Agrees "0x6040".toList "0".toList "15".toList "uint16".toList (.unsigned 16) :=
  (@agrees_iff id (fun _ => false) _ _ _ _ _ (by decide +kernel) (by decide +kernel)).2
    ⟨sameAddress_index, by unfold SameAddress; decide +kernel,
      (by decide +kernel : startsWith0x (trim "15".toList) = false)⟩

/-- Object `0x1000` by its decimal index: the backend writes object `0x4096`. -/
theorem decimal_index_disagrees :
    (validate id (fun _ => false) "4096".toList "0".toList "1".toList "uint32".toList).errors = [] ∧
      intType (normalize "uint32".toList) = some (.unsigned 32) ∧
      (download ⟨true, 0, 0, []⟩ 0 "4096".toList "0".toList "1".toList "uint32".toList).1 =
        some ⟨0, 0x4096, 0, [1, 0, 0, 0]⟩ ∧
      ¬ Agrees "4096".toList "0".toList "1".toList "uint32".toList (.unsigned 32) := by
  have hwrite : (download ⟨true, 0, 0, []⟩ 0 "4096".toList "0".toList "1".toList "uint32".toList).1 =
      some ⟨0, 0x4096, 0, [1, 0, 0, 0]⟩ := by decide +kernel
  refine ⟨by decide +kernel, by decide +kernel, hwrite, ?_⟩
  rintro ⟨idx, sub, n, hidx, -, -, hall⟩
  have hidx' : parseNumber "4096".toList = some 4096 := by decide +kernel
  rw [hidx'] at hidx
  cases hidx
  have h := (hall ⟨true, 0, 0, []⟩ 0 rfl).1
  rw [hwrite, Option.some.injEq, Transfer.mk.injEq] at h
  exact absurd h.2.1 (by decide)

end NekoEcat.L4.SdoAgreement
