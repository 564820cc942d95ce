import NekoEcat.L4Gui.SdoObjects

/-!
# Spellings of an address

`normalizeHexText` maps the spellings of a number (upper and lower case, with
and without `0x`, leading zeros) to one, and any other text to its lower case.

* `normalizeHexText_lower`: texts that differ in their case have one normal form.
* `normalizeHexText_idem`: a normal form is its own.
-/
namespace NekoEcat.L4.SdoWrites
open NekoEcat.QNumber NekoEcat.QString

/-- The length of a `QString`. -/
def utf16Length (cs : List Char) : Nat := (cs.map fun c => if c.toNat < 0x10000 then 1 else 2).sum

/-- `QString("0x%1").arg(subIndex.rightJustified(2, '0'))` where the text has no prefix. -/
def prefixed (subIndex : String) : String :=
  if subIndex = "" ∨ startsWith0x subIndex.toList then subIndex
  else "0x" ++ String.ofList (List.replicate (2 - utf16Length subIndex.toList) '0' ++ subIndex.toList)

/-! ## Case -/

theorem toLower_cases (c : Char) :
    c.toLower = c ∨ ∃ k < 26, c = Char.ofNat (65 + k) ∧ c.toLower = Char.ofNat (97 + k) := by
  have hupper : ∀ k < 26, (Char.ofNat (65 + k)).toLower = Char.ofNat (97 + k) := by decide
  by_cases h : 65 ≤ c.toNat ∧ c.toNat ≤ 90
  · have hc : Char.ofNat (65 + (c.toNat - 65)) = c := by rw [show 65 + (c.toNat - 65) = c.toNat by omega, Char.ofNat_toNat]
    have hlow := hupper (c.toNat - 65) (by omega)
    rw [hc] at hlow
    exact .inr ⟨c.toNat - 65, by omega, hc.symm, hlow⟩
  · refine .inl ?_
    refine dif_neg fun hr => h ⟨?_, ?_⟩
    · exact UInt32.le_iff_toNat_le.1 hr.1
    · exact UInt32.le_iff_toNat_le.1 hr.2

/-- What holds of the letters in both cases, and of what has no case, holds. -/
theorem toLower_ind {P : Char → Char → Prop} (hsame : ∀ c, P c c)
    (hletter : ∀ k < 26, P (Char.ofNat (65 + k)) (Char.ofNat (97 + k))) (c : Char) : P c c.toLower := by
  rcases toLower_cases c with h | ⟨k, hk, hc, hlow⟩
  · rw [h]
    exact hsame c
  · rw [hlow, hc]
    exact hletter k hk

theorem isSpace_toLower (c : Char) : isSpace c.toLower = isSpace c :=
  toLower_ind (P := fun c d => isSpace d = isSpace c) (fun _ => rfl) (by decide) c

theorem toLower_toLower (c : Char) : c.toLower.toLower = c.toLower := by
  have hlow : ∀ k < 26, (Char.ofNat (97 + k)).toLower = Char.ofNat (97 + k) := by decide
  rcases toLower_cases c with h | ⟨k, hk, -, h⟩
  · rw [h, h]
  · rw [h, hlow k hk]

theorem toLower_eq_iff {d : Char} (hd : ∀ k < 26, Char.ofNat (65 + k) ≠ d ∧ Char.ofNat (97 + k) ≠ d) (c : Char) :
    c.toLower = d ↔ c = d :=
  toLower_ind (P := fun c c' => c' = d ↔ c = d) (fun _ => Iff.rfl)
    (fun k hk => iff_of_false (hd k hk).2 (hd k hk).1) c

theorem toLower_x (c : Char) : c.toLower = 'x' ∨ c.toLower = 'X' ↔ c = 'x' ∨ c = 'X' :=
  toLower_ind (P := fun c c' => c' = 'x' ∨ c' = 'X' ↔ c = 'x' ∨ c = 'X') (fun _ => Iff.rfl) (by decide) c

theorem lower_lower (cs : List Char) : lower (lower cs) = lower cs := by
  simp [lower, List.map_map, Function.comp_def, toLower_toLower]

theorem lower_trim (cs : List Char) : trim (lower cs) = lower (trim cs) := by
  have hspace : isSpace ∘ Char.toLower = isSpace := funext isSpace_toLower
  simp only [trim, lower, List.dropWhile_map, hspace, ← List.map_reverse]

/-! ## Numbers in either case -/

theorem startsWith0x_cons (c d : Char) (cs : List Char) :
    startsWith0x (c :: d :: cs) = decide (c = '0' ∧ (d = 'x' ∨ d = 'X')) := by
  unfold startsWith0x
  split
  · rename_i h
    obtain ⟨rfl, rfl, rfl⟩ : c = '0' ∧ d = _ ∧ cs = _ := by simpa using h
    rw [Bool.eq_iff_iff]
    simp
  · rename_i h
    have hc : c ≠ '0' := fun hc => h d cs (by rw [hc])
    simp [hc]

theorem startsWith0x_lower_eq (cs : List Char) : startsWith0x (lower cs) = startsWith0x cs := by
  have hzero : ∀ c : Char, c.toLower = '0' ↔ c = '0' := toLower_eq_iff (by decide)
  cases cs with
  | nil => rfl
  | cons c cs =>
    cases cs with
    | nil => simp [lower, startsWith0x]
    | cons d cs =>
      simp only [lower, List.map_cons, startsWith0x_cons, hzero, toLower_x]

theorem skipPrefix_eq (cs : List Char) : skipPrefix 16 cs = if startsWith0x cs = true then cs.drop 2 else cs := by
  split
  · exact skipPrefix_of_startsWith0x ‹_›
  · rename_i h
    cases cs with
    | nil => rfl
    | cons c cs =>
      cases cs with
      | nil => simp [skipPrefix]
      | cons d cs =>
        rw [startsWith0x_cons, decide_eq_true_iff] at h
        unfold skipPrefix
        split
        · rename_i hl
          obtain ⟨rfl, rfl, rfl⟩ : c = '0' ∧ d = _ ∧ cs = _ := by simpa using hl
          rw [if_neg fun hx => h ⟨rfl, hx.2⟩]
        · rfl

theorem skipPlus_lower (cs : List Char) : skipPlus (lower cs) = lower (skipPlus cs) := by
  have hplus : ∀ c : Char, c.toLower = '+' ↔ c = '+' := toLower_eq_iff (by decide)
  cases cs with
  | nil => rfl
  | cons c cs =>
    by_cases h : c = '+'
    · rw [h]
      rfl
    · have h' : c.toLower ≠ '+' := fun hc => h ((hplus c).1 hc)
      simp [lower, skipPlus, h, h']

theorem magnitude_lower (cs : List Char) : magnitude 16 (lower cs) = magnitude 16 cs := by
  have hskip : skipPrefix 16 (lower cs) = lower (skipPrefix 16 cs) := by
    rw [skipPrefix_eq, skipPrefix_eq, startsWith0x_lower_eq]
    split
    · rw [lower, lower, List.map_drop]
    · rfl
  have hall : ∀ ds, (lower ds).all (isDigitOf 16) = ds.all (isDigitOf 16) := by
    intro ds
    have hdigit : isDigitOf 16 ∘ Char.toLower = isDigitOf 16 := by
      funext c
      simp [isDigitOf, digitVal_toLower]
    rw [lower, List.all_map, hdigit]
  have hval : ∀ ds, ofDigits 16 (lower ds) = ofDigits 16 ds := by
    intro ds
    simp [lower, ofDigits, List.foldl_map, digitVal_toLower]
  have hempty : ∀ ds, (lower ds).isEmpty = ds.isEmpty := by
    intro ds
    simp [lower]
  simp only [magnitude, hskip, hall, hval, hempty]

theorem toULongLong_lower (cs : List Char) : toULongLong 16 (lower cs) = toULongLong 16 cs := by
  rw [toULongLong, toULongLong, toUnsigned, toUnsigned, lower_trim, skipPlus_lower, magnitude_lower]

/-! ## Normal forms -/

theorem normalizeHexText_lower (cs : List Char) (minimumDigits : Nat) :
    normalizeHexText (lower cs) minimumDigits = normalizeHexText cs minimumDigits := by
  have hdigits : (if startsWith0x (lower (trim cs)) = true then (lower (trim cs)).drop 2 else lower (trim cs)) =
      lower (if startsWith0x (trim cs) = true then (trim cs).drop 2 else trim cs) := by
    rw [startsWith0x_lower_eq]
    split
    · rw [lower, lower, List.map_drop]
    · rfl
  have hempty : (lower (trim cs)).isEmpty = (trim cs).isEmpty := by simp [lower]
  unfold normalizeHexText
  simp only [lower_trim, hdigits, toULongLong_lower, lower_lower, hempty]
  split
  · rename_i h
    rw [List.isEmpty_iff.1 h]
    rfl
  · rfl

/-- Two texts that differ in their case only are one address. -/
theorem normalizeHexText_of_lower {a b : List Char} (h : lower a = lower b) (minimumDigits : Nat) :
    normalizeHexText a minimumDigits = normalizeHexText b minimumDigits := by
  rw [← normalizeHexText_lower a, h, normalizeHexText_lower]

/-- A number in base 16, with leading zeros. -/
def hexText (minimumDigits n : Nat) : List Char :=
  "0x".toList ++ (List.replicate (minimumDigits - (Nat.toDigits 16 n).length) '0' ++ Nat.toDigits 16 n)

theorem digitVal_hexText {minimumDigits n : Nat} {c : Char} (hc : c ∈ hexText minimumDigits n) : digitVal c < 36 := by
  simp only [hexText, List.mem_append, List.mem_replicate] at hc
  rcases hc with hc | ⟨-, rfl⟩ | hc
  · have hx : "0x".toList.all (isDigitOf 36) = true := by decide +kernel
    exact isDigitOf_iff.1 (List.all_eq_true.1 hx c hc)
  · decide
  · have hd := isDigitOf_iff.1 (isDigitOf_toDigits (by decide) (by decide) c hc)
    omega

theorem trim_hexText (minimumDigits n : Nat) : trim (hexText minimumDigits n) = hexText minimumDigits n := by
  apply trim_of_not_space
  intro c hc
  exact not_isSpace_of_digitVal (digitVal_hexText hc)

/-- The normal form is the lower case of the text, or of the number in it. -/
theorem normalizeHexText_cases (cs : List Char) (minimumDigits : Nat) :
    normalizeHexText cs minimumDigits = lower (trim cs) ∨
      ∃ n < 2 ^ 64, normalizeHexText cs minimumDigits = lower (hexText minimumDigits n) := by
  unfold normalizeHexText
  simp only
  split
  · rename_i h
    rw [List.isEmpty_iff.1 h]
    exact .inl rfl
  · split
    · exact .inl rfl
    · rename_i n hn
      have hlt : n < 2 ^ 64 := by simpa using (Option.filter_eq_some_iff.1 hn).2
      exact .inr ⟨n, hlt, rfl⟩

theorem normalizeHexText_hexText {n : Nat} (hn : n < 2 ^ 64) (minimumDigits : Nat) :
    normalizeHexText (hexText minimumDigits n) minimumDigits = lower (hexText minimumDigits n) := by
  have hdrop : (hexText minimumDigits n).drop 2 =
      List.replicate (minimumDigits - (Nat.toDigits 16 n).length) '0' ++ Nat.toDigits 16 n := rfl
  have hhex : ∀ c ∈ (hexText minimumDigits n).drop 2, isDigitOf 16 c = true := by
    intro c hc
    rw [hdrop, List.mem_append, List.mem_replicate] at hc
    rcases hc with ⟨-, rfl⟩ | hc
    · decide
    · exact isDigitOf_toDigits (by decide) (by decide) c hc
  have hdigits : toULongLong 16 ((hexText minimumDigits n).drop 2) = some n := by
    have hne : (hexText minimumDigits n).drop 2 ≠ [] := by
      rw [hdrop]
      simp [Nat.toDigits_ne_nil]
    rw [toULongLong, toUnsigned_digits (by decide) hne hhex, hdrop, ofDigits_zeros,
      ofDigits_toDigits (by decide) (by decide), if_pos hn]
  have hx : startsWith0x (hexText minimumDigits n) = true := rfl
  have hne : (hexText minimumDigits n).isEmpty = false := rfl
  unfold normalizeHexText
  simp only [trim_hexText, hx, hne, hdigits, if_true, Bool.false_eq_true, if_false]
  rfl

/-- **A normal form is its own normal form.** -/
theorem normalizeHexText_idem (cs : List Char) (minimumDigits : Nat) :
    normalizeHexText (normalizeHexText cs minimumDigits) minimumDigits = normalizeHexText cs minimumDigits := by
  rcases normalizeHexText_cases cs minimumDigits with h | ⟨n, hn, h⟩
  · calc normalizeHexText (normalizeHexText cs minimumDigits) minimumDigits
      _ = normalizeHexText (lower (trim cs)) minimumDigits := by rw [h]
      _ = normalizeHexText (trim cs) minimumDigits := normalizeHexText_lower _ _
      _ = normalizeHexText cs minimumDigits := normalizeHexText_congr (trim_trim cs) _
  · rw [h, normalizeHexText_lower, normalizeHexText_hexText hn]

theorem trim_normalizeHexText (cs : List Char) (minimumDigits : Nat) :
    trim (normalizeHexText cs minimumDigits) = normalizeHexText cs minimumDigits := by
  rcases normalizeHexText_cases cs minimumDigits with h | ⟨n, -, h⟩
  · rw [h, lower_trim, trim_trim]
  · rw [h, lower_trim, trim_hexText]

end NekoEcat.L4.SdoWrites
