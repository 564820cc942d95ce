import Mathlib.Algebra.Order.Ring.Int
import Mathlib.Data.List.Basic

/-!
# C text scanning

`strstr` and the `sscanf` conversions of a hand-written scanner. A C text is
the list of its characters and a pointer into it is the suffix it points to,
so of two pointers into one text the later one is the shorter suffix. A
conversion that matches nothing returns `none` and leaves its argument alone.

* `strstr_append`: a prefix in which no match starts is skipped.
* `strstr_char`, `strstr_char_eq_none`: the search for one character.
* `scanUnsigned_toDigits`: decimal digits are read back, reduced to the width.
* `scanUnsigned_neg`: a printed negative number is read back modulo the width.
-/
namespace NekoEcat.CScan

/-- `strstr(hay, needle)` -/
def strstr (needle : List Char) : List Char → Option (List Char)
  | [] => if needle.isEmpty then some [] else none
  | c :: cs => if needle.isPrefixOf (c :: cs) then some (c :: cs) else strstr needle cs

/-- `isspace` -/
def isSpace (c : Char) : Bool := c == ' ' || (0x09 ≤ c.toNat && c.toNat ≤ 0x0d)

/-- The optional sign of `strtoul`. -/
def scanSign : List Char → Bool × List Char
  | '-' :: cs => (true, cs)
  | '+' :: cs => (false, cs)
  | cs => (false, cs)

/-- `strtoul` on 64 bits: saturating, a negative number wraps. -/
def toULong (neg : Bool) (v : Nat) : Nat :=
  if v ≥ 2 ^ 64 then 2 ^ 64 - 1 else if neg then (2 ^ 64 - v) % 2 ^ 64 else v

/-- `sscanf(s, "%u", &v)` and its `%hu`, `%hhu` forms, for a `v` of `w` bits. -/
def scanUnsigned (w : Nat) (s : List Char) : Option Nat :=
  let (neg, s) := scanSign (s.dropWhile isSpace)
  let ds := s.takeWhile Char.isDigit
  if ds.isEmpty then none else some (toULong neg (Nat.ofDigitChars 10 ds 0) % 2 ^ w)

/-- `sscanf(s, "%<n>[^\"]", v)` -/
def scanUntilQuote (n : Nat) (s : List Char) : Option (List Char) :=
  let cs := (s.takeWhile (· != '"')).take n
  if cs.isEmpty then none else some cs

/-! ## Searching -/

theorem strstr_cons_skip {needle : List Char} {c : Char} {cs : List Char}
    (h : ¬ needle <+: c :: cs) : strstr needle (c :: cs) = strstr needle cs := by
  rw [strstr, if_neg (mt List.isPrefixOf_iff_prefix.1 h)]

theorem strstr_start {needle s : List Char} (h : needle <+: s) : strstr needle s = some s := by
  cases s with
  | nil => rw [List.prefix_nil.1 h]; rfl
  | cons c cs => rw [strstr, if_pos (List.isPrefixOf_iff_prefix.2 h)]

/-- Nothing is skipped over that starts with the needle's first character. -/
theorem strstr_append {x : Char} {needle : List Char} : ∀ {a : List Char} (b : List Char), x ∉ a →
    strstr (x :: needle) (a ++ b) = strstr (x :: needle) b
  | [], _, _ => rfl
  | c :: a, b, h => by
    rw [List.cons_append, strstr_cons_skip, strstr_append b fun hm => h (List.mem_cons_of_mem _ hm)]
    rintro hp
    exact h (List.mem_cons.2 (.inl (List.cons_prefix_cons.1 hp).1))

theorem strstr_char {x : Char} {a : List Char} (b : List Char) (h : x ∉ a) :
    strstr [x] (a ++ x :: b) = some (x :: b) := by
  rw [strstr_append _ h, strstr_start (by simp)]

theorem strstr_char_eq_none {x : Char} {a : List Char} (h : x ∉ a) : strstr [x] a = none := by
  have hs : strstr [x] (a ++ []) = strstr [x] [] := strstr_append [] h
  rw [List.append_nil] at hs
  rw [hs]; rfl

/-- What `strstr` finds is a suffix that starts with the needle. -/
theorem strstr_some {needle s t : List Char} (h : strstr needle s = some t) :
    needle <+: t ∧ t <:+ s := by
  induction s with
  | nil =>
    rw [strstr] at h
    split at h
    · rename_i hn
      cases h
      rw [List.isEmpty_iff.1 hn]
      exact ⟨List.prefix_rfl, List.suffix_rfl⟩
    · cases h
  | cons c cs ih =>
    rw [strstr] at h
    split at h
    · cases h
      exact ⟨List.isPrefixOf_iff_prefix.1 ‹_›, List.suffix_rfl⟩
    · exact ⟨(ih h).1, (ih h).2.trans (List.suffix_cons c cs)⟩

/-- A longer needle is found where the shorter one is, if it is there. -/
theorem strstr_extend {needle x : List Char} : ∀ {s t : List Char}, strstr needle s = some t →
    needle ++ x <+: t → strstr (needle ++ x) s = some t
  | [], t, h, hx => by
    have ht : t = [] := List.suffix_nil.1 (strstr_some h).2
    subst ht
    exact strstr_start hx
  | c :: cs, t, h, hx => by
    rw [strstr] at h
    split at h
    · cases h
      exact strstr_start hx
    · rename_i hn
      rw [strstr_cons_skip, strstr_extend h hx]
      exact fun hp => hn (List.isPrefixOf_iff_prefix.2 ((List.prefix_append _ _).trans hp))

/-- What is found in a text is found in a longer one. -/
theorem strstr_append_some {needle a t : List Char} (b : List Char) (h : strstr needle a = some t) :
    strstr needle (a ++ b) = some (t ++ b) := by
  induction a with
  | nil =>
    have ht : t = [] := List.suffix_nil.1 (strstr_some h).2
    have hn : needle = [] := List.prefix_nil.1 (ht ▸ (strstr_some h).1)
    rw [hn, ht]
    exact strstr_start List.nil_prefix
  | cons c a ih =>
    rw [strstr] at h
    split at h
    · rename_i hp
      cases h
      exact strstr_start ((List.isPrefixOf_iff_prefix.1 hp).trans (List.prefix_append _ _))
    · rename_i hp
      rw [List.cons_append, strstr_cons_skip, ih h]
      intro hp'
      have hle : needle.length ≤ (c :: a).length := by
        have := (strstr_some h).1.length_le
        have := (strstr_some h).2.length_le
        simp only [List.length_cons]
        omega
      rw [← List.cons_append] at hp'
      exact hp (List.isPrefixOf_iff_prefix.2 (List.prefix_of_prefix_length_le hp' (List.prefix_append _ _) hle))

/-- A text that contains the needle is searched no further than that. -/
theorem strstr_infix (needle p q : List Char) :
    ∃ t, strstr needle (p ++ (needle ++ q)) = some t ∧ (needle ++ q).length ≤ t.length := by
  induction p with
  | nil => exact ⟨_, strstr_start (List.prefix_append _ _), Nat.le_refl _⟩
  | cons c p ih =>
    rw [List.cons_append, strstr]
    split
    · exact ⟨_, rfl, by simp only [List.length_cons, List.length_append]; omega⟩
    · exact ih

/-! ## Numbers -/

theorem isDigit_toDigits {n : Nat} {c : Char} (h : c ∈ Nat.toDigits 10 n) : c.isDigit = true :=
  Nat.isDigit_of_mem_toDigits (by decide) (by decide) h

theorem not_isSpace_of_isDigit {c : Char} (h : c.isDigit = true) : isSpace c = false := by
  have hc : c ≠ ' ' := by rintro rfl; exact absurd h (by decide)
  simp only [Char.isDigit, Bool.and_eq_true, decide_eq_true_eq] at h
  have h1 : (48 : Nat) ≤ c.toNat := h.1
  simp only [isSpace, Bool.or_eq_false_iff, beq_eq_false_iff_ne, Bool.and_eq_false_iff,
    decide_eq_false_iff_not]
  exact ⟨hc, .inr (by omega)⟩

/-- The digits of a decimal text, up to the first other character. -/
theorem takeWhile_toDigits {n : Nat} {c : Char} {cs : List Char} (hc : c.isDigit = false) :
    (Nat.toDigits 10 n ++ c :: cs).takeWhile Char.isDigit = Nat.toDigits 10 n := by
  rw [List.takeWhile_append_of_pos fun _ => isDigit_toDigits,
    List.takeWhile_cons_of_neg (by simp [hc]), List.append_nil]

theorem scanSign_toDigits (n : Nat) (cs : List Char) :
    scanSign ((Nat.toDigits 10 n ++ cs).dropWhile isSpace) = (false, Nat.toDigits 10 n ++ cs) := by
  have hd : ∀ c ∈ Nat.toDigits 10 n, c.isDigit = true := fun _ => isDigit_toDigits
  cases h : Nat.toDigits 10 n with
  | nil => exact absurd h Nat.toDigits_ne_nil
  | cons d ds =>
    have hdig : d.isDigit = true := hd d (by rw [h]; exact List.mem_cons_self)
    rw [List.cons_append, List.dropWhile_cons_of_neg (by simp [not_isSpace_of_isDigit hdig]), scanSign]
    · intro _ he; cases he; exact absurd hdig (by decide)
    · intro _ he; cases he; exact absurd hdig (by decide)

/-- **Decimal round trip**: printed digits are read back, cut to the width. -/
theorem scanUnsigned_toDigits {w n : Nat} {c : Char} {cs : List Char} (hn : n < 2 ^ 64)
    (hc : c.isDigit = false) :
    scanUnsigned w (Nat.toDigits 10 n ++ c :: cs) = some (n % 2 ^ w) := by
  unfold scanUnsigned
  simp only [scanSign_toDigits, takeWhile_toDigits hc, Nat.ofDigitChars_ten_toDigits]
  rw [if_neg (by simp [Nat.toDigits_ne_nil]), toULong, if_neg (by omega)]
  rfl

/-- **Signed round trip**: a printed `-n` is read back as `2^64 - n`, cut to the
width. -/
theorem scanUnsigned_neg {w n : Nat} {c : Char} {cs : List Char} (hn : n < 2 ^ 64)
    (hc : c.isDigit = false) :
    scanUnsigned w ('-' :: Nat.toDigits 10 n ++ c :: cs) = some ((2 ^ 64 - n) % 2 ^ 64 % 2 ^ w) := by
  have hs : scanSign (('-' :: Nat.toDigits 10 n ++ c :: cs).dropWhile isSpace) =
      (true, Nat.toDigits 10 n ++ c :: cs) := rfl
  unfold scanUnsigned
  simp only [hs, takeWhile_toDigits hc, Nat.ofDigitChars_ten_toDigits]
  rw [if_neg (by simp [Nat.toDigits_ne_nil]), toULong, if_neg (by omega)]
  rfl

end NekoEcat.CScan
