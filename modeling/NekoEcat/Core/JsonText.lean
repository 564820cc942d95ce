import Mathlib.Data.List.TakeWhile
import NekoEcat.Core.Bytes

/-!
# JSON texts

A reader of JSON texts (RFC 8259) over UTF-8 bytes, and a scan that counts open
brackets outside strings. A string or a number of the tree is its text.

* `value_reads`: what a value is read from is balanced, and is read the same
  way in front of more text.
* `parse_scan`: a text that parses is balanced.
* `value_of_parse`: a text that parses, inside a larger one.
-/
namespace NekoEcat.JsonText
open NekoEcat.Bytes

inductive Json where
  | null
  | bool (b : Bool)
  | number (text : Bytes)
  | string (text : Bytes)
  | array (vs : List Json)
  | object (fs : List (Bytes × Json))
  deriving Repr

/-- The bytes of an ASCII literal. -/
def ascii (s : String) : Bytes := s.toList.map fun c => c.toNat.toUInt8

abbrev quote : UInt8 := 34
abbrev backslash : UInt8 := 92
abbrev comma : UInt8 := 44
abbrev colon : UInt8 := 58
abbrev openBrace : UInt8 := 123
abbrev closeBrace : UInt8 := 125
abbrev openBracket : UInt8 := 91
abbrev closeBracket : UInt8 := 93

/-- `ws = *( %x20 / %x09 / %x0A / %x0D )` -/
def isWs (b : UInt8) : Bool := b = 32 || b = 9 || b = 10 || b = 13

def skipWs (s : Bytes) : Bytes := s.dropWhile isWs

def isDigit (b : UInt8) : Bool := 48 ≤ b && b ≤ 57

/-- The bytes of literal names and numbers. -/
def isWord (b : UInt8) : Bool :=
  isDigit b || (97 ≤ b && b ≤ 122) || (65 ≤ b && b ≤ 90) || b = 43 || b = 45 || b = 46

/-! ## Scalars -/

/-- `exp = e [ minus / plus ] 1*DIGIT`, or nothing -/
def validExp : Bytes → Bool
  | [] => true
  | b :: s =>
    let digits := match s with
      | [] => []
      | sign :: s' => if sign = 43 || sign = 45 then s' else s
    (b = 101 || b = 69) && !digits.isEmpty && digits.all isDigit

/-- `frac = decimal-point 1*DIGIT`, or nothing, and what may follow it -/
def validFrac : Bytes → Bool
  | [] => true
  | b :: s =>
    if b = 46 then
      !(s.takeWhile isDigit).isEmpty && validExp (s.dropWhile isDigit)
    else validExp (b :: s)

/-- `number = [ minus ] int [ frac ] [ exp ]` -/
def validNumber (s : Bytes) : Bool :=
  let s := match s with
    | b :: s' => if b = 45 then s' else s
    | [] => []
  match s with
  | [] => false
  | b :: s' =>
    if b = 48 then validFrac s'
    else isDigit b && validFrac (s'.dropWhile isDigit)

def scalar (word : Bytes) : Option Json :=
  if word = ascii "null" then some .null
  else if word = ascii "true" then some (.bool true)
  else if word = ascii "false" then some (.bool false)
  else if validNumber word then some (.number word)
  else none

/-- `UTF8-tail = %x80-BF` -/
def isTail (b : UInt8) : Bool := 0x80 ≤ b && b ≤ 0xBF

def isHex (b : UInt8) : Bool := isDigit b || (97 ≤ b && b ≤ 102) || (65 ≤ b && b ≤ 70)

/-- No control character, well-formed escapes, well-formed UTF-8. -/
def validString : Bytes → Bool
  | [] => true
  | a :: s =>
    if a = backslash then
      match s with
      | [] => false
      | e :: s =>
        if e = 117 then
          match s with
          | h1 :: h2 :: h3 :: h4 :: s => isHex h1 && isHex h2 && isHex h3 && isHex h4 && validString s
          | _ => false
        else (ascii "\"\\/bfnrt").contains e && validString s
    else if a ≤ 0x7F then 0x20 ≤ a && validString s
    else
      match s with
      | [] => false
      | b :: s =>
        if 0xC2 ≤ a && a ≤ 0xDF then isTail b && validString s
        else
          match s with
          | [] => false
          | c :: s =>
            if 0xE0 ≤ a && a ≤ 0xEF then
              (if a = 0xE0 then 0xA0 ≤ b && b ≤ 0xBF else if a = 0xED then 0x80 ≤ b && b ≤ 0x9F else isTail b) &&
                isTail c && validString s
            else
              match s with
              | [] => false
              | d :: s =>
                0xF0 ≤ a && a ≤ 0xF4 &&
                  (if a = 0xF0 then 0x90 ≤ b && b ≤ 0xBF else if a = 0xF4 then 0x80 ≤ b && b ≤ 0x8F else isTail b) &&
                  isTail c && isTail d && validString s

/-- Up to the quote that ends a string: its text, and what follows the quote. -/
def untilQuote : Bytes → Option (Bytes × Bytes)
  | [] => none
  | b :: s =>
    if b = quote then some ([], s)
    else if b = backslash then
      match s with
      | [] => none
      | e :: s => (untilQuote s).map fun p => (b :: e :: p.1, p.2)
    else (untilQuote s).map fun p => (b :: p.1, p.2)

def string (s : Bytes) : Option (Bytes × Bytes) := (untilQuote s).filter fun p => validString p.1

/-! ## Values -/

/-- The next byte after white space has to be this one. -/
def token (b : UInt8) (s : Bytes) : Option Bytes :=
  match skipWs s with
  | [] => none
  | c :: r => if c = b then some r else none

/-- A name and its colon. -/
def name (s : Bytes) : Option (Bytes × Bytes) :=
  (token quote s).bind fun s => (string s).bind fun p => (token colon p.2).map fun r => (p.1, r)

/-- What follows a field or an element: more of them after a comma, or the
closing bracket. -/
def tail {α : Type} (close : UInt8) (more : Bytes → Option (List α × Bytes)) (s : Bytes) : Option (List α × Bytes) :=
  match skipWs s with
  | [] => none
  | c :: r => if c = comma then more r else if c = close then some ([], r) else none

/-- What follows an opening bracket. -/
def body {α : Type} (close : UInt8) (more : Bytes → Option (List α × Bytes)) (s : Bytes) : Option (List α × Bytes) :=
  match skipWs s with
  | [] => none
  | c :: r => if c = close then some ([], r) else more s

mutual

/-- A value, and what follows it. -/
def value : Nat → Bytes → Option (Json × Bytes)
  | 0, _ => none
  | n + 1, s =>
    match skipWs s with
    | [] => none
    | b :: s =>
      if b = quote then (string s).map fun p => (.string p.1, p.2)
      else if b = openBrace then (body closeBrace (members n) s).map fun p => (.object p.1, p.2)
      else if b = openBracket then (body closeBracket (elements n) s).map fun p => (.array p.1, p.2)
      else (scalar ((b :: s).takeWhile isWord)).map fun v => (v, (b :: s).dropWhile isWord)

/-- The fields of an object and its closing brace. -/
def members : Nat → Bytes → Option (List (Bytes × Json) × Bytes)
  | 0, _ => none
  | n + 1, s =>
    (name s).bind fun k => (value n k.2).bind fun v =>
      (tail closeBrace (members n) v.2).map fun p => ((k.1, v.1) :: p.1, p.2)

/-- The elements of an array and its closing bracket. -/
def elements : Nat → Bytes → Option (List Json × Bytes)
  | 0, _ => none
  | n + 1, s =>
    (value n s).bind fun v => (tail closeBracket (elements n) v.2).map fun p => (v.1 :: p.1, p.2)

end

/-- The value a text consists of. -/
def parse (s : Bytes) : Option Json :=
  (value (s.length + 1) s).bind fun p => if skipWs p.2 = [] then some p.1 else none

/-! ## The scan -/

/-- The open brackets outside strings, and whether a string or an escape is
open. -/
structure Scan where
  depth : Int
  quoted : Bool
  escaped : Bool
  deriving DecidableEq, Repr

/-- Outside strings, with `d` brackets open. -/
def out (d : Int) : Scan := ⟨d, false, false⟩

def Scan.step (st : Scan) (b : UInt8) : Scan :=
  if st.escaped then { st with escaped := false }
  else if st.quoted then
    if b = backslash then { st with escaped := true }
    else if b = quote then { st with quoted := false }
    else st
  else if b = quote then { st with quoted := true }
  else if b = openBrace ∨ b = openBracket then { st with depth := st.depth + 1 }
  else if b = closeBrace ∨ b = closeBracket then { st with depth := st.depth - 1 }
  else st

def scan (st : Scan) (s : Bytes) : Scan := s.foldl Scan.step st

/-- On the way at least `d` brackets are open. -/
def Above (d : Int) (st : Scan) : Bytes → Prop
  | [] => d ≤ st.depth
  | b :: s => d ≤ st.depth ∧ Above d (st.step b) s

@[simp] theorem scan_nil (st : Scan) : scan st [] = st := rfl

@[simp] theorem scan_cons (st : Scan) (b : UInt8) (s : Bytes) : scan st (b :: s) = scan (st.step b) s := rfl

theorem scan_append (st : Scan) (s t : Bytes) : scan st (s ++ t) = scan (scan st s) t := List.foldl_append

theorem Above.start {d : Int} {st : Scan} {s : Bytes} (h : Above d st s) : d ≤ st.depth := by
  cases s with
  | nil => exact h
  | cons b s => exact h.1

theorem above_append {d : Int} {s t : Bytes} : ∀ {st : Scan}, Above d st s → Above d (scan st s) t → Above d st (s ++ t) := by
  induction s with
  | nil => exact fun _ h => h
  | cons b s ih => exact fun h h' => ⟨h.1, ih h.2 h'⟩

theorem Above.mono {d d' : Int} {s : Bytes} (hd : d' ≤ d) : ∀ {st : Scan}, Above d st s → Above d' st s := by
  induction s with
  | nil => exact fun h => Int.le_trans hd h
  | cons b s ih => exact fun h => ⟨Int.le_trans hd h.1, ih h.2⟩

instance decidableAbove (d : Int) : ∀ (st : Scan) (s : Bytes), Decidable (Above d st s)
  | st, [] => inferInstanceAs (Decidable (d ≤ st.depth))
  | st, b :: s =>
    have := decidableAbove d (st.step b) s
    inferInstanceAs (Decidable (d ≤ st.depth ∧ Above d (st.step b) s))

theorem above_of_append {d : Int} {s t : Bytes} : ∀ {st : Scan}, Above d st (s ++ t) → Above d st s := by
  induction s with
  | nil => exact fun h => h.start
  | cons b s ih => exact fun h => ⟨h.1, ih h.2⟩

/-- One byte closes at most one bracket. -/
theorem Scan.le_step (st : Scan) (b : UInt8) : st.depth - 1 ≤ (st.step b).depth := by
  unfold Scan.step
  repeat' split
  all_goals
    try dsimp only
    omega

/-- A prefix is on the way. -/
theorem Above.scan_prefix {d : Int} {s t : Bytes} : ∀ {st : Scan}, Above d st (s ++ t) → d ≤ (scan st s).depth := by
  induction s with
  | nil => exact fun h => h.start
  | cons b s ih => exact fun h => ih h.2

/-- `k` brackets that were open are closed, no other one is. -/
def Falls (k : Nat) (c : Bytes) : Prop := ∀ d : Int, scan (out (d + k)) c = out d ∧ Above d (out (d + k)) c

theorem falls_nil : Falls 0 [] := fun d => ⟨by simp, by simp [Above, out]⟩

theorem Falls.append {j k : Nat} {a b : Bytes} (ha : Falls j a) (hb : Falls k b) : Falls (k + j) (a ++ b) := by
  intro d
  obtain ⟨h1, h2⟩ := ha (d + k)
  obtain ⟨h3, h4⟩ := hb d
  have hd : d + ((k + j : Nat) : Int) = d + k + j := by omega
  rw [hd, scan_append, h1]
  refine ⟨h3, above_append (h2.mono (by omega)) ?_⟩
  rw [h1]
  exact h4

/-- A byte that neither opens nor closes anything. -/
def plain (b : UInt8) : Bool :=
  b != quote && b != openBrace && b != closeBrace && b != openBracket && b != closeBracket

theorem step_plain {b : UInt8} (h : plain b = true) (d : Int) : (out d).step b = out d := by
  simp only [plain, Bool.and_eq_true, bne_iff_ne, ne_eq] at h
  simp [Scan.step, out, h]

theorem falls_plain {c : Bytes} (h : ∀ b ∈ c, plain b = true) : Falls 0 c := by
  induction c with
  | nil => exact falls_nil
  | cons b c ih =>
    intro d
    have hb := step_plain (h b List.mem_cons_self) d
    obtain ⟨h1, h2⟩ := ih (fun x hx => h x (List.mem_cons_of_mem b hx)) d
    simp only [Int.natCast_zero, Int.add_zero, scan_cons, Above, hb] at h1 h2 ⊢
    exact ⟨h1, Int.le_refl d, h2⟩

/-- An open bracket, and what closes it. -/
theorem Falls.bracket {b : UInt8} (hb : b = openBrace ∨ b = openBracket) {c : Bytes} (hc : Falls 1 c) :
    Falls 0 (b :: c) := by
  intro d
  have hstep : (out d).step b = out (d + 1) := by
    rcases hb with rfl | rfl <;> simp [Scan.step, out, quote, openBrace, openBracket]
  obtain ⟨h1, h2⟩ := hc d
  simp only [Int.natCast_zero, Int.add_zero, Int.natCast_one, scan_cons, Above, hstep] at h1 h2 ⊢
  exact ⟨h1, Int.le_refl d, h2⟩

theorem falls_close {b : UInt8} (hb : b = closeBrace ∨ b = closeBracket) : Falls 1 [b] := by
  intro d
  have hstep : (out (d + 1)).step b = out d := by
    rcases hb with rfl | rfl <;> simp [Scan.step, out, quote, openBrace, closeBrace, openBracket, closeBracket]
  simp only [Int.natCast_one, scan_cons, scan_nil, Above, hstep]
  exact ⟨trivial, by simp only [out]; omega, Int.le_refl d⟩

theorem Falls.cons_plain {k : Nat} {b : UInt8} {c : Bytes} (hb : plain b = true) (hc : Falls k c) : Falls k (b :: c) :=
  (falls_plain (c := [b]) (by simpa using hb)).append hc

/-! ## White space, names and words -/

theorem plain_of {p : UInt8 → Bool}
    (h : [quote, openBrace, closeBrace, openBracket, closeBracket].any p = false) {b : UInt8} (hb : p b = true) :
    plain b = true := by
  have hne : ∀ x ∈ [quote, openBrace, closeBrace, openBracket, closeBracket], b ≠ x := by
    rintro x hx rfl
    exact List.any_eq_false.1 h b hx hb
  simp only [List.mem_cons, List.not_mem_nil, or_false, ne_eq, forall_eq_or_imp, forall_eq] at hne
  simp [plain, hne]

theorem skipWs_falls (s : Bytes) : ∃ w, s = w ++ skipWs s ∧ Falls 0 w :=
  ⟨s.takeWhile isWs, List.takeWhile_append_dropWhile.symm,
    falls_plain fun _ hb => plain_of (by decide) (List.mem_takeWhile_imp hb)⟩

theorem skipWs_append {s : Bytes} {c : UInt8} {r : Bytes} (h : skipWs s = c :: r) (t : Bytes) :
    skipWs (s ++ t) = c :: (r ++ t) := by
  unfold skipWs at h ⊢
  rw [List.dropWhile_append, h]
  rfl

theorem untilQuote_quote (s : Bytes) : untilQuote (quote :: s) = some ([], s) := by
  rw [untilQuote.eq_def]
  exact if_pos rfl

theorem untilQuote_escape (e : UInt8) (s : Bytes) :
    untilQuote (backslash :: e :: s) = (untilQuote s).map fun p => (backslash :: e :: p.1, p.2) := by
  rw [untilQuote.eq_def]
  dsimp only
  rw [if_neg (by decide), if_pos rfl]

theorem untilQuote_other {b : UInt8} (hq : b ≠ quote) (hb : b ≠ backslash) (s : Bytes) :
    untilQuote (b :: s) = (untilQuote s).map fun p => (b :: p.1, p.2) := by
  rw [untilQuote.eq_def]
  dsimp only
  rw [if_neg hq, if_neg hb]

/-- The text of a string with its closing quote. -/
theorem untilQuote_reads {s raw r : Bytes} (h : untilQuote s = some (raw, r)) :
    s = raw ++ quote :: r ∧
    (∀ d : Int, scan ⟨d, true, false⟩ (raw ++ [quote]) = out d ∧ Above d ⟨d, true, false⟩ (raw ++ [quote])) ∧
    ∀ t, untilQuote (s ++ t) = some (raw, r ++ t) := by
  induction s using untilQuote.induct generalizing raw with
  | case1 => cases h
  | case2 s =>
    rw [untilQuote_quote] at h
    cases h
    refine ⟨rfl, fun d => ⟨by simp [Scan.step, out, quote, backslash], ?_⟩, fun t => untilQuote_quote _⟩
    simp [Scan.step, Above, quote, backslash]
  | case3 hq =>
    rw [untilQuote.eq_def] at h
    cases h
  | case4 e s hq ih =>
    rw [untilQuote_escape] at h
    simp only [Option.map_eq_some_iff, Prod.mk.injEq, Prod.exists] at h
    obtain ⟨raw', r', hs, rfl, rfl⟩ := h
    obtain ⟨h1, h2, h3⟩ := ih hs
    refine ⟨by rw [h1]; rfl, fun d => ?_, fun t => ?_⟩
    · simpa [Scan.step, Above, quote, backslash] using h2 d
    · rw [List.cons_append, List.cons_append, untilQuote_escape, h3 t]
      rfl
  | case5 b s hq hb ih =>
    rw [untilQuote_other hq hb] at h
    simp only [Option.map_eq_some_iff, Prod.mk.injEq, Prod.exists] at h
    obtain ⟨raw', r', hs, rfl, rfl⟩ := h
    obtain ⟨h1, h2, h3⟩ := ih hs
    refine ⟨by rw [h1]; rfl, fun d => ?_, fun t => ?_⟩
    · simpa [Scan.step, Above, hq, hb] using h2 d
    · rw [List.cons_append, untilQuote_other hq hb, h3 t]
      rfl

/-- A quoted string is balanced, and is read the same way in front of more
text. -/
theorem string_reads {s raw r : Bytes} (h : string s = some (raw, r)) :
    (∃ c, s = c ++ r ∧ Falls 0 (quote :: c)) ∧ ∀ t, string (s ++ t) = some (raw, r ++ t) := by
  simp only [string, Option.filter_eq_some_iff] at h ⊢
  obtain ⟨h1, h2, h3⟩ := untilQuote_reads h.1
  refine ⟨⟨raw ++ [quote], by rw [h1, List.append_assoc]; rfl, fun d => ?_⟩, fun t => ⟨h3 t, h.2⟩⟩
  obtain ⟨h4, h5⟩ := h2 d
  simpa [Scan.step, Above, out] using And.intro h4 h5

theorem token_reads {b : UInt8} {s r : Bytes} (h : token b s = some r) :
    (∃ w, s = w ++ b :: r ∧ Falls 0 w) ∧ ∀ t, token b (s ++ t) = some (r ++ t) := by
  unfold token at h ⊢
  obtain ⟨w, hw, hf⟩ := skipWs_falls s
  cases hs : skipWs s with
  | nil => rw [hs] at h; cases h
  | cons c r' =>
    rw [hs] at h hw
    dsimp only at h
    split at h
    · rename_i hc
      cases h
      subst hc
      refine ⟨⟨w, hw, hf⟩, fun t => ?_⟩
      rw [skipWs_append hs t]
      exact if_pos rfl
    · cases h

theorem name_reads {s k r : Bytes} (h : name s = some (k, r)) :
    (∃ c, s = c ++ r ∧ Falls 0 c) ∧ ∀ t, name (s ++ t) = some (k, r ++ t) := by
  simp only [name, Option.bind_eq_some_iff, Option.map_eq_some_iff, Prod.mk.injEq, Prod.exists] at h
  obtain ⟨s1, h1, k', s2, h2, s3, h3, rfl, rfl⟩ := h
  obtain ⟨⟨w1, e1, f1⟩, t1⟩ := token_reads h1
  obtain ⟨⟨c2, e2, f2⟩, t2⟩ := string_reads h2
  obtain ⟨⟨w3, e3, f3⟩, t3⟩ := token_reads h3
  refine ⟨⟨w1 ++ ((quote :: c2) ++ (w3 ++ [colon])), by rw [e1, e2, e3]; simp, ?_⟩, fun t => ?_⟩
  · exact f1.append (f2.append (f3.append (falls_plain (List.all_eq_true.1 (by decide)))))
  · simp [name, t1 t, t2 t, t3 t]

/-- Nothing that would go on with a number or a literal name. -/
def Delim (t : Bytes) : Prop := ∀ b ∈ t.head?, isWord b = false

theorem word_append (s : Bytes) {t : Bytes} (ht : Delim t) :
    (s ++ t).takeWhile isWord = s.takeWhile isWord ∧ (s ++ t).dropWhile isWord = s.dropWhile isWord ++ t := by
  induction s with
  | nil =>
    cases t with
    | nil => exact ⟨rfl, rfl⟩
    | cons b t => simp [ht b rfl]
  | cons b s ih =>
    by_cases hb : isWord b = true
    · simp [hb, ih]
    · simp [hb]

/-! ## Values -/

/-- Whatever the fuel from `n` on, what is read closes `k` brackets and is read
the same way in front of more text. -/
def Reads {α : Type} (k : Nat) (p : Nat → Bytes → Option (α × Bytes)) (n : Nat) : Prop :=
  ∀ s a r, p n s = some (a, r) →
    (∃ c, s = c ++ r ∧ Falls k c) ∧ ∀ m, n ≤ m → ∀ t, Delim t → p m (s ++ t) = some (a, r ++ t)

/-- A fuel for a step, and what is left of it. -/
theorem fuel_step {n m : Nat} (h : n + 1 ≤ m) : ∃ m', m = m' + 1 ∧ n ≤ m' := ⟨m - 1, by omega, by omega⟩

theorem tail_reads {α : Type} {close : UInt8} (hclose : close = closeBrace ∨ close = closeBracket)
    {more : Nat → Bytes → Option (List α × Bytes)} {n : Nat} (hm : Reads 1 more n) :
    Reads 1 (fun m => tail close (more m)) n := by
  intro s as r h
  obtain ⟨w, ew, fw⟩ := skipWs_falls s
  dsimp only [tail] at h ⊢
  cases hs : skipWs s with
  | nil => rw [hs] at h; cases h
  | cons b s' =>
    have hskip := skipWs_append hs
    rw [hs] at h ew
    dsimp only at h
    by_cases hb : b = comma
    · rw [if_pos hb] at h
      obtain ⟨⟨c, e, f⟩, t1⟩ := hm _ _ _ h
      refine ⟨⟨w ++ b :: c, by rw [ew, e]; simp, fw.append (f.cons_plain (hb ▸ by decide))⟩, fun m hnm t ht => ?_⟩
      simp only [hskip t]
      rw [if_pos hb, t1 m hnm t ht]
    · rw [if_neg hb] at h
      by_cases hc : b = close
      · rw [if_pos hc] at h
        cases h
        refine ⟨⟨w ++ [b], by rw [ew]; simp, fw.append (falls_close (hc ▸ hclose))⟩, fun m hnm t ht => ?_⟩
        simp only [hskip t]
        rw [if_neg hb, if_pos hc]
      · rw [if_neg hc] at h
        cases h

theorem members_reads {n : Nat} (hv : Reads 0 value n) (hm : Reads 1 members n) : Reads 1 members (n + 1) := by
  intro s fs r h
  simp only [members, Option.bind_eq_some_iff, Option.map_eq_some_iff, Prod.mk.injEq, Prod.exists] at h
  obtain ⟨k, s1, hk, v, s2, hval, fs', r', htail, rfl, rfl⟩ := h
  obtain ⟨⟨c1, e1, f1⟩, t1⟩ := name_reads hk
  obtain ⟨⟨c2, e2, f2⟩, t2⟩ := hv _ _ _ hval
  obtain ⟨⟨c3, e3, f3⟩, t3⟩ := tail_reads (.inl rfl) hm _ _ _ htail
  refine ⟨⟨c1 ++ (c2 ++ c3), by rw [e1, e2, e3]; simp, f1.append (f2.append f3)⟩, fun m hnm t ht => ?_⟩
  obtain ⟨m, rfl, hm'⟩ := fuel_step hnm
  simp only [members, t1 t, Option.bind_some, t2 m hm' t ht, t3 m hm' t ht, Option.map_some]

theorem elements_reads {n : Nat} (hv : Reads 0 value n) (he : Reads 1 elements n) : Reads 1 elements (n + 1) := by
  intro s vs r h
  simp only [elements, Option.bind_eq_some_iff, Option.map_eq_some_iff, Prod.mk.injEq, Prod.exists] at h
  obtain ⟨v, s2, hval, vs', r', htail, rfl, rfl⟩ := h
  obtain ⟨⟨c2, e2, f2⟩, t2⟩ := hv _ _ _ hval
  obtain ⟨⟨c3, e3, f3⟩, t3⟩ := tail_reads (.inr rfl) he _ _ _ htail
  refine ⟨⟨c2 ++ c3, by rw [e2, e3]; simp, f2.append f3⟩, fun m hnm t ht => ?_⟩
  obtain ⟨m, rfl, hm'⟩ := fuel_step hnm
  simp only [elements, t2 m hm' t ht, Option.bind_some, t3 m hm' t ht, Option.map_some]

theorem body_reads {α : Type} {close : UInt8} (hclose : close = closeBrace ∨ close = closeBracket)
    {more : Nat → Bytes → Option (List α × Bytes)} {n : Nat} (hm : Reads 1 more n) :
    Reads 1 (fun m => body close (more m)) n := by
  intro s as r h
  obtain ⟨w, ew, fw⟩ := skipWs_falls s
  dsimp only [body] at h ⊢
  cases hs : skipWs s with
  | nil => rw [hs] at h; cases h
  | cons c s' =>
    have hskip := skipWs_append hs
    rw [hs] at h ew
    dsimp only at h
    simp only [hskip]
    by_cases hc : c = close
    · rw [if_pos hc] at h
      cases h
      refine ⟨⟨w ++ [c], by rw [ew]; simp, fw.append (falls_close (hc ▸ hclose))⟩, fun m hnm t ht => ?_⟩
      rw [if_pos hc]
    · rw [if_neg hc] at h
      obtain ⟨hfalls, ht⟩ := hm _ _ _ h
      refine ⟨hfalls, fun m hnm t hd => ?_⟩
      rw [if_neg hc]
      exact ht m hnm t hd

theorem value_reads_succ {n : Nat} (hm : Reads 1 members n) (he : Reads 1 elements n) : Reads 0 value (n + 1) := by
  intro s v r h
  obtain ⟨w, ew, fw⟩ := skipWs_falls s
  simp only [value] at h
  cases hs : skipWs s with
  | nil => rw [hs] at h; cases h
  | cons b s' =>
    have hskip := skipWs_append hs
    rw [hs] at h ew
    dsimp only at h
    -- what follows the white space decides
    suffices hsuff : (∃ c, b :: s' = c ++ r ∧ Falls 0 c) ∧ ∀ m, n ≤ m → ∀ t, Delim t →
        value (m + 1) (s ++ t) = some (v, r ++ t) by
      obtain ⟨⟨c, e, f⟩, ht⟩ := hsuff
      refine ⟨⟨w ++ c, by rw [ew, e]; simp, fw.append f⟩, fun m hnm => ?_⟩
      obtain ⟨m, rfl, hm'⟩ := fuel_step hnm
      exact ht m hm'
    simp only [value, hskip]
    by_cases hq : b = quote
    · rw [if_pos hq] at h
      simp only [Option.map_eq_some_iff, Prod.mk.injEq, Prod.exists] at h
      obtain ⟨raw, r', hstr, rfl, rfl⟩ := h
      obtain ⟨⟨c, e, f⟩, ht⟩ := string_reads hstr
      refine ⟨⟨b :: c, by rw [e]; rfl, hq ▸ f⟩, fun m hnm t _ => ?_⟩
      rw [if_pos hq, ht t]
      rfl
    rw [if_neg hq] at h
    by_cases hb : b = openBrace
    · rw [if_pos hb] at h
      simp only [Option.map_eq_some_iff, Prod.mk.injEq, Prod.exists] at h
      obtain ⟨fs, r', hbody, rfl, rfl⟩ := h
      obtain ⟨⟨c, e, f⟩, ht⟩ := body_reads (.inl rfl) hm _ _ _ hbody
      refine ⟨⟨b :: c, by rw [e]; rfl, f.bracket (.inl hb)⟩, fun m hnm t hd => ?_⟩
      rw [if_neg hq, if_pos hb]
      exact congrArg _ (ht m hnm t hd)
    rw [if_neg hb] at h
    by_cases hk : b = openBracket
    · rw [if_pos hk] at h
      simp only [Option.map_eq_some_iff, Prod.mk.injEq, Prod.exists] at h
      obtain ⟨vs, r', hbody, rfl, rfl⟩ := h
      obtain ⟨⟨c, e, f⟩, ht⟩ := body_reads (.inr rfl) he _ _ _ hbody
      refine ⟨⟨b :: c, by rw [e]; rfl, f.bracket (.inr hk)⟩, fun m hnm t hd => ?_⟩
      rw [if_neg hq, if_neg hb, if_pos hk]
      exact congrArg _ (ht m hnm t hd)
    · rw [if_neg hk] at h
      simp only [Option.map_eq_some_iff, Prod.mk.injEq] at h
      obtain ⟨v', hscalar, rfl, rfl⟩ := h
      refine ⟨⟨(b :: s').takeWhile isWord, List.takeWhile_append_dropWhile.symm,
        falls_plain fun x hx => plain_of (by decide) (List.mem_takeWhile_imp hx)⟩, fun m _ t hd => ?_⟩
      obtain ⟨h1, h2⟩ := word_append (b :: s') hd
      rw [List.cons_append] at h1 h2
      rw [if_neg hq, if_neg hb, if_neg hk, h1, h2, hscalar]
      rfl

/-- **What a value is read from is balanced**, and is read the same way in
front of more text. -/
theorem value_reads (n : Nat) : Reads 0 value n ∧ Reads 1 members n ∧ Reads 1 elements n := by
  induction n with
  | zero => exact ⟨fun _ _ _ h => by simp [value] at h, fun _ _ _ h => by simp [members] at h,
      fun _ _ _ h => by simp [elements] at h⟩
  | succ n ih =>
    obtain ⟨hv, hm, he⟩ := ih
    exact ⟨value_reads_succ hm he, members_reads hv hm, elements_reads hv he⟩

theorem parse_eq_some {s : Bytes} {v : Json} :
    parse s = some v ↔ ∃ r, value (s.length + 1) s = some (v, r) ∧ skipWs r = [] := by
  simp only [parse, Option.bind_eq_some_iff, Prod.exists, Option.ite_none_right_eq_some, Option.some.injEq]
  constructor
  · rintro ⟨v', r, h, hr, rfl⟩
    exact ⟨r, h, hr⟩
  · rintro ⟨r, h, hr⟩
    exact ⟨v, r, h, hr, rfl⟩

/-- **A text that parses is balanced.** -/
theorem parse_scan {s : Bytes} {v : Json} (h : parse s = some v) : Falls 0 s := by
  obtain ⟨r, hval, hr⟩ := parse_eq_some.1 h
  obtain ⟨⟨c, e, f⟩, -⟩ := (value_reads _).1 _ _ _ hval
  obtain ⟨w, ew, fw⟩ := skipWs_falls r
  rw [hr, List.append_nil] at ew
  rw [e, ew]
  exact f.append fw

/-- What starts with a bracket that stays open is no text. -/
theorem parse_eq_none {b : UInt8} {s : Bytes} (h : 1 ≤ (scan (out 0) (b :: s)).depth) : parse (b :: s) = none := by
  cases hp : parse (b :: s) with
  | none => rfl
  | some v =>
    have hscan := (parse_scan hp 0).1
    rw [Int.natCast_zero, Int.add_zero] at hscan
    rw [hscan] at h
    exact absurd h (by decide)

/-- A text of plain characters is a string up to its quote. -/
theorem string_key {k : Bytes} (h : ∀ b ∈ k, 0x20 ≤ b ∧ b ≤ 0x7F ∧ b ≠ quote ∧ b ≠ backslash) :
    string (k ++ [quote]) = some (k, []) := by
  have hboth : untilQuote (k ++ [quote]) = some (k, []) ∧ validString k = true := by
    induction k with
    | nil => exact ⟨untilQuote_quote [], rfl⟩
    | cons b k ih =>
      obtain ⟨hlow, hhigh, hquote, hback⟩ := h b List.mem_cons_self
      obtain ⟨huntil, hvalid⟩ := ih fun x hx => h x (List.mem_cons_of_mem b hx)
      refine ⟨?_, ?_⟩
      · rw [List.cons_append, untilQuote_other hquote hback, huntil, Option.map_some]
      · rw [validString.eq_def]
        simp [hback, hhigh, hlow, hvalid]
  rw [string, hboth.1]
  simp [Option.filter, hboth.2]

/-- A string whose closing quote is the first one is read in front of any
text. -/
theorem string_append {k : Bytes} (h : string (k ++ [quote]) = some (k, [])) (t : Bytes) :
    string (k ++ quote :: t) = some (k, t) := by
  have ht := (string_reads h).2 t
  rwa [List.append_assoc] at ht

theorem name_append {k : Bytes} (h : string (k ++ [quote]) = some (k, [])) (t : Bytes) :
    name (quote :: (k ++ quote :: colon :: t)) = some (k, t) := by
  have h1 : skipWs (quote :: (k ++ quote :: colon :: t)) = quote :: (k ++ quote :: colon :: t) := rfl
  have h2 : skipWs (colon :: t) = colon :: t := rfl
  simp [name, token, h1, h2, string_append h]

theorem value_string {k : Bytes} (h : string (k ++ [quote]) = some (k, [])) (n : Nat) (t : Bytes) :
    value (n + 1) (quote :: (k ++ quote :: t)) = some (.string k, t) := by
  have h1 : skipWs (quote :: (k ++ quote :: t)) = quote :: (k ++ quote :: t) := rfl
  simp [value, h1, string_append h]

theorem members_cons {n : Nat} {s s1 s2 s3 r k : Bytes} {v : Json} {fs : List (Bytes × Json)} (hk : name s = some (k, s1))
    (hv : value n s1 = some (v, s2)) (hs : skipWs s2 = comma :: s3) (hm : members n s3 = some (fs, r)) :
    members (n + 1) s = some ((k, v) :: fs, r) := by
  simp [members, hk, hv, tail, hs, hm]

theorem members_last {n : Nat} {s s1 s2 r k : Bytes} {v : Json} (hk : name s = some (k, s1))
    (hv : value n s1 = some (v, s2)) (hs : skipWs s2 = closeBrace :: r) :
    members (n + 1) s = some ([(k, v)], r) := by
  have hne : closeBrace ≠ comma := by decide
  simp [members, hk, hv, tail, hs, hne]

theorem value_object {n : Nat} {s s' r : Bytes} {fs : List (Bytes × Json)} (hm : members n (quote :: s) = some (fs, r))
    (hs : skipWs s' = openBrace :: quote :: s) : value (n + 1) s' = some (.object fs, r) := by
  have h1 : openBrace ≠ quote := by decide
  have h2 : skipWs (quote :: s) = quote :: s := rfl
  have h3 : quote ≠ closeBrace := by decide
  simp [value, hs, body, h1, h2, h3, hm]

/-- **A text that parses, inside a larger one.** -/
theorem value_of_parse {s : Bytes} {v : Json} (h : parse s = some v) {n : Nat} (hn : s.length < n) {t : Bytes}
    (ht : Delim t) : ∃ w, skipWs w = [] ∧ value n (s ++ t) = some (v, w ++ t) := by
  obtain ⟨r, hval, hr⟩ := parse_eq_some.1 h
  exact ⟨r, hr, ((value_reads _).1 _ _ _ hval).2 n hn t ht⟩

end NekoEcat.JsonText
