import NekoEcat.Core.CScan

/-!
# JSON values as `QJsonDocument` writes them

Qt's JSON values, objects with their sorted keys, the accessors with their
defaults, the compact serialisation, and what a `strstr` for `"key":` finds in
a serialised object. A number that is no integer is its printed text.

* `contains_insert`, `value_insert`: an inserted key is there, others stay.
* `strstr_string`: the search for a key finds nothing inside a string value,
  whatever the string holds.
* `strstr_compactFields`: in an object of scalars the search for a key finds
  that key's own field.
-/
namespace NekoEcat

inductive QJsonValue where
  | null
  | bool (b : Bool)
  | int (n : Int)
  | double (text : String)
  | string (s : String)
  | array (vs : List QJsonValue)
  | object (fs : List (String × QJsonValue))
  deriving Repr

/-- The fields in key order. -/
abbrev QJsonObject := List (String × QJsonValue)

namespace QJson
open NekoEcat.CScan

/-- `insert(key, value)`, also `object[key] = value`. -/
def insert (k : String) (v : QJsonValue) : QJsonObject → QJsonObject
  | [] => [(k, v)]
  | (k', v') :: fs =>
    if k = k' then (k, v) :: fs
    else if k < k' then (k, v) :: (k', v') :: fs
    else (k', v') :: insert k v fs

/-- `QJsonObject{{key, value}, ..}`, also the insertions one after the other. -/
def ofList (fs : List (String × QJsonValue)) : QJsonObject := fs.foldl (fun o f => insert f.1 f.2 o) []

def remove (o : QJsonObject) (k : String) : QJsonObject := o.filter fun f => f.1 != k

def contains (o : QJsonObject) (k : String) : Bool := o.any fun f => f.1 == k

/-- `value(key)`: null stands for Qt's undefined value too. -/
def value (o : QJsonObject) (k : String) : QJsonValue := (o.lookup k).getD .null

def toStringD (v : QJsonValue) (dflt : String) : String :=
  match v with
  | .string s => s
  | _ => dflt

def toBool : QJsonValue → Bool
  | .bool b => b
  | _ => false

/-- `toInt(default)` -/
def toIntD (v : QJsonValue) (dflt : Int) : Int :=
  match v with
  | .int n => if -2 ^ 31 ≤ n ∧ n < 2 ^ 31 then n else dflt
  | _ => dflt

def toArray : QJsonValue → List QJsonValue
  | .array vs => vs
  | _ => []

def toObject : QJsonValue → QJsonObject
  | .object o => o
  | _ => []

/-! ## The accessors -/

theorem contains_insert (o : QJsonObject) (k k' : String) (v : QJsonValue) :
    contains (insert k v o) k' = (k == k' || contains o k') := by
  unfold contains
  induction o with
  | nil => simp [insert]
  | cons f o ih =>
    rw [insert]
    split
    · rename_i h
      simp [h]
    · split
      · simp
      · rw [List.any_cons, ih, List.any_cons]
        simp only [Bool.or_left_comm]

theorem contains_insert_self (o : QJsonObject) (k : String) (v : QJsonValue) :
    contains (insert k v o) k = true := by
  simp [contains_insert]

theorem contains_insert_of_contains {o : QJsonObject} {k : String} (k' : String) (v : QJsonValue)
    (h : contains o k = true) : contains (insert k' v o) k = true := by
  simp [contains_insert, h]

theorem value_nil (k : String) : value [] k = .null := rfl

theorem value_cons (o : QJsonObject) (f : String × QJsonValue) (k : String) :
    value (f :: o) k = if k = f.1 then f.2 else value o k := by
  obtain ⟨k', v⟩ := f
  unfold value
  by_cases h : k = k'
  · simp [h]
  · have hb : (k == k') = false := beq_eq_false_iff_ne.2 h
    simp only [List.lookup_cons, hb, if_neg h]

theorem value_insert (o : QJsonObject) (k k' : String) (v : QJsonValue) :
    value (insert k v o) k' = if k' = k then v else value o k' := by
  induction o with
  | nil => rw [insert, value_cons]
  | cons f o ih =>
    rw [insert, value_cons o f]
    split
    · rename_i h
      subst h
      rw [value_cons]
      split <;> rfl
    · rename_i h
      split
      · rw [value_cons, value_cons]
      · rw [value_cons, ih]
        by_cases hf : k' = f.1
        · have hk : k' ≠ k := by rw [hf]; exact Ne.symm h
          rw [if_pos hf, if_pos hf, if_neg hk]
        · rw [if_neg hf, if_neg hf]

theorem value_absent {o : QJsonObject} {k : String} (h : contains o k = false) : value o k = .null := by
  induction o with
  | nil => rfl
  | cons f o ih =>
    unfold contains at h ih
    rw [List.any_cons, Bool.or_eq_false_iff, beq_eq_false_iff_ne] at h
    rw [value_cons, if_neg (Ne.symm h.1), ih h.2]

theorem value_foldl_insert {fs : List (String × QJsonValue)} {k : String} (h : k ∉ fs.map (·.1)) (o : QJsonObject) :
    value (fs.foldl (fun o f => insert f.1 f.2 o) o) k = value o k := by
  induction fs generalizing o with
  | nil => rfl
  | cons f fs ih =>
    rw [List.map_cons, List.mem_cons, not_or] at h
    rw [List.foldl_cons, ih h.2, value_insert, if_neg h.1]

/-- **A field of an object** whose keys differ. -/
theorem value_ofList {fs : List (String × QJsonValue)} (hkeys : (fs.map (·.1)).Nodup) {i : Nat} {k : String}
    {v : QJsonValue} (h : fs[i]? = some (k, v)) : value (ofList fs) k = v := by
  have hfold : ∀ o : QJsonObject, value (fs.foldl (fun o f => insert f.1 f.2 o) o) k = v := by
    induction fs generalizing i with
    | nil => cases h
    | cons f fs ih =>
      obtain ⟨hnot, hrest⟩ := List.nodup_cons.1 hkeys
      intro o
      cases i with
      | zero =>
        obtain rfl : f = (k, v) := Option.some.inj h
        rw [List.foldl_cons, value_foldl_insert hnot, value_insert, if_pos rfl]
      | succ i => exact ih hrest h _
  exact hfold []

theorem contains_ofList (fs : List (String × QJsonValue)) (k : String) :
    contains (ofList fs) k = (fs.map (·.1)).contains k := by
  have hfold : ∀ o : QJsonObject, contains (fs.foldl (fun o f => insert f.1 f.2 o) o) k =
      ((fs.map (·.1)).contains k || contains o k) := by
    induction fs with
    | nil => exact fun o => rfl
    | cons f fs ih =>
      intro o
      rw [List.foldl_cons, ih, contains_insert, List.map_cons, List.contains_cons, Bool.beq_comm]
      simp only [Bool.or_assoc, Bool.or_left_comm]
  exact (hfold []).trans (Bool.or_false _)

/-! ## Compact serialisation -/

/-- `'0' + u` or `'a' + u - 10` -/
def hexdig (u : Nat) : Char := if u < 10 then Char.ofNat (48 + u) else Char.ofNat (87 + u)

def escapeChar (c : Char) : List Char :=
  if c = '"' then ['\\', '"']
  else if c = '\\' then ['\\', '\\']
  else if c = '\x08' then ['\\', 'b']
  else if c = '\x0c' then ['\\', 'f']
  else if c = '\n' then ['\\', 'n']
  else if c = '\x0d' then ['\\', 'r']
  else if c = '\t' then ['\\', 't']
  else if c.toNat < 0x20 then
    ['\\', 'u', '0', '0', hexdig (c.toNat / 16), hexdig (c.toNat % 16)]
  else [c]

def escape (s : List Char) : List Char := s.flatMap escapeChar

def quoted (s : List Char) : List Char := '"' :: escape s ++ ['"']

/-- The decimal text of an integer. -/
def intText : Int → List Char
  | .ofNat n => Nat.toDigits 10 n
  | .negSucc n => '-' :: Nat.toDigits 10 (n + 1)

mutual

/-- `QJsonDocument(value).toJson(QJsonDocument::Compact)` -/
def compact : QJsonValue → List Char
  | .null => "null".toList
  | .bool b => (if b then "true" else "false").toList
  | .int n => intText n
  | .double text => text.toList
  | .string s => quoted s.toList
  | .array vs => '[' :: compactList vs
  | .object fs => '{' :: compactFields fs

/-- The elements and the closing bracket. -/
def compactList : List QJsonValue → List Char
  | [] => [']']
  | [v] => compact v ++ [']']
  | v :: w :: vs => compact v ++ ',' :: compactList (w :: vs)

/-- The fields and the closing brace. -/
def compactFields : List (String × QJsonValue) → List Char
  | [] => ['}']
  | [(k, v)] => quoted k.toList ++ ':' :: compact v ++ ['}']
  | (k, v) :: f :: fs => quoted k.toList ++ ':' :: compact v ++ ',' :: compactFields (f :: fs)

end

/-! ## Escapes -/

/-- What an escape is: the character itself, or a backslash and a short text
of a fixed alphabet. -/
theorem escapeChar_cases (c : Char) :
    (escapeChar c = [c] ∧ c ≠ '"' ∧ c ≠ '\\') ∨
    (∃ t ∈ "\"\\bfnrt".toList, escapeChar c = ['\\', t]) ∨
    ∃ u v, u < 16 ∧ v < 16 ∧ escapeChar c = ['\\', 'u', '0', '0', hexdig u, hexdig v] := by
  unfold escapeChar
  split
  · exact .inr (.inl ⟨'"', by decide, rfl⟩)
  split
  · exact .inr (.inl ⟨'\\', by decide, rfl⟩)
  split
  · exact .inr (.inl ⟨'b', by decide, rfl⟩)
  split
  · exact .inr (.inl ⟨'f', by decide, rfl⟩)
  split
  · exact .inr (.inl ⟨'n', by decide, rfl⟩)
  split
  · exact .inr (.inl ⟨'r', by decide, rfl⟩)
  split
  · exact .inr (.inl ⟨'t', by decide, rfl⟩)
  split
  · exact .inr (.inr ⟨_, _, by omega, by omega, rfl⟩)
  · exact .inl ⟨rfl, by assumption, by assumption⟩

theorem escape_cons (c : Char) (s : List Char) : escape (c :: s) = escapeChar c ++ escape s :=
  List.flatMap_cons

theorem escape_append (s t : List Char) : escape (s ++ t) = escape s ++ escape t :=
  List.flatMap_append

/-- An escaped text holds a brace or a bracket only where the text does. -/
theorem mem_of_mem_escape {x : Char} (hx : x ∉ "\"\\bfnrtu0123456789abcdef".toList) {s : List Char}
    (h : x ∈ escape s) : x ∈ s := by
  obtain ⟨c, hc, hm⟩ := List.mem_flatMap.1 h
  have hsub : "\"\\bfnrt".toList ⊆ "\"\\bfnrtu0123456789abcdef".toList := by decide
  have hhex : ∀ u, u < 16 → hexdig u ∈ "\"\\bfnrtu0123456789abcdef".toList := by decide
  rcases escapeChar_cases c with ⟨he, -⟩ | ⟨t, ht, he⟩ | ⟨u, v, hu, hv, he⟩
  · rw [he, List.mem_singleton] at hm
    rwa [hm]
  · rw [he] at hm
    simp only [List.mem_cons, List.not_mem_nil, or_false] at hm
    rcases hm with rfl | rfl
    · exact absurd (by decide) hx
    · exact absurd (hsub ht) hx
  · rw [he] at hm
    simp only [List.mem_cons, List.not_mem_nil, or_false] at hm
    rcases hm with rfl | rfl | rfl | rfl | rfl | rfl
    · exact absurd (by decide) hx
    · exact absurd (by decide) hx
    · exact absurd (by decide) hx
    · exact absurd (by decide) hx
    · exact absurd (hhex _ hu) hx
    · exact absurd (hhex _ hv) hx

/-! ## Searching for a key -/

/-- The text `"key":` a scanner looks for. -/
def keyNeedle (k : String) : List Char := '"' :: k.toList ++ ['"', ':']

/-- A key that stands in the text as it is and starts like an identifier. -/
def isKey (k : String) : Bool := k.toList.all fun c => c.isAlpha || c == '_'

/-- The characters that may follow a value. -/
def isSep (c : Char) : Bool := c == ',' || c == '}' || c == ']'

theorem sep_cases {c : Char} (h : isSep c = true) : c = ',' ∨ c = '}' ∨ c = ']' := by
  simpa [isSep, or_assoc] using h

/-- The characters a key may not hold. -/
theorem isKey_ne {k : String} (hk : isKey k = true) {c : Char} (hc : c ∈ k.toList) :
    c ≠ '"' ∧ c ≠ '\\' ∧ c ≠ ':' ∧ isSep c = false := by
  have h := List.all_eq_true.1 hk c hc
  refine ⟨?_, ?_, ?_, ?_⟩
  · rintro rfl; exact absurd h (by decide)
  · rintro rfl; exact absurd h (by decide)
  · rintro rfl; exact absurd h (by decide)
  · rw [← Bool.not_eq_true]
    intro hs
    rcases sep_cases hs with rfl | rfl | rfl <;> exact absurd h (by decide)

/-- Inside a string value no `key":` follows: a quote in it is escaped, and the
closing quote is followed by a separator. -/
theorem not_prefix_escape {c : Char} (hc : c ≠ ':') (rest : List Char) : ∀ (k s : List Char),
    (∀ x ∈ k, x ≠ '"' ∧ x ≠ '\\') → ¬ k ++ ['"', ':'] <+: escape s ++ '"' :: c :: rest
  | [], [], _, h => by
    rw [List.nil_append, escape, List.flatMap_nil, List.nil_append, List.cons_prefix_cons,
      List.cons_prefix_cons] at h
    exact hc h.2.1.symm
  | x :: k, [], hk, h => by
    rw [List.cons_append, escape, List.flatMap_nil, List.nil_append, List.cons_prefix_cons] at h
    exact (hk x List.mem_cons_self).1 h.1
  | [], ch :: s, _, h => by
    rw [escape_cons, List.nil_append] at h
    rcases escapeChar_cases ch with ⟨he, hq, -⟩ | ⟨t, -, he⟩ | ⟨u, v, -, -, he⟩ <;>
      rw [he, List.append_assoc, List.cons_append, List.cons_prefix_cons] at h
    · exact hq h.1.symm
    · exact absurd h.1 (by decide)
    · exact absurd h.1 (by decide)
  | x :: k, ch :: s, hk, h => by
    rw [escape_cons, List.cons_append] at h
    rcases escapeChar_cases ch with ⟨he, hq, -⟩ | ⟨t, -, he⟩ | ⟨u, v, -, -, he⟩ <;>
      rw [he, List.append_assoc, List.cons_append, List.cons_prefix_cons] at h
    · exact not_prefix_escape hc rest k s (fun y hy => hk y (List.mem_cons_of_mem _ hy)) h.2
    · exact (hk x List.mem_cons_self).2 h.1
    · exact (hk x List.mem_cons_self).2 h.1

theorem keyNeedle_eq (k : String) : keyNeedle k = '"' :: (k.toList ++ ['"', ':']) := rfl

/-- A needle starts with a quote. -/
theorem strstr_keyNeedle_append {a : List Char} (k : String) (b : List Char) (h : '"' ∉ a) :
    strstr (keyNeedle k) (a ++ b) = strstr (keyNeedle k) b :=
  strstr_append b h

/-- From inside a string value the search goes on behind its closing quote. -/
theorem strstr_inString {k : String} (hk : isKey k = true) {c : Char} (hc : isSep c = true)
    (rest : List Char) : ∀ s : List Char,
    strstr (keyNeedle k) (escape s ++ '"' :: c :: rest) = strstr (keyNeedle k) (c :: rest)
  | [] => by
    have hne : c ≠ '"' := by rcases sep_cases hc with rfl | rfl | rfl <;> decide
    rw [escape, List.flatMap_nil, List.nil_append, strstr_cons_skip]
    rw [keyNeedle_eq, List.cons_prefix_cons]
    rintro ⟨-, h⟩
    cases hl : k.toList with
    | nil => rw [hl, List.nil_append, List.cons_prefix_cons] at h; exact hne h.1.symm
    | cons x l =>
      rw [hl, List.cons_append, List.cons_prefix_cons] at h
      have := (isKey_ne hk (c := x) (by rw [hl]; exact List.mem_cons_self)).2.2.2
      rw [h.1, hc] at this; cases this
  | ch :: s => by
    have hcc : c ≠ ':' := by rcases sep_cases hc with rfl | rfl | rfl <;> decide
    have hkc : ∀ x ∈ k.toList, x ≠ '"' ∧ x ≠ '\\' := fun x hx =>
      ⟨(isKey_ne hk hx).1, (isKey_ne hk hx).2.1⟩
    rw [escape_cons, List.append_assoc]
    rcases escapeChar_cases ch with ⟨he, hq, -⟩ | ⟨t, -, he⟩ | ⟨u, v, hu, hv, he⟩ <;> rw [he]
    · rw [strstr_keyNeedle_append k _ (by simpa using hq.symm)]
      exact strstr_inString hk hc rest s
    · -- an escaped quote is followed by the rest of the string
      rw [List.cons_append, strstr_cons_skip (by rw [keyNeedle_eq, List.cons_prefix_cons]; simp),
        List.singleton_append, strstr_cons_skip, strstr_inString hk hc rest s]
      rw [keyNeedle_eq, List.cons_prefix_cons]
      exact fun h => not_prefix_escape hcc rest _ s hkc h.2
    · have hh : ∀ u, u < 16 → '"' ≠ hexdig u := by decide
      rw [strstr_keyNeedle_append k _ (by simp [hh u hu, hh v hv])]
      exact strstr_inString hk hc rest s

/-- **A string value hides no key**, whatever it holds. -/
theorem strstr_string {k : String} (hk : isKey k = true) {c : Char} (hc : isSep c = true)
    (s rest : List Char) :
    strstr (keyNeedle k) (quoted s ++ c :: rest) = strstr (keyNeedle k) (c :: rest) := by
  have hcc : c ≠ ':' := by rcases sep_cases hc with rfl | rfl | rfl <;> decide
  rw [quoted, List.append_assoc, List.cons_append, strstr_cons_skip]
  · exact strstr_inString hk hc rest s
  · rw [keyNeedle_eq, List.cons_prefix_cons]
    exact fun h => not_prefix_escape hcc rest _ s
      (fun x hx => ⟨(isKey_ne hk hx).1, (isKey_ne hk hx).2.1⟩) h.2

theorem escape_key {k : String} (hk : isKey k = true) : escape k.toList = k.toList := by
  have h : ∀ l : List Char, (∀ c ∈ l, c.isAlpha = true ∨ c = '_') → escape l = l := by
    intro l
    induction l with
    | nil => intro _; rfl
    | cons c l ih =>
      intro hl
      rw [escape_cons, ih fun x hx => hl x (List.mem_cons_of_mem _ hx)]
      have hc := hl c List.mem_cons_self
      have hlow : ¬ c.toNat < 0x20 := by
        rcases hc with hc | rfl
        · rcases Bool.or_eq_true_iff.1 hc with hupper | hlower
          · have : (65 : Nat) ≤ c.toNat := (of_decide_eq_true hupper).1
            omega
          · have : (97 : Nat) ≤ c.toNat := of_decide_eq_true (Bool.and_eq_true_iff.1 hlower).1
            omega
        · decide
      have hne : ∀ x : Char, x.toNat < 0x20 → c ≠ x := by rintro x hx rfl; exact hlow hx
      have hq : c ≠ '"' := by rintro rfl; revert hc; decide
      have hb : c ≠ '\\' := by rintro rfl; revert hc; decide
      rw [escapeChar, if_neg hq, if_neg hb, if_neg (hne _ (by decide)), if_neg (hne _ (by decide)),
        if_neg (hne _ (by decide)), if_neg (hne _ (by decide)), if_neg (hne _ (by decide)),
        if_neg hlow]
      rfl
  apply h _
  intro c hc
  simpa using List.all_eq_true.1 hk c hc

theorem quoted_key {k : String} (hk : isKey k = true) :
    quoted k.toList = '"' :: k.toList ++ ['"'] := by
  rw [quoted, escape_key hk]

/-- Quote-free texts that a quote ends are equal when one is a prefix. -/
theorem eq_of_quote_ended {a b : List Char} : ∀ {k l : List Char}, '"' ∉ k → '"' ∉ l →
    k ++ '"' :: a <+: l ++ '"' :: b → k = l
  | [], [], _, _, _ => rfl
  | [], y :: l, _, hl, h => by
    rw [List.nil_append, List.cons_append, List.cons_prefix_cons] at h
    exact absurd (List.mem_cons.2 (.inl h.1)) hl
  | x :: k, [], hk, _, h => by
    rw [List.nil_append, List.cons_append, List.cons_prefix_cons] at h
    exact absurd (List.mem_cons.2 (.inl h.1.symm)) hk
  | x :: k, y :: l, hk, hl, h => by
    rw [List.cons_append, List.cons_append, List.cons_prefix_cons] at h
    rw [h.1, eq_of_quote_ended (fun hm => hk (List.mem_cons_of_mem _ hm))
      (fun hm => hl (List.mem_cons_of_mem _ hm)) h.2]

theorem quote_not_mem {k : String} (hk : isKey k = true) : '"' ∉ k.toList :=
  fun h => (isKey_ne hk h).1 rfl

/-- The search for a key passes another key. -/
theorem strstr_key_ne {k k' : String} (hk : isKey k = true) (hk' : isKey k' = true) (hne : k ≠ k')
    (rest : List Char) :
    strstr (keyNeedle k) (quoted k'.toList ++ ':' :: rest) = strstr (keyNeedle k) rest := by
  have h1 : ¬ keyNeedle k <+: '"' :: (k'.toList ++ '"' :: ':' :: rest) := by
    rw [keyNeedle_eq, List.cons_prefix_cons]
    exact fun h => hne (String.toList_inj.1
      (eq_of_quote_ended (quote_not_mem hk) (quote_not_mem hk') h.2))
  have h2 : ¬ keyNeedle k <+: '"' :: ':' :: rest := by
    rw [keyNeedle_eq, List.cons_prefix_cons]
    rintro ⟨-, h⟩
    cases hl : k.toList with
    | nil =>
      rw [hl, List.nil_append, List.cons_prefix_cons] at h
      exact absurd h.1 (by decide)
    | cons x l =>
      rw [hl, List.cons_append, List.cons_prefix_cons] at h
      exact (isKey_ne hk (c := x) (by rw [hl]; exact List.mem_cons_self)).2.2.1 h.1
  have h3 : ¬ keyNeedle k <+: ':' :: rest := by
    rw [keyNeedle_eq, List.cons_prefix_cons]
    exact fun h => absurd h.1 (by decide)
  rw [quoted_key hk', List.append_assoc, List.cons_append, List.singleton_append,
    strstr_cons_skip h1, strstr_keyNeedle_append k _ (quote_not_mem hk'),
    strstr_cons_skip h2, strstr_cons_skip h3]

/-- The search for a key stops at the key. -/
theorem strstr_key_self {k : String} (hk : isKey k = true) (rest : List Char) :
    strstr (keyNeedle k) (quoted k.toList ++ ':' :: rest) = some (keyNeedle k ++ rest) := by
  have he : quoted k.toList ++ ':' :: rest = keyNeedle k ++ rest := by
    simp [quoted_key hk, keyNeedle]
  rw [he, strstr_start (List.prefix_append _ _)]

/-- A value without fields of its own. -/
def isScalar : QJsonValue → Bool
  | .null => true
  | .bool _ => true
  | .int _ => true
  | .string _ => true
  | _ => false

/-- An integer's text holds digits and a sign only. -/
theorem mem_intText {n : Int} {c : Char} (h : c ∈ intText n) : c.isDigit = true ∨ c = '-' := by
  cases n with
  | ofNat n => exact .inl (isDigit_toDigits h)
  | negSucc n =>
    rcases List.mem_cons.1 h with h | h
    · exact .inr h
    · exact .inl (isDigit_toDigits h)

theorem quote_not_mem_intText (n : Int) : '"' ∉ intText n :=
  fun h => absurd (mem_intText h) (by decide)

/-- The search for a key passes a scalar value. -/
theorem strstr_scalar {k : String} (hk : isKey k = true) {v : QJsonValue} (hv : isScalar v = true)
    {c : Char} (hc : isSep c = true) (rest : List Char) :
    strstr (keyNeedle k) (compact v ++ c :: rest) = strstr (keyNeedle k) (c :: rest) := by
  cases v with
  | null => exact strstr_keyNeedle_append k _ (by decide)
  | bool b => cases b <;> exact strstr_keyNeedle_append k _ (by decide)
  | int n => exact strstr_keyNeedle_append k _ (by rw [compact]; exact quote_not_mem_intText n)
  | string s => rw [compact]; exact strstr_string hk hc _ rest
  | double _ => cases hv
  | array _ => cases hv
  | object _ => cases hv

/-- **Finding a key.** In an object of scalars the search for a key that is
there finds that key's own field, followed by a separator. -/
theorem strstr_compactFields {k : String} (hk : isKey k = true) {v : QJsonValue} (rest : List Char) :
    ∀ {fs : QJsonObject}, (∀ f ∈ fs, isKey f.1 = true ∧ isScalar f.2 = true) →
    fs.lookup k = some v →
    ∃ c rest', isSep c = true ∧
      strstr (keyNeedle k) (compactFields fs ++ rest) = some (keyNeedle k ++ compact v ++ c :: rest')
  | [], _, h => by cases h
  | (k', v') :: fs, hfs, h => by
    obtain ⟨hk', hv'⟩ := hfs _ List.mem_cons_self
    -- what follows the first field starts with a separator
    obtain ⟨c, rest', hc, htail, hnext⟩ : ∃ c rest', isSep c = true ∧
        compactFields ((k', v') :: fs) ++ rest = quoted k'.toList ++ ':' :: (compact v' ++ c :: rest') ∧
        (fs ≠ [] → c :: rest' = ',' :: (compactFields fs ++ rest)) := by
      cases fs with
      | nil => exact ⟨'}', rest, by decide, by simp [compactFields], fun h => absurd rfl h⟩
      | cons f fs => exact ⟨',', _, by decide, by simp [compactFields], fun _ => rfl⟩
    rw [htail]
    by_cases hkk : k = k'
    · subst hkk
      rw [List.lookup_cons_self] at h
      cases h
      refine ⟨c, rest', hc, ?_⟩
      rw [strstr_key_self hk, List.append_assoc]
    · have hl : fs.lookup k = some v := by
        have hb : (k == k') = false := by simpa using hkk
        simpa only [List.lookup_cons, hb] using h
      have hne : fs ≠ [] := by rintro rfl; cases hl
      rw [strstr_key_ne hk hk' hkk, strstr_scalar hk hv' hc, hnext hne,
        strstr_cons_skip (by rw [keyNeedle_eq, List.cons_prefix_cons]; simp)]
      exact strstr_compactFields hk rest (fun f hf => hfs f (List.mem_cons_of_mem _ hf)) hl

/-! ## Reading an integer back -/

/-- **Integer round trip**: a printed integer is read back modulo the width. -/
theorem scanUnsigned_intText {w : Nat} {n : Int} {c : Char} {cs : List Char} (hw : w ≤ 64)
    (h1 : -2 ^ 64 < n) (h2 : n < 2 ^ 64) (hc : c.isDigit = false) :
    scanUnsigned w (intText n ++ c :: cs) = some (n % 2 ^ w).toNat := by
  cases n with
  | ofNat m =>
    have hm : m < 2 ^ 64 := Int.ofNat_lt.1 h2
    rw [intText, scanUnsigned_toDigits hm hc]
    exact congrArg some (Int.toNat_natCast _).symm
  | negSucc m =>
    have hm : m + 1 < 2 ^ 64 := by omega
    rw [intText, scanUnsigned_neg hm hc, Nat.mod_eq_of_lt (by omega : 2 ^ 64 - (m + 1) < 2 ^ 64)]
    have hdvd : (2 : Int) ^ w ∣ 2 ^ 64 := ⟨2 ^ (64 - w), by rw [← Int.pow_add, Nat.add_sub_cancel' hw]⟩
    have he : ((2 ^ 64 - (m + 1) : Nat) : Int) = Int.negSucc m + 2 ^ 64 := by omega
    have hmod : (((2 ^ 64 - (m + 1)) % 2 ^ w : Nat) : Int) = Int.negSucc m % 2 ^ w := by
      rw [Int.natCast_emod, he, Int.natCast_pow, Int.add_emod]
      show (_ + 2 ^ 64 % 2 ^ w) % _ = Int.negSucc m % 2 ^ w
      rw [Int.emod_eq_zero_of_dvd hdvd, Int.add_zero]
      exact Int.emod_emod _ _
    rw [← hmod, Int.toNat_natCast]

theorem not_isDigit_of_isSep {c : Char} (h : isSep c = true) : c.isDigit = false := by
  rcases sep_cases h with rfl | rfl | rfl <;> rfl

theorem compactList_cons (v : QJsonValue) (vs : List QJsonValue) :
    compactList (v :: vs) = compact v ++ if vs = [] then [']'] else ',' :: compactList vs := by
  cases vs with
  | nil => simp [compactList]
  | cons w vs => simp [compactList]

end QJson

end NekoEcat
