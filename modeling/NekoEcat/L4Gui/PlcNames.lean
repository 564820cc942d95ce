import NekoEcat.Core.Fresh
import NekoEcat.Core.QArg
import NekoEcat.Core.Strip
import Mathlib.Data.List.Infix

/-!
# The PLC names of I/O variables

`plcIdentifier` makes an identifier of any text. What is left of the text is one;
where nothing is left the fallback is taken, and it is taken as it is. The name of
a row falls back on its address, which is made of the texts of the row.

* `tidy_sanitized`: what is left of a text is clean, or nothing.
* `plcIdentifier_stable_iff`: which texts stay as they are.
* `legal_symbol_iff`: when the name of a row is an identifier.
* `legal_iff`: that, and when an identifier that was made stays as it is.
-/
namespace NekoEcat.L4.PlcNames
open NekoEcat.QNumber NekoEcat.QString NekoEcat.Strip

abbrev Text := List Char

/-- `[A-Za-z0-9_]` -/
def isWord (c : Char) : Bool := c.isAlphanum || c == '_'

/-- Qt's tables of Unicode, and its searches without regard to case. -/
structure Unicode where
  /-- `QChar::isDigit` -/
  isDigit : Char → Bool
  isDigit_word : ∀ c, isWord c = true → isDigit c = c.isDigit
  /-- `QString::toLower` of one character -/
  toLower : Char → Text
  toLower_ascii : ∀ c, c.toNat < 128 → toLower c = [c.toLower]
  toLower_space : ∀ c, isSpace c = true → toLower c = [c]
  toLower_ink : ∀ c, isSpace c = false → toLower c ≠ [] ∧ ∀ d ∈ toLower c, isSpace d = false
  contains : Text → Text → Bool
  startsWith : Text → Text → Bool
  /-- `compare(b, Qt::CaseInsensitive) == 0` -/
  same : Text → Text → Bool

/-- mirrors apps/ecat-studio/infra/ProcessDataTypes.h:47-73 -/
structure IoVariableTableRow where
  row : Int := -1
  position : Int := -1
  positionValid : Bool := false
  direction : Text := []
  symbol : Text := []
  index : Text := []
  subIndex : Text := []
  bits : Text := []
  pdo : Text := []
  source : Text := []
  raw : Text := []
  decoded : Text := []
  meaning : Text := []
  watch : Text := []
  startup : Text := []
  map : Text := []
  changed : Text := []
  plcQuality : Text := []
  aliasText : Text := []
  tags : Text := []
  note : Text := []

/-! ## Identifiers -/

def replaceChar (c : Char) (by' : Text) (text : Text) : Text := text.flatMap fun d => if d = c then by' else [d]

/-- What is left of a text: letters, digits, and single underscores between them. -/
def sanitized (text : Text) : Text :=
  let text := replaceChar '&' " and ".toList text
  let text := replaceChar '+' " plus ".toList text
  let text := replaceChar '%' " percent ".toList text
  let text := squash (fun c => !isWord c) false text
  let text := squash (· == '_') false text
  strip (· == '_') (trim text)

/-- The text, or the fallback. -/
def given (text fallback : Text) : Text := if trim text = [] then trim fallback else trim text

/-- What stands in when nothing is left. -/
def orFallback (text fallback : Text) : Text :=
  if text = [] then
    if trim fallback = [] then "Var".toList else trim fallback
  else text

section
variable (u : Unicode)

/-- `V_` before a digit -/
def lettered (text : Text) : Text := if text.head?.any u.isDigit then "V_".toList ++ text else text

/-- mirrors apps/ecat-studio/utils/TextHelpers.cpp:30-57 -/
def plcIdentifier (text fallback : Text) : Text := lettered u (orFallback (sanitized (given text fallback)) fallback)

end

/-- `[A-Za-z_][A-Za-z0-9_]*` -/
structure Legal (text : Text) : Prop where
  word : ∀ c ∈ text, isWord c = true
  head : ∃ c, text.head? = some c ∧ c.isDigit = false

/-- Nothing in it that sanitising takes away. -/
structure Tidy (text : Text) : Prop extends Legal text where
  single : Single text
  first : text.head? ≠ some '_'
  last : text.getLast? ≠ some '_'

section
variable {text : Text}

theorem isWord_underscore : isWord '_' = true := by decide

theorem not_isSpace_of_range {c : Char} (h : 48 ≤ c.toNat ∧ c.toNat ≤ 122) : isSpace c = false := by
  simp only [isSpace, Bool.or_eq_false_iff, beq_eq_false_iff_ne, Bool.and_eq_false_iff, decide_eq_false_iff_not]
  omega

theorem isUpper_range {c : Char} : c.isUpper = true ↔ 65 ≤ c.toNat ∧ c.toNat ≤ 90 :=
  decide_eq_true_iff.trans (and_congr UInt32.le_iff_toNat_le UInt32.le_iff_toNat_le)

theorem isLower_range {c : Char} : c.isLower = true ↔ 97 ≤ c.toNat ∧ c.toNat ≤ 122 :=
  Bool.and_eq_true_iff.trans (and_congr (decide_eq_true_iff.trans UInt32.le_iff_toNat_le)
    (decide_eq_true_iff.trans UInt32.le_iff_toNat_le))

theorem isDigit_range {c : Char} : c.isDigit = true ↔ 48 ≤ c.toNat ∧ c.toNat ≤ 57 :=
  Bool.and_eq_true_iff.trans (and_congr (decide_eq_true_iff.trans UInt32.le_iff_toNat_le)
    (decide_eq_true_iff.trans UInt32.le_iff_toNat_le))

theorem not_isSpace_of_isWord {c : Char} (h : isWord c = true) : isSpace c = false := by
  have hrange : 48 ≤ c.toNat ∧ c.toNat ≤ 122 := by
    rcases Bool.or_eq_true_iff.1 h with hname | hunderscore
    · rcases Bool.or_eq_true_iff.1 hname with halpha | hdigit
      · rcases Bool.or_eq_true_iff.1 halpha with hupper | hlower
        · have := isUpper_range.1 hupper
          omega
        · have := isLower_range.1 hlower
          omega
      · have := isDigit_range.1 hdigit
        omega
    · rw [beq_iff_eq.1 hunderscore]
      decide
  exact not_isSpace_of_range hrange

theorem trim_of_words (h : ∀ c ∈ text, isWord c = true) : trim text = text :=
  trim_of_not_space fun c hc => not_isSpace_of_isWord (h c hc)

theorem replaceChar_of_words {c : Char} (hc : isWord c = false) (by' : Text) (h : ∀ d ∈ text, isWord d = true) :
    replaceChar c by' text = text := by
  unfold replaceChar
  have hone : text.flatMap (fun d => if d = c then by' else [d]) = text.flatMap fun d => [d] := by
    refine List.flatMap_congr fun d hd => if_neg ?_
    rintro rfl
    rw [h d hd] at hc
    cases hc
  rw [hone, List.flatMap_singleton']

theorem mem_replaceChar {c d : Char} {by' : Text} (hd : d ∈ text) (hne : d ≠ c) : d ∈ replaceChar c by' text :=
  List.mem_flatMap.2 ⟨d, hd, by simp [hne]⟩

/-- A letter or digit of the text is left. -/
theorem mem_sanitized {c : Char} (hc : c ∈ text) (hword : isWord c = true) (hne : c ≠ '_') : c ∈ sanitized text := by
  have hplain : c ≠ '&' ∧ c ≠ '+' ∧ c ≠ '%' := by
    refine ⟨?_, ?_, ?_⟩ <;> rintro rfl <;> exact absurd hword (by decide)
  have hsquashed : c ∈ squash (· == '_') false (squash (fun c => !isWord c) false (replaceChar '%' " percent ".toList
      (replaceChar '+' " plus ".toList (replaceChar '&' " and ".toList text)))) :=
    mem_squash (mem_squash (mem_replaceChar (mem_replaceChar (mem_replaceChar hc hplain.1) hplain.2.1) hplain.2.2)
      (by simp [hword])) (by simp [hne])
  refine mem_strip _ ?_ (by simp [hne])
  rw [trim_eq_strip]
  exact mem_strip _ hsquashed (not_isSpace_of_isWord hword)

/-- What the replacements leave. -/
def squashed (text : Text) : Text :=
  squash (· == '_') false (squash (fun c => !isWord c) false
    (replaceChar '%' " percent ".toList (replaceChar '+' " plus ".toList (replaceChar '&' " and ".toList text))))

theorem squashed_word (text : Text) : ∀ c ∈ squashed text, isWord c = true := by
  intro c hc
  rcases of_mem_squash hc with rfl | ⟨hc, -⟩
  · exact isWord_underscore
  · rcases of_mem_squash hc with rfl | ⟨-, hword⟩
    · exact isWord_underscore
    · simpa using hword

theorem sanitized_eq (text : Text) : sanitized text = strip (· == '_') (squashed text) := by
  rw [← trim_of_words (squashed_word text)]
  rfl

/-- **What is left of a text is clean.** -/
theorem sanitized_clean (text : Text) : (∀ c ∈ sanitized text, isWord c = true) ∧ Single (sanitized text) ∧
    (sanitized text).head? ≠ some '_' ∧ (sanitized text).getLast? ≠ some '_' := by
  rw [sanitized_eq]
  have hmiddle : strip (· == '_') (squashed text) <:+: squashed text := strip_infix _
  have hsingle : Single (strip (· == '_') (squashed text)) := List.IsChain.infix (squash_single false _).1 hmiddle
  refine ⟨fun c hc => squashed_word text c (hmiddle.subset hc), hsingle, ?_, ?_⟩
  · intro h
    exact absurd (head_strip _ h) (by simp)
  · intro h
    exact absurd (last_strip _ h) (by simp)

/-- A clean text is left as it is. -/
theorem sanitized_tidy (h : Tidy text) : sanitized text = text := by
  have hsquashed : squashed text = text := by
    unfold squashed
    rw [replaceChar_of_words (by decide) _ h.word, replaceChar_of_words (by decide) _ h.word,
      replaceChar_of_words (by decide) _ h.word, squash_eq_self (p := fun c => !isWord c) (fun c hc => by simp [h.word c hc]),
      squash_of_single h.single false fun h => absurd h Bool.false_ne_true]
  rw [sanitized_eq, hsquashed]
  refine strip_eq_self _ (fun c hc => ?_) fun c hc => ?_
  · have hne : c ≠ '_' := fun heq => h.first (heq ▸ hc)
    simp [hne]
  · have hne : c ≠ '_' := fun heq => h.last (heq ▸ hc)
    simp [hne]

end

section
variable {u : Unicode} {text fallback : Text}

/-- What is left of a text makes an identifier. -/
theorem tidy_lettered (h : sanitized text ≠ []) : Tidy (lettered u (sanitized text)) := by
  obtain ⟨hword, hsingle, hfirst, hlast⟩ := sanitized_clean text
  generalize sanitized text = s at *
  cases s with
  | nil => exact absurd rfl h
  | cons c cs =>
    have hdigit := u.isDigit_word c (hword c List.mem_cons_self)
    cases hd : c.isDigit with
    | false =>
      have heq : lettered u (c :: cs) = c :: cs := by simp [lettered, hdigit, hd]
      rw [heq]
      exact ⟨⟨hword, c, rfl, hd⟩, hsingle, hfirst, hlast⟩
    | true =>
      have heq : lettered u (c :: cs) = 'V' :: '_' :: c :: cs := by simp [lettered, hdigit, hd]
      rw [heq]
      refine ⟨⟨?_, 'V', rfl, by decide⟩, ?_, by simp, ?_⟩
      · intro d hd
        rcases List.mem_cons.1 hd with rfl | hd
        · decide
        · rcases List.mem_cons.1 hd with rfl | hd
          · decide
          · exact hword d hd
      · have hc : c ≠ '_' := fun heq => hfirst (heq ▸ rfl)
        refine List.isChain_cons_cons.2 ⟨by decide, List.isChain_cons_cons.2 ⟨?_, hsingle⟩⟩
        exact fun hboth => hc hboth.2
      · simpa using hlast

theorem lettered_tidy (h : Legal text) : lettered u text = text := by
  obtain ⟨c, hc, hd⟩ := h.head
  have hword : isWord c = true := h.word c (List.mem_of_mem_head? hc)
  simp [lettered, hc, u.isDigit_word c hword, hd]

theorem Tidy.ne_nil (h : Tidy text) : text ≠ [] := by
  rintro rfl
  obtain ⟨c, hc, -⟩ := h.head
  cases hc

/-- A clean text is its own identifier. -/
theorem plcIdentifier_tidy (h : Tidy text) (fallback : Text) : plcIdentifier u text fallback = text := by
  have hgiven : given text fallback = text := by simp [given, trim_of_words h.word, h.ne_nil]
  rw [plcIdentifier, hgiven, sanitized_tidy h, orFallback, if_neg h.ne_nil, lettered_tidy h.toLegal]

/-- **An identifier stays as it is**, whatever the fallback, iff it is clean. -/
theorem plcIdentifier_stable_iff : (∀ fallback, plcIdentifier u text fallback = text) ↔ Tidy text := by
  refine ⟨fun h => ?_, plcIdentifier_tidy⟩
  have htext := h ['A']
  have hletter : Tidy ['A'] := ⟨⟨by simp [isWord], 'A', rfl, by decide⟩, List.isChain_singleton _, by simp, by simp⟩
  unfold plcIdentifier orFallback at htext
  split at htext
  · have htrim : trim ['A'] = ['A'] := trim_of_words hletter.word
    rw [htrim, if_neg (by simp), lettered_tidy hletter.toLegal] at htext
    exact htext ▸ hletter
  · rename_i hne
    exact htext ▸ tidy_lettered hne

/-- What stands in for a text of which nothing is left. -/
def standIn (u : Unicode) (fallback : Text) : Text := lettered u (if trim fallback = [] then "Var".toList else trim fallback)

theorem plcIdentifier_of_nil (h : sanitized (given text fallback) = []) :
    plcIdentifier u text fallback = standIn u fallback := by
  rw [plcIdentifier, h]
  rfl

theorem plcIdentifier_of_ne (h : sanitized (given text fallback) ≠ []) : Tidy (plcIdentifier u text fallback) := by
  rw [plcIdentifier, orFallback, if_neg h]
  exact tidy_lettered h

/-- Whose identifier is clean: a text of which something is left, or one with a
clean stand-in. -/
theorem tidy_plcIdentifier_iff : Tidy (plcIdentifier u text fallback) ↔
    sanitized (given text fallback) ≠ [] ∨ Tidy (standIn u fallback) := by
  by_cases h : sanitized (given text fallback) = []
  · simp [plcIdentifier_of_nil h, h]
  · simp [plcIdentifier_of_ne h, h]

end

/-! ## Names of rows -/

/-- `remove("0x", Qt::CaseInsensitive)` -/
def remove0x : Text → Text
  | '0' :: c :: cs => if c = 'x' ∨ c = 'X' then remove0x cs else '0' :: remove0x (c :: cs)
  | c :: cs => c :: remove0x cs
  | [] => []

/-- The texts an alias is made of. -/
def seed (row : IoVariableTableRow) : Text :=
  if row.aliasText ≠ [] then row.aliasText
  else if row.symbol ≠ [] then row.symbol
  else if row.meaning ≠ [] then row.meaning
  else "Obj_".toList ++ row.index ++ '_' :: row.subIndex

/-- `S` and the address of the row. -/
def addressName (row : IoVariableTableRow) : Text :=
  'S' :: ((if row.positionValid then (number row.position).toList else []) ++
    '_' :: remove0x row.index ++ '_' :: remove0x row.subIndex)

structure IoVariableHandoffName where
  aliasText : Text
  fallbackAlias : Text
  symbol : Text

section
variable (u : Unicode)

/-- mirrors apps/ecat-studio/models/IoVariableModel.cpp:236-268 -/
def suggestedIoVariableAlias (row : IoVariableTableRow) (prefixText : Text) (includeAddress : Bool) : Text :=
  let fallback := addressName row
  let result := plcIdentifier u (seed row) fallback
  let result :=
    if includeAddress then
      let address := plcIdentifier u fallback fallback
      if !u.contains result address then address ++ '_' :: result else result
    else result
  let normalizedPrefix := if trim prefixText = [] then [] else plcIdentifier u prefixText []
  if normalizedPrefix ≠ [] ∧ !u.startsWith result (normalizedPrefix ++ ['_']) then normalizedPrefix ++ '_' :: result
  else result

/-- mirrors apps/ecat-studio/models/IoVariableModel.cpp:271-277 -/
def ioVariableHandoffName (row : IoVariableTableRow) : IoVariableHandoffName :=
  let fallbackAlias := suggestedIoVariableAlias u row [] true
  ⟨row.aliasText, fallbackAlias, plcIdentifier u row.aliasText fallbackAlias⟩

end

section
variable {u : Unicode} {row : IoVariableTableRow}

theorem isWord_S : isWord 'S' = true := by decide

theorem trim_addressName (row : IoVariableTableRow) : ∃ cs, trim (addressName row) = 'S' :: cs :=
  ⟨_, (trim_eq_strip _).trans (strip_cons isSpace (by decide))⟩

theorem given_of_ink {text : Text} {c : Char} (hc : c ∈ text) (hspace : isSpace c = false) (fallback : Text) :
    c ∈ given text fallback := by
  have hmem : c ∈ trim text := by
    rw [trim_eq_strip]
    exact mem_strip _ hc hspace
  rw [given, if_neg (List.ne_nil_of_mem hmem)]
  exact hmem

/-- The address names itself. -/
theorem tidy_address : Tidy (plcIdentifier u (addressName row) (addressName row)) := by
  have hmem : 'S' ∈ given (addressName row) (addressName row) := given_of_ink List.mem_cons_self (by decide) _
  exact plcIdentifier_of_ne (List.ne_nil_of_mem (mem_sanitized hmem isWord_S (by decide)))

theorem Tidy.letter {text : Text} (h : Tidy text) : ∃ c ∈ text, isWord c = true ∧ c ≠ '_' := by
  obtain ⟨c, hc, -⟩ := h.head
  exact ⟨c, List.mem_of_mem_head? hc, h.word c (List.mem_of_mem_head? hc), fun heq => h.first (heq ▸ hc)⟩

theorem standIn_addressName (row : IoVariableTableRow) : standIn u (addressName row) = trim (addressName row) := by
  obtain ⟨cs, hcs⟩ := trim_addressName row
  have hdigit : u.isDigit 'S' = false := (u.isDigit_word 'S' isWord_S).trans (by decide)
  simp [standIn, hcs, lettered, hdigit]

theorem standIn_of_letter {text : Text} {c : Char} (htrim : trim text = text) (hc : text.head? = some c)
    (hword : isWord c = true) (hdigit : c.isDigit = false) : standIn u text = text := by
  have hne : text ≠ [] := by
    rintro rfl
    cases hc
  simp [standIn, htrim, hne, lettered, hc, u.isDigit_word c hword, hdigit]

/-- The identifier of the seed, or the address as it is. -/
theorem plcIdentifier_address_cases (text : Text) : Tidy (plcIdentifier u text (addressName row)) ∨
    plcIdentifier u text (addressName row) = trim (addressName row) := by
  by_cases h : sanitized (given text (addressName row)) = []
  · exact Or.inr ((plcIdentifier_of_nil h).trans (standIn_addressName row))
  · exact Or.inl (plcIdentifier_of_ne h)

theorem symbol_eq (row : IoVariableTableRow) : (ioVariableHandoffName u row).symbol =
    plcIdentifier u row.aliasText (ioVariableHandoffName u row).fallbackAlias := by
  simp only [ioVariableHandoffName]

theorem fallbackAlias_eq (row : IoVariableTableRow) : (ioVariableHandoffName u row).fallbackAlias =
    if u.contains (plcIdentifier u (seed row) (addressName row)) (plcIdentifier u (addressName row) (addressName row))
    then plcIdentifier u (seed row) (addressName row)
    else plcIdentifier u (addressName row) (addressName row) ++ '_' :: plcIdentifier u (seed row) (addressName row) := by
  have hnil : trim ([] : Text) = [] := rfl
  unfold ioVariableHandoffName suggestedIoVariableAlias
  simp only [hnil, if_true, ne_eq, not_true_eq_false, false_and, if_false]
  cases u.contains (plcIdentifier u (seed row) (addressName row)) (plcIdentifier u (addressName row) (addressName row)) <;> rfl

/-- The fallback of a row holds a letter or digit. -/
theorem fallbackAlias_letter (row : IoVariableTableRow) :
    ∃ c ∈ (ioVariableHandoffName u row).fallbackAlias, isWord c = true ∧ c ≠ '_' := by
  have hseed : ∃ c ∈ plcIdentifier u (seed row) (addressName row), isWord c = true ∧ c ≠ '_' := by
    rcases @plcIdentifier_address_cases u row (seed row) with htidy | heq
    · exact htidy.letter
    · obtain ⟨cs, hcs⟩ := trim_addressName row
      rw [heq, hcs]
      exact ⟨'S', List.mem_cons_self, isWord_S, by decide⟩
  obtain ⟨c, hc, hword⟩ := hseed
  refine ⟨c, ?_, hword⟩
  rw [fallbackAlias_eq]
  split
  · exact hc
  · exact List.mem_append_right _ (List.mem_cons_of_mem _ hc)

/-- The text of a row is an identifier, or its address has to be one. -/
def Named (row : IoVariableTableRow) : Prop :=
  trim row.aliasText = [] ∨ sanitized (trim row.aliasText) ≠ [] ∨ ∀ c ∈ trim (addressName row), isWord c = true

/-- A row whose alias is taken to nothing is named by its address as it is. -/
theorem symbol_of_nothing (halias : trim row.aliasText ≠ []) (hnil : sanitized (trim row.aliasText) = []) :
    (ioVariableHandoffName u row).symbol = trim (addressName row) ∨
      (ioVariableHandoffName u row).symbol =
        plcIdentifier u (addressName row) (addressName row) ++ '_' :: trim (addressName row) := by
  have hgiven : ∀ fallback, given row.aliasText fallback = trim row.aliasText := fun fallback => if_neg halias
  have hseed : seed row = row.aliasText := by
    have hne : row.aliasText ≠ [] := fun heq => halias (by rw [heq]; rfl)
    rw [seed, if_pos hne]
  have halias' : plcIdentifier u (seed row) (addressName row) = trim (addressName row) := by
    rw [hseed, plcIdentifier_of_nil (by rw [hgiven, hnil]), standIn_addressName]
  have hsymbol : (ioVariableHandoffName u row).symbol = standIn u (ioVariableHandoffName u row).fallbackAlias := by
    rw [symbol_eq, plcIdentifier_of_nil (by rw [hgiven, hnil])]
  obtain ⟨cs, hcs⟩ := trim_addressName row
  rw [hsymbol, fallbackAlias_eq, halias']
  split
  · refine Or.inl (standIn_of_letter (c := 'S') ?_ (by rw [hcs]; rfl) isWord_S (by decide))
    simp only [trim_eq_strip, strip_strip]
  · have hlegal := (@tidy_address u row).toLegal
    obtain ⟨c, hc, hdigit⟩ := hlegal.head
    have hword := hlegal.word c (List.mem_of_mem_head? hc)
    have hhead : (plcIdentifier u (addressName row) (addressName row) ++ '_' :: trim (addressName row)).head? = some c := by
      rw [List.head?_append, hc]
      rfl
    refine Or.inr (standIn_of_letter ?_ hhead hword hdigit)
    rw [trim_eq_strip]
    refine strip_eq_self _ (fun d hd => ?_) fun d hd => ?_
    · rw [hhead] at hd
      cases hd
      exact not_isSpace_of_isWord hword
    · rw [List.getLast?_append_cons, hcs, List.getLast?_cons_cons, ← hcs, trim_eq_strip] at hd
      exact last_strip _ hd

/-- **The symbol of a row** is an identifier iff the row is named. -/
theorem legal_symbol_iff : Legal (ioVariableHandoffName u row).symbol ↔ Named row := by
  unfold Named
  by_cases halias : trim row.aliasText = []
  · have htidy : Tidy (ioVariableHandoffName u row).symbol := by
      obtain ⟨c, hc, hword, hne⟩ := fallbackAlias_letter (u := u) row
      rw [symbol_eq]
      refine plcIdentifier_of_ne (List.ne_nil_of_mem (mem_sanitized (c := c) ?_ hword hne))
      rw [given, if_pos halias, trim_eq_strip]
      exact mem_strip _ hc (not_isSpace_of_isWord hword)
    exact iff_of_true htidy.toLegal (Or.inl halias)
  · have hgiven : ∀ fallback, given row.aliasText fallback = trim row.aliasText := fun fallback => if_neg halias
    by_cases hnil : sanitized (trim row.aliasText) = []
    · simp only [halias, hnil, ne_eq, not_true_eq_false, false_or]
      obtain ⟨cs, hcs⟩ := trim_addressName row
      have haddress := (@tidy_address u row).toLegal
      rcases symbol_of_nothing (u := u) halias hnil with heq | heq
      · rw [heq]
        exact ⟨Legal.word, fun h => ⟨h, 'S', by rw [hcs]; rfl, by decide⟩⟩
      · rw [heq]
        constructor
        · intro h c hc
          exact h.word c (List.mem_append_right _ (List.mem_cons_of_mem _ hc))
        · intro h
          obtain ⟨c, hc, hdigit⟩ := haddress.head
          refine ⟨fun d hd => ?_, c, by rw [List.head?_append, hc]; rfl, hdigit⟩
          rcases List.mem_append.1 hd with hd | hd
          · exact haddress.word d hd
          · rcases List.mem_cons.1 hd with rfl | hd
            · exact isWord_underscore
            · exact h d hd
    · have htidy : Tidy (ioVariableHandoffName u row).symbol := by
        rw [symbol_eq]
        exact plcIdentifier_of_ne (by rw [hgiven]; exact hnil)
      exact iff_of_true htidy.toLegal (Or.inr (Or.inl hnil))

end

/-! ## What is emitted -/

section
variable (u : Unicode)

def lowered (text : Text) : Text := text.flatMap u.toLower

/-- `QString("%1_%2").arg(base).arg(n)` -/
def withNumber (base : Text) (n : Nat) : Text := (suffixed (String.ofList base) n).toList

/-- The symbol and the set of used symbols behind it.
mirrors apps/ecat-studio/models/IoVariableModel.cpp:380-391 -/
def ioVariableHandoffUniqueSymbol (row : IoVariableTableRow) (usedSymbols : List Text) : Text × List Text :=
  let baseSymbol := (ioVariableHandoffName u row).symbol
  let symbol := Fresh.first (lowered u) (withNumber baseSymbol) usedSymbols 2 baseSymbol
  (symbol, lowered u symbol :: usedSymbols)

end

section
variable {u : Unicode} {row : IoVariableTableRow} {used : List Text}

theorem toLower_of_not_upper {c : Char} (h : ¬ c.isUpper = true) : c.toLower = c := by
  have hnot : ¬ (c.val ≥ 'A'.val ∧ c.val ≤ 'Z'.val) := fun hboth => h (isUpper_range.2 hboth)
  exact dif_neg hnot

theorem toNat_toLower {c : Char} (h : c.isUpper = true) : c.toLower.toNat = c.toNat + 32 := by
  have hboth : c.val ≥ 'A'.val ∧ c.val ≤ 'Z'.val := isUpper_range.1 h
  have hrange := isUpper_range.1 h
  have hlower : c.toLower.val = c.val + 32 := congrArg Char.val (dif_pos hboth)
  change c.toLower.val.toNat = c.toNat + 32
  rw [hlower, UInt32.toNat_add]
  change (c.toNat + 32) % 2 ^ 32 = c.toNat + 32
  omega

theorem Unicode.toLower_digit (u : Unicode) (c : Char) (h : c.isDigit = true) : u.toLower c = [c] := by
  simp only [Char.isDigit, Bool.and_eq_true, decide_eq_true_eq, UInt32.le_iff_toNat_le, ge_iff_le] at h
  have hle : c.toNat ≤ 57 := h.2
  have hnot : ¬ c.isUpper = true := by
    rw [isUpper_range]
    omega
  rw [u.toLower_ascii c (by omega), toLower_of_not_upper hnot]

theorem withNumber_injective (base : Text) (m n : Nat)
    (h : lowered u (withNumber base m) = lowered u (withNumber base n)) : m = n :=
  suffixed_injective u.toLower_digit h

theorem withNumber_plain {base : Text} (h : '%' ∉ base) (n : Nat) : withNumber base n = base ++ '_' :: Nat.toDigits 10 n := by
  have hbase := @suffixed_plain (String.ofList base) (by simpa using h) n
  rwa [String.toList_ofList] at hbase

theorem legal_withNumber {base : Text} (h : Legal base) (n : Nat) : Legal (withNumber base n) := by
  have hpercent : '%' ∉ base := fun hmem => absurd (h.word '%' hmem) (by decide)
  obtain ⟨c, hc, hdigit⟩ := h.head
  rw [withNumber_plain hpercent]
  refine ⟨fun d hd => ?_, c, by rw [List.head?_append, hc]; rfl, hdigit⟩
  rcases List.mem_append.1 hd with hd | hd
  · exact h.word d hd
  · rcases List.mem_cons.1 hd with rfl | hd
    · exact isWord_underscore
    · have hdd := CScan.isDigit_toDigits hd
      simp [isWord, Char.isAlphanum, hdd]

theorem uniqueSymbol_nil (row : IoVariableTableRow) :
    (ioVariableHandoffUniqueSymbol u row []).1 = (ioVariableHandoffName u row).symbol := by
  simp only [ioVariableHandoffUniqueSymbol]
  exact Fresh.first_of_free List.not_mem_nil

/-- **The search ends**, in a symbol that is not used. -/
theorem uniqueSymbol_spec (row : IoVariableTableRow) (used : List Text) :
    lowered u (ioVariableHandoffUniqueSymbol u row used).1 ∉ used ∧
      ((ioVariableHandoffUniqueSymbol u row used).1 = (ioVariableHandoffName u row).symbol ∨
        ∃ n, (ioVariableHandoffUniqueSymbol u row used).1 = withNumber (ioVariableHandoffName u row).symbol n) ∧
      ∀ fuel, used.length + 2 ≤ fuel →
        Fresh.loop (lowered u) (withNumber (ioVariableHandoffName u row).symbol) used fuel 2
          (ioVariableHandoffName u row).symbol = some (ioVariableHandoffUniqueSymbol u row used).1 := by
  simp only [ioVariableHandoffUniqueSymbol]
  generalize (ioVariableHandoffName u row).symbol = base
  obtain ⟨hfree, hcases, hfuel⟩ := @Fresh.first_spec _ _ _ (lowered u) (withNumber base) used
    (withNumber_injective base) 2 base
  exact ⟨hfree, hcases.imp_right (Exists.imp fun m h => h.2), hfuel⟩

/-- **What is emitted is an identifier** for every set of used symbols, and an
identifier that was made of a text stays as it is, iff the row is named, and
something is left of the text or its stand-in is clean. -/
theorem legal_iff (u : Unicode) (row : IoVariableTableRow) (text fallback : Text) :
    ((∀ usedSymbols, Legal (ioVariableHandoffUniqueSymbol u row usedSymbols).1) ∧
        ∀ fallback', plcIdentifier u (plcIdentifier u text fallback) fallback' = plcIdentifier u text fallback) ↔
      Named row ∧ (sanitized (given text fallback) ≠ [] ∨ Tidy (standIn u fallback)) := by
  have hemitted : (∀ usedSymbols, Legal (ioVariableHandoffUniqueSymbol u row usedSymbols).1) ↔ Named row := by
    rw [← legal_symbol_iff (u := u)]
    constructor
    · intro h
      exact uniqueSymbol_nil (u := u) row ▸ h []
    · intro h usedSymbols
      obtain ⟨-, heq | ⟨n, heq⟩, -⟩ := uniqueSymbol_spec (u := u) row usedSymbols
      · rw [heq]
        exact h
      · rw [heq]
        exact legal_withNumber h n
  rw [hemitted, plcIdentifier_stable_iff, tidy_plcIdentifier_iff]

end

theorem isSpace_toLower (c : Char) : isSpace c.toLower = isSpace c := by
  by_cases h : c.isUpper = true
  · have hrange := isUpper_range.1 h
    have hlower := toNat_toLower h
    rw [not_isSpace_of_range (c := c) (by omega), not_isSpace_of_range (c := c.toLower) (by omega)]
  · rw [toLower_of_not_upper h]

/-- The tables as far as ASCII goes. -/
def ascii : Unicode where
  isDigit := Char.isDigit
  isDigit_word := fun _ _ => rfl
  toLower := fun c => [c.toLower]
  toLower_ascii := fun _ _ => rfl
  toLower_space := fun c h => by
    have hnot : ¬ c.isUpper = true := by
      rw [isUpper_range]
      intro hupper
      rw [not_isSpace_of_range (by omega)] at h
      cases h
    rw [toLower_of_not_upper hnot]
  toLower_ink := fun c h => by
    refine ⟨List.cons_ne_nil _ _, fun d hd => ?_⟩
    rw [List.mem_singleton.1 hd, isSpace_toLower, h]
  contains := fun a b => decide (b.map Char.toLower <:+: a.map Char.toLower)
  startsWith := fun a b => decide (b.map Char.toLower <+: a.map Char.toLower)
  same := fun a b => decide (a.map Char.toLower = b.map Char.toLower)

/-- An alias without a Latin letter, and an index with a colon. -/
def colonRow : IoVariableTableRow :=
  { position := 1, positionValid := true, index := "0x60:64".toList, subIndex := "0x00".toList, aliasText := "轴".toList }

/-- The address stands in as it is. -/
theorem colon_in_symbol : ¬ ∀ (u : Unicode) (row : IoVariableTableRow) (usedSymbols : List Text),
    Legal (ioVariableHandoffUniqueSymbol u row usedSymbols).1 := by
  intro h
  have hnamed : Named colonRow := legal_symbol_iff.1 (uniqueSymbol_nil (u := ascii) colonRow ▸ h ascii colonRow [])
  have htrim : trim colonRow.aliasText = ['轴'] := rfl
  have hnothing : sanitized ['轴'] = [] := rfl
  have haddress : trim (addressName colonRow) = "S1_60:64_00".toList := rfl
  rw [Named, htrim, hnothing, haddress] at hnamed
  simp [isWord] at hnamed

end NekoEcat.L4.PlcNames
