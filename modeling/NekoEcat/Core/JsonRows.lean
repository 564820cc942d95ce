import Mathlib.Data.List.Induction
import Mathlib.Data.List.Sort
import Mathlib.Data.String.Basic
import NekoEcat.Core.Assoc
import NekoEcat.Core.QJson

/-!
# Arrays of JSON objects with texts

A `QJsonObject` is known by what it has for each key, and an array of objects whose
values are texts is known by its text.

* `ofList_eq_iff`: objects made of fields put in one after the other.
* `indented_injective`: no two arrays of such objects have the same text.
-/
namespace NekoEcat.JsonRows
open NekoEcat.QJson

variable {α : Type}

/-! ## Objects -/

def Sorted (o : QJsonObject) : Prop := o.Pairwise fun f f' => f.1 < f'.1

theorem lookup_field (f : String × QJsonValue) (o : QJsonObject) (k : String) :
    (f :: o).lookup k = if k = f.1 then some f.2 else o.lookup k := by
  rw [List.lookup_cons]
  by_cases h : k = f.1
  · rw [if_pos h, beq_iff_eq.2 h]
  · rw [if_neg h, beq_eq_false_iff_ne.2 h]

theorem lookup_insert (o : QJsonObject) (k k' : String) (v : QJsonValue) :
    (QJson.insert k v o).lookup k' = if k' = k then some v else o.lookup k' := by
  induction o with
  | nil => exact lookup_field (k, v) [] k'
  | cons f o ih =>
    obtain ⟨k'', v''⟩ := f
    rw [QJson.insert, lookup_field (k'', v'')]
    by_cases heq : k = k''
    · rw [if_pos heq, lookup_field, ← heq]
      by_cases h : k' = k <;> simp only [h, if_true, if_false]
    · rw [if_neg heq]
      split
      · rw [lookup_field, lookup_field]
      · rw [lookup_field, ih]
        by_cases h : k' = k
        · rw [if_neg (show ¬ k' = (k'', v'').1 from h ▸ heq), if_pos h, if_pos h]
        · rw [if_neg h, if_neg h]

theorem mem_insert {o : QJsonObject} {k : String} {v : QJsonValue} {f : String × QJsonValue}
    (h : f ∈ QJson.insert k v o) : f.1 = k ∨ f ∈ o := by
  induction o with
  | nil =>
    rw [QJson.insert, List.mem_singleton] at h
    exact .inl (congrArg Prod.fst h)
  | cons g o ih =>
    rw [QJson.insert] at h
    split at h
    · rcases List.mem_cons.1 h with rfl | h
      · exact .inl rfl
      · exact .inr (List.mem_cons_of_mem _ h)
    · split at h
      · rcases List.mem_cons.1 h with rfl | h
        · exact .inl rfl
        · exact .inr h
      · rcases List.mem_cons.1 h with rfl | h
        · exact .inr List.mem_cons_self
        · exact (ih h).imp_right (List.mem_cons_of_mem _)

theorem sorted_insert {o : QJsonObject} (h : Sorted o) (k : String) (v : QJsonValue) : Sorted (QJson.insert k v o) := by
  induction o with
  | nil => exact List.pairwise_singleton _ _
  | cons g o ih =>
    obtain ⟨k', v'⟩ := g
    obtain ⟨hlt, hrest⟩ := List.pairwise_cons.1 h
    rw [QJson.insert]
    by_cases heq : k = k'
    · rw [if_pos heq]
      exact List.pairwise_cons.2 ⟨fun f hf => heq ▸ hlt f hf, hrest⟩
    · rw [if_neg heq]
      by_cases hk : k < k'
      · rw [if_pos hk]
        refine List.pairwise_cons.2 ⟨fun f hf => ?_, h⟩
        rcases List.mem_cons.1 hf with rfl | hf
        · exact hk
        · exact hk.trans (hlt f hf)
      · rw [if_neg hk]
        refine List.pairwise_cons.2 ⟨fun f hf => ?_, ih hrest⟩
        rcases mem_insert hf with hf | hf
        · rw [hf]
          exact lt_of_le_of_ne (not_lt.1 hk) (Ne.symm heq)
        · exact hlt f hf

theorem sorted_ofList (fs : List (String × QJsonValue)) : Sorted (ofList fs) := by
  have hfold : ∀ o, Sorted o → Sorted (fs.foldl (fun o f => QJson.insert f.1 f.2 o) o) := by
    induction fs with
    | nil => exact fun _ h => h
    | cons f fs ih => exact fun o h => ih _ (sorted_insert h f.1 f.2)
  exact hfold [] List.Pairwise.nil

theorem nodup_keys {o : QJsonObject} (ho : Sorted o) : (Assoc.keys o).Nodup :=
  List.Pairwise.map _ (fun _ _ hlt => ne_of_lt hlt) ho

theorem lookup_of_mem {o : QJsonObject} (ho : Sorted o) {k : String} {v : QJsonValue} (h : (k, v) ∈ o) :
    o.lookup k = some v :=
  Assoc.lookup_of_mem (nodup_keys ho) h

/-- **An object is known by what it has for each key.** -/
theorem eq_of_lookup {o o' : QJsonObject} (ho : Sorted o) (ho' : Sorted o') (h : ∀ k, o.lookup k = o'.lookup k) :
    o = o' := by
  have hmem : ∀ f, f ∈ o ↔ f ∈ o' := by
    rintro ⟨k, v⟩
    have hlookup := h k
    constructor
    · exact fun hf => Assoc.mem_of_lookup (hlookup ▸ lookup_of_mem ho hf)
    · exact fun hf => Assoc.mem_of_lookup (hlookup ▸ lookup_of_mem ho' hf)
  have hperm := (List.perm_ext_iff_of_nodup (List.Nodup.of_map _ (nodup_keys ho))
    (List.Nodup.of_map _ (nodup_keys ho'))).2 hmem
  exact hperm.eq_of_pairwise (fun f f' _ _ hlt hlt' => absurd hlt' (lt_asymm hlt)) ho ho'

/-- The last field of a key is the one that stays. -/
theorem lookup_ofList (fs : List (String × QJsonValue)) (k : String) : (ofList fs).lookup k = fs.reverse.lookup k := by
  induction fs using List.reverseRecOn with
  | nil => rfl
  | append_singleton fs f ih =>
    obtain ⟨k', v⟩ := f
    rw [ofList, List.foldl_append, List.reverse_append, List.reverse_singleton, List.singleton_append, lookup_field]
    change (QJson.insert k' v (ofList fs)).lookup k = _
    rw [lookup_insert, ih]

/-! ## Texts -/

/-- A field of an object in an array, the value of which is no array and no object. -/
def fieldText (f : String × QJsonValue) : List Char :=
  List.replicate 8 ' ' ++ quoted f.1.toList ++ [':', ' '] ++ compact f.2

/-- The parts, each on lines of its own. -/
def lines (part : α → List Char) : List α → List Char
  | [] => []
  | [a] => part a ++ ['\n']
  | a :: b :: as => part a ++ [',', '\n'] ++ lines part (b :: as)

def rowText (o : QJsonObject) : List Char :=
  List.replicate 4 ' ' ++ ['{', '\n'] ++ lines fieldText o ++ List.replicate 4 ' ' ++ ['}']

/-- `QJsonDocument(array).toJson(QJsonDocument::Indented)` of an array of such objects. -/
def indented (rows : List QJsonObject) : List Char := ['[', '\n'] ++ lines rowText rows ++ [']', '\n']

/-! ## Reading the texts back -/

/-- The start of an object, or a text. -/
inductive Lexeme where
  | brace
  | text (s : List Char)

/-- Where a scan is: outside texts, in a text, behind a backslash in it, behind
`\u` and some digits. -/
inductive Mode where
  | outside
  | inside (acc : List Char)
  | escape (acc : List Char)
  | hex (acc digits : List Char)

/-- `\b`, `\f`, `\n`, `\r`, `\t`, and characters that stand for themselves. -/
def unescaped (c : Char) : Char :=
  if c = 'b' then '\x08' else if c = 'f' then '\x0c' else if c = 'n' then '\n' else if c = 'r' then '\x0d'
  else if c = 't' then '\t' else c

def hexval (c : Char) : Nat := if c.toNat < 58 then c.toNat - 48 else c.toNat - 87

def lexemes : Mode → List Char → List Lexeme
  | _, [] => []
  | .outside, c :: cs =>
    if c = '{' then .brace :: lexemes .outside cs
    else if c = '"' then lexemes (.inside []) cs
    else lexemes .outside cs
  | .inside acc, c :: cs =>
    if c = '"' then .text acc :: lexemes .outside cs
    else if c = '\\' then lexemes (.escape acc) cs
    else lexemes (.inside (acc ++ [c])) cs
  | .escape acc, c :: cs =>
    if c = 'u' then lexemes (.hex acc []) cs else lexemes (.inside (acc ++ [unescaped c])) cs
  | .hex acc digits, c :: cs =>
    if digits.length = 3 then
      lexemes (.inside (acc ++ [Char.ofNat ((digits ++ [c]).foldl (fun n d => 16 * n + hexval d) 0)])) cs
    else lexemes (.hex acc (digits ++ [c])) cs

theorem hexval_hexdig : ∀ u < 16, hexval (hexdig u) = u := by decide

theorem lexemes_escapeChar (c : Char) (acc cs : List Char) :
    lexemes (.inside acc) (escapeChar c ++ cs) = lexemes (.inside (acc ++ [c])) cs := by
  unfold escapeChar
  split
  · rename_i h
    rw [h]
    rfl
  split
  · rename_i h
    rw [h]
    rfl
  split
  · rename_i h
    rw [h]
    rfl
  split
  · rename_i h
    rw [h]
    rfl
  split
  · rename_i h
    rw [h]
    rfl
  split
  · rename_i h
    rw [h]
    rfl
  split
  · rename_i h
    rw [h]
    rfl
  split
  · rename_i h
    have hhigh : hexval (hexdig (c.toNat / 16)) = c.toNat / 16 := hexval_hexdig _ (by omega)
    have hlow : hexval (hexdig (c.toNat % 16)) = c.toNat % 16 := hexval_hexdig _ (by omega)
    have hzero : hexval '0' = 0 := by decide
    have hsum : 16 * (c.toNat / 16) + c.toNat % 16 = c.toNat := by omega
    simp [lexemes, hhigh, hlow, hzero, hsum, Char.ofNat_toNat]
  · rename_i hq hb _ _ _ _ _ _
    rw [List.singleton_append, lexemes, if_neg hq, if_neg hb]

/-- **A text in quotes** is one lexeme, whatever it holds. -/
theorem lexemes_quoted (s cs : List Char) : lexemes .outside (quoted s ++ cs) = .text s :: lexemes .outside cs := by
  have hinside : ∀ acc, lexemes (.inside acc) (escape s ++ '"' :: cs) = .text (acc ++ s) :: lexemes .outside cs := by
    induction s with
    | nil => intro acc; rw [List.append_nil]; rfl
    | cons c s ih =>
      intro acc
      rw [escape_cons, List.append_assoc, lexemes_escapeChar, ih, List.append_assoc]
      rfl
  have hopen : quoted s ++ cs = '"' :: (escape s ++ '"' :: cs) := by simp [quoted]
  rw [hopen, lexemes, if_neg (by decide), if_pos rfl, hinside, List.nil_append]

theorem lexemes_skip {a : List Char} (h : a.all (fun c => c != '{' && c != '"') = true) (cs : List Char) :
    lexemes .outside (a ++ cs) = lexemes .outside cs := by
  induction a with
  | nil => rfl
  | cons c a ih =>
    simp only [List.all_cons, Bool.and_eq_true, bne_iff_ne] at h
    rw [List.cons_append, lexemes, if_neg h.1.1, if_neg h.1.2, ih h.2]

/-- The lexemes of parts, line by line. -/
theorem lexemes_lines {part : α → List Char} {read : α → List Lexeme} {as : List α}
    (h : ∀ a ∈ as, ∀ cs, lexemes .outside (part a ++ cs) = read a ++ lexemes .outside cs) (cs : List Char) :
    lexemes .outside (lines part as ++ cs) = as.flatMap read ++ lexemes .outside cs := by
  induction as with
  | nil => rfl
  | cons a as ih =>
    obtain ⟨ha, has⟩ := List.forall_mem_cons.1 h
    cases as with
    | nil =>
      rw [lines, List.append_assoc, ha, lexemes_skip (by rfl)]
      simp
    | cons b as =>
      rw [lines, List.append_assoc, List.append_assoc, ha, lexemes_skip (by rfl), ih has]
      simp only [List.flatMap_cons, List.append_assoc]

/-- All values are texts. -/
def Texts (o : QJsonObject) : Prop := ∀ f ∈ o, ∃ s, f.2 = .string s

def fieldLexemes (f : String × QJsonValue) : List (List Char) := [f.1.toList, (toStringD f.2 "").toList]

def rowLexemes (o : QJsonObject) : List Lexeme := .brace :: (o.flatMap fieldLexemes).map .text

theorem lexemes_indented {rows : List QJsonObject} (h : ∀ o ∈ rows, Texts o) :
    lexemes .outside (indented rows) = rows.flatMap rowLexemes := by
  have hfield : ∀ f : String × QJsonValue, (∃ s, f.2 = .string s) → ∀ cs,
      lexemes .outside (fieldText f ++ cs) = (fieldLexemes f).map .text ++ lexemes .outside cs := by
    rintro ⟨k, _⟩ ⟨s, rfl⟩ cs
    rw [fieldText, List.append_assoc, List.append_assoc, List.append_assoc, lexemes_skip (by rfl), lexemes_quoted,
      lexemes_skip (by rfl), compact, lexemes_quoted]
    rfl
  have hrow : ∀ o ∈ rows, ∀ cs, lexemes .outside (rowText o ++ cs) = rowLexemes o ++ lexemes .outside cs := by
    intro o ho cs
    have hopen : ∀ cs, lexemes .outside (['{', '\n'] ++ cs) = .brace :: lexemes .outside cs := fun _ => rfl
    rw [rowText, List.append_assoc, List.append_assoc, List.append_assoc, List.append_assoc, lexemes_skip (by rfl),
      hopen, lexemes_lines (fun f hf => hfield f (h o ho f hf)), lexemes_skip (by rfl), lexemes_skip (by rfl),
      rowLexemes, List.map_flatMap]
    rfl
  rw [indented, List.append_assoc, lexemes_skip (by rfl), lexemes_lines hrow]
  simp [lexemes]

/-- The texts of each object, behind those in front of all objects. -/
def sections : List Lexeme → List (List (List Char))
  | [] => [[]]
  | .brace :: ls => [] :: sections ls
  | .text s :: ls =>
    match sections ls with
    | [] => []
    | first :: rest => (s :: first) :: rest

theorem sections_texts {first : List (List Char)} {rest : List (List (List Char))} {ls : List Lexeme}
    (h : sections ls = first :: rest) (texts : List (List Char)) :
    sections (texts.map .text ++ ls) = (texts ++ first) :: rest := by
  induction texts with
  | nil => exact h
  | cons s texts ih => rw [List.map_cons, List.cons_append, sections, ih]; rfl

theorem sections_rows (rows : List QJsonObject) :
    sections (rows.flatMap rowLexemes) = [] :: rows.map (·.flatMap fieldLexemes) := by
  induction rows with
  | nil => rfl
  | cons o rows ih =>
    rw [List.flatMap_cons, rowLexemes, List.cons_append, sections, sections_texts ih, List.append_nil, List.map_cons]

theorem texts_injective {o o' : QJsonObject} (ho : Texts o) (ho' : Texts o')
    (h : o.flatMap fieldLexemes = o'.flatMap fieldLexemes) : o = o' := by
  induction o generalizing o' with
  | nil =>
    cases o' with
    | nil => rfl
    | cons f o' => cases h
  | cons f o ih =>
    cases o' with
    | nil => cases h
    | cons f' o' =>
      obtain ⟨⟨s, hs⟩, htexts⟩ := List.forall_mem_cons.1 ho
      obtain ⟨⟨s', hs'⟩, htexts'⟩ := List.forall_mem_cons.1 ho'
      obtain ⟨k, v⟩ := f
      obtain ⟨k', v'⟩ := f'
      subst hs hs'
      obtain ⟨hk, hv, hrest⟩ : k.toList = k'.toList ∧ s.toList = s'.toList ∧
          o.flatMap fieldLexemes = o'.flatMap fieldLexemes := by
        simpa [fieldLexemes, toStringD] using h
      rw [String.toList_injective hk, String.toList_injective hv, ih htexts htexts' hrest]

/-- **No two arrays have the same text.** -/
theorem indented_injective {rows rows' : List QJsonObject} (h : ∀ o ∈ rows, Texts o) (h' : ∀ o ∈ rows', Texts o)
    (heq : indented rows = indented rows') : rows = rows' := by
  have hmap : rows.map (·.flatMap fieldLexemes) = rows'.map (·.flatMap fieldLexemes) := by
    have hsections := sections_rows rows
    rw [← lexemes_indented h, heq, lexemes_indented h', sections_rows] at hsections
    exact (List.cons.inj hsections).2.symm
  clear heq
  induction rows generalizing rows' with
  | nil => exact (List.map_eq_nil_iff.1 hmap.symm).symm
  | cons o rows ih =>
    cases rows' with
    | nil => cases hmap
    | cons o' rows' =>
      obtain ⟨ho, h⟩ := List.forall_mem_cons.1 h
      obtain ⟨ho', h'⟩ := List.forall_mem_cons.1 h'
      obtain ⟨hfirst, hrest⟩ := List.cons.inj hmap
      rw [texts_injective ho ho' hfirst, ih h h' hrest]

end NekoEcat.JsonRows
