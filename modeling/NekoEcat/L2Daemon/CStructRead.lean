import Mathlib.Data.List.TakeWhile
import NekoEcat.L2Daemon.CStruct

/-!
# Reading back a printed configuration

What `parseCStruct` makes of the text that `ethercat cstruct` prints. The scans
pass over every line but their own, unless the name of an entry holds something
that looks like one (`Inert`); PDOs without entries are printed with `NULL`,
which no scan finds, and shift what follows them.

* `parseCStruct_cstruct`: the tree the parser returns.
* `recovers_iff`: it is the printed one iff the tree is `Complete`.
* `empty_pdo_shifts`: a tree that is not.
-/
namespace NekoEcat.L2.CStruct
open NekoEcat.Regex NekoEcat.QNumber NekoEcat.CScan

/-! ## Names -/

/-- The name is one that the comment gives back. -/
def GoodName (name : List Char) : Prop := trim name = name ∧ ¬ ['*', '/'] <:+: name

/-- What is read as the name of an entry. -/
def seenName (name : List Char) : List Char := commentName ([','] ++ (comment name ++ ['\n']))

theorem trim_length (s : List Char) : (trim s).length ≤ s.length := by
  have h1 := (List.dropWhile_suffix (l := s) QString.isSpace).length_le
  have h2 := (List.dropWhile_suffix (l := (s.dropWhile QString.isSpace).reverse) QString.isSpace).length_le
  simp only [trim, List.length_reverse] at *
  omega

theorem trim_space_cons (s : List Char) : trim (' ' :: s) = trim s := by
  rw [trim, List.dropWhile_cons_of_pos (by decide), trim]

theorem trim_concat_space (s : List Char) : trim (s ++ [' ']) = trim s := by
  unfold trim
  by_cases h : ∀ c ∈ s, QString.isSpace c = true
  · have h1 : s.dropWhile QString.isSpace = [] := List.dropWhile_eq_nil_iff.2 h
    have h2 : (s ++ [' ']).dropWhile QString.isSpace = [] := by
      refine List.dropWhile_eq_nil_iff.2 ?_
      intro c hc
      rcases List.mem_append.1 hc with hc | hc
      · exact h c hc
      · rw [List.mem_singleton.1 hc]
        rfl
    rw [h1, h2]
  · have hne : s.dropWhile QString.isSpace ≠ [] := fun h0 => h (List.dropWhile_eq_nil_iff.1 h0)
    rw [List.dropWhile_append, if_neg (by simpa using hne), List.reverse_append, List.reverse_singleton,
      List.singleton_append, List.dropWhile_cons_of_pos (by decide)]

/-- Where the comment of a nonempty name is found. -/
theorem commentName_comment (name b : List Char) (hne : name ≠ []) :
    commentName ([','] ++ (comment name ++ ['\n']) ++ b) =
      match strstr ['*', '/'] ((' ' :: name ++ [' ']) ++ (['*', '/'] ++ ('\n' :: b))) with
      | none => []
      | some commentEnd => trim (mid ((' ' :: name ++ [' ']) ++ (['*', '/'] ++ ('\n' :: b))) commentEnd) := by
  have hrest : [','] ++ (comment name ++ ['\n']) ++ b =
      ", ".toList ++ (['/', '*'] ++ ((' ' :: name ++ [' ']) ++ (['*', '/'] ++ ('\n' :: b)))) := by
    have he : name.isEmpty = false := by simpa using hne
    simp [comment, he]
  generalize hbody : (' ' :: name ++ [' ']) ++ (['*', '/'] ++ ('\n' :: b)) = body at *
  have hstart : strstr ['/', '*'] (", ".toList ++ (['/', '*'] ++ body)) = some (['/', '*'] ++ body) := by
    show strstr ('/' :: ['*']) _ = _
    rw [strstr_append _ (by decide)]
    exact strstr_start (List.prefix_append _ _)
  have hline : sameLine (", ".toList ++ (['/', '*'] ++ body)) (['/', '*'] ++ body) = true := by
    have h1 : strstr ['\n'] (", ".toList ++ (['/', '*'] ++ body)) = strstr ['\n'] body := by
      rw [← List.append_assoc]
      exact strstr_append _ (by decide)
    rw [sameLine, h1]
    cases hs : strstr ['\n'] body with
    | none => rfl
    | some t =>
      have := (strstr_some hs).2.length_le
      exact decide_eq_true (by simp only [List.length_append]; exact Nat.lt_of_le_of_lt this (by simp))
  have hend : strstr ['*', '/'] (['/', '*'] ++ body) = strstr ['*', '/'] body := by
    have hb : ∃ t, body = ' ' :: t := ⟨_, hbody.symm⟩
    obtain ⟨t, rfl⟩ := hb
    rfl
  rw [hrest, commentName, hstart]
  simp only [hline, if_true, hend]
  rfl

theorem mid_of_le {start stop : List Char} (h : stop.length ≤ start.length) :
    mid start stop = start.take (start.length - stop.length) := by
  rw [mid, if_neg (Nat.not_lt.2 h)]

/-- Nothing behind the line matters. -/
theorem commentName_append (name b : List Char) :
    commentName ([','] ++ (comment name ++ ['\n']) ++ b) = seenName name := by
  by_cases hne : name = []
  · subst hne
    have hrest : [','] ++ (comment [] ++ ['\n']) ++ b = ',' :: '\n' :: b := rfl
    have hline : ∀ t, strstr ['/', '*'] b = some t → sameLine (',' :: '\n' :: b) t = false := by
      intro t ht
      have hn : strstr ['\n'] (',' :: '\n' :: b) = some ('\n' :: b) := strstr_char (a := [',']) b (by decide)
      have := (strstr_some ht).2.length_le
      simp only [sameLine, hn, List.length_cons, decide_eq_false_iff_not]
      omega
    have hs : strstr ['/', '*'] (',' :: '\n' :: b) = strstr ['/', '*'] b := rfl
    rw [hrest, commentName, hs]
    cases ht : strstr ['/', '*'] b with
    | none => rfl
    | some t => simp only [hline t ht]; rfl
  · obtain ⟨t, ht, hlen⟩ := strstr_infix ['*', '/'] (' ' :: name ++ [' ']) ['\n']
    have hseen : seenName name = trim (mid ((' ' :: name ++ [' ']) ++ (['*', '/'] ++ ['\n'])) t) := by
      have h := commentName_comment name [] hne
      rw [List.append_nil, ht] at h
      exact h
    have ht' : strstr ['*', '/'] ((' ' :: name ++ [' ']) ++ (['*', '/'] ++ ('\n' :: b))) = some (t ++ b) := by
      have := strstr_append_some b ht
      simpa only [List.append_assoc, List.cons_append, List.nil_append] using this
    have hle := (strstr_some ht).2.length_le
    rw [commentName_comment name b hne, ht', hseen]
    show trim (mid _ (t ++ b)) = _
    have hb : (' ' :: name ++ [' ']) ++ (['*', '/'] ++ ('\n' :: b)) =
        ((' ' :: name ++ [' ']) ++ (['*', '/'] ++ ['\n'])) ++ b := by simp
    rw [hb, mid_of_le hle, mid_of_le (by simp only [List.length_append] at *; omega)]
    have hl : (((' ' :: name ++ [' ']) ++ (['*', '/'] ++ ['\n'])) ++ b).length - (t ++ b).length =
        ((' ' :: name ++ [' ']) ++ (['*', '/'] ++ ['\n'])).length - t.length := by
      simp only [List.length_append]; omega
    rw [hl, List.take_append_of_le_length (Nat.sub_le _ _)]

/-- A text without `*/` ends where the comment does. -/
theorem strstr_close {a : List Char} (h : ¬ ['*', '/'] <:+: a) (s : List Char) :
    strstr ['*', '/'] (a ++ ' ' :: '*' :: '/' :: s) = some ('*' :: '/' :: s) := by
  induction a with
  | nil => rfl
  | cons c a ih =>
    rw [List.cons_append, strstr_cons_skip, ih fun hi => h (hi.trans (List.suffix_cons c a).isInfix)]
    intro hp
    obtain ⟨rfl, hp'⟩ := List.cons_prefix_cons.1 hp
    cases a with
    | nil => exact absurd (List.cons_prefix_cons.1 hp').1 (by decide)
    | cons d a =>
      obtain ⟨rfl, -⟩ := List.cons_prefix_cons.1 hp'
      exact h ⟨[], a, rfl⟩

/-- **A name is read back iff it is trimmed and does not close its comment.** -/
theorem seenName_eq_iff (name : List Char) : seenName name = name ↔ GoodName name := by
  by_cases hne : name = []
  · subst hne
    exact ⟨fun _ => ⟨rfl, by decide⟩, fun _ => rfl⟩
  have hcomment := commentName_comment name [] hne
  rw [List.append_nil] at hcomment
  by_cases hclose : ['*', '/'] <:+: name
  · -- what is read ends before the first end of a comment
    refine iff_of_false ?_ fun h => h.2 hclose
    obtain ⟨p, q, hpq⟩ := hclose
    obtain ⟨t, ht, hlen⟩ := strstr_infix ['*', '/'] (' ' :: p) (q ++ " */\n".toList)
    have hbody : (' ' :: name ++ [' ']) ++ (['*', '/'] ++ ['\n']) =
        ' ' :: p ++ (['*', '/'] ++ (q ++ " */\n".toList)) := by
      rw [← hpq]; simp
    rw [hbody, ht] at hcomment
    intro heq
    have hle := (strstr_some ht).2.length_le
    have hshort : (seenName name).length ≤ p.length := by
      rw [seenName, hcomment]
      show (trim (mid _ t)).length ≤ _
      rw [mid_of_le hle]
      have hk : (' ' :: p ++ (['*', '/'] ++ (q ++ " */\n".toList))).length - t.length ≤ p.length + 1 := by
        simp only [List.length_append, List.length_cons] at *; omega
      generalize (' ' :: p ++ (['*', '/'] ++ (q ++ " */\n".toList))).length - t.length = k at *
      cases k with
      | zero => rw [List.take_zero]; exact Nat.zero_le _
      | succ k =>
        rw [List.cons_append, List.take_succ_cons, trim_space_cons]
        have := trim_length ((p ++ (['*', '/'] ++ (q ++ " */\n".toList))).take k)
        rw [List.length_take] at this
        omega
    rw [heq, ← hpq] at hshort
    simp only [List.length_append] at hshort
    have : ['*', '/'].length = 2 := rfl
    omega
  · have hno : ¬ ['*', '/'] <:+: ' ' :: name := by
      intro h
      rcases List.infix_cons_iff.1 h with h | h
      · exact absurd (List.cons_prefix_cons.1 h).1 (by decide)
      · exact hclose h
    have hbody : (' ' :: name ++ [' ']) ++ (['*', '/'] ++ ['\n']) = (' ' :: name) ++ ' ' :: '*' :: '/' :: ['\n'] := by
      simp
    have hmid : mid ((' ' :: name) ++ ' ' :: '*' :: '/' :: ['\n']) ('*' :: '/' :: ['\n']) = ' ' :: name ++ [' '] := by
      have hs : (' ' :: name) ++ ' ' :: '*' :: '/' :: ['\n'] = (' ' :: name ++ [' ']) ++ '*' :: '/' :: ['\n'] := by simp
      rw [hs, mid_of_le (by simp), List.length_append, Nat.add_sub_cancel, List.take_left]
    have hseen : seenName name = trim name := by
      rw [seenName, hcomment, hbody, strstr_close hno]
      show trim (mid _ _) = _
      rw [hmid, trim_concat_space, trim_space_cons]
    rw [hseen]
    exact ⟨fun h => ⟨h, hclose⟩, fun h => h.1⟩

/-! ## Scanning the lines -/

/-- The expressions of the three scans start with a brace and cannot read `*`. -/
structure Braced (r : Re) : Prop where
  brace : ∀ c, r.rejects c = (c != '{')
  star : r.avoids '*' = true
  /-- the head of an array -/
  open_line : ∀ b, matchStart r ('{' :: '\n' :: b) = none
  /-- the end of the sync managers -/
  last : ∀ b, matchStart r ("\x7b0xff\x7d".toList ++ b) = none

theorem braced_entry : Braced entryRe := ⟨fun _ => rfl, by decide, fun _ => rfl, fun _ => rfl⟩

theorem braced_pdo : Braced pdoRe := ⟨fun _ => rfl, by decide, fun _ => rfl, fun _ => rfl⟩

theorem braced_sync : Braced syncRe := ⟨fun _ => rfl, by decide, fun _ => rfl, fun _ => rfl⟩

/-- The expressions find nothing in the comment that the name is printed as. -/
def Inert (name : List Char) : Prop :=
  ∀ r ∈ [entryRe, pdoRe, syncRe], globalMatch r (' ' :: name ++ [' ']) = []

section
variable {r : Re} (hr : Braced r)
include hr

theorem skip_plain {a : List Char} (h : '{' ∉ a) (b : List Char) : globalMatch r (a ++ b) = globalMatch r b := by
  refine globalMatch_quiet (quiet_of_not_mem ?_ h b)
  intro c s hc
  exact run_rejects (by rw [hr.brace]; simpa using hc) s [] _

theorem skip_comment {name : List Char} (h : globalMatch r (' ' :: name ++ [' ']) = []) (b : List Char) :
    globalMatch r (comment name ++ b) = globalMatch r b := by
  unfold comment
  split
  · rfl
  · rw [List.append_assoc, List.append_assoc, skip_plain hr (by decide)]
    show globalMatch r ((' ' :: name ++ [' ']) ++ '*' :: ('/' :: b)) = _
    rw [globalMatch_quiet (quiet_of_globalMatch hr.star h _)]
    exact skip_plain hr (a := ['*', '/']) (by decide) b

/-- A group in braces that the expression does not match. -/
theorem skip_group {t : List Char} (ht : '{' ∉ t) (b : List Char) (hno : matchStart r ('{' :: (t ++ b)) = none) :
    globalMatch r ('{' :: (t ++ b)) = globalMatch r b := by
  rw [globalMatch_skip hno, skip_plain hr ht]

end

theorem brace_not_digit {base : Nat} (hb : base ≤ 36) {cs : List Char} (h : ∀ c ∈ cs, isDigitOf base c = true) :
    '{' ∉ cs := by
  intro hm
  have := isDigitOf_mono hb (h '{' hm)
  exact absurd this (by decide)

theorem brace_dec (n : Nat) : '{' ∉ dec n := brace_not_digit (by decide) isDigitOf_dec

theorem brace_hex (w n : Nat) : '{' ∉ hexField w n := brace_not_digit (by decide) isDigitOf_hexField

theorem brace_prefixed (number : Nat) {name : String} (h : '{' ∉ name.toList) : '{' ∉ prefixed number name := by
  simp [prefixed_eq, brace_dec, h]

theorem brace_pointer (number start count : Nat) {name : String} (h : '{' ∉ name.toList) :
    '{' ∉ pointer number name start count := by
  unfold pointer
  split
  · decide
  · simp [brace_prefixed number h, brace_dec]

theorem entryText_group (e : EntrySpec) : ∃ t, entryText e = '{' :: t ∧ '{' ∉ t := by
  refine ⟨"0x".toList ++ hexField 4 e.index.toNat ++ ", 0x".toList ++ hexField 2 e.subindex.toNat ++ ", ".toList ++
    dec e.bitLength.toNat ++ ['}'], rfl, ?_⟩
  simp [brace_dec, brace_hex]

theorem pdoText_group (number start : Nat) (p : PdoSpec) : ∃ t, pdoText number start p = '{' :: t ∧ '{' ∉ t := by
  refine ⟨"0x".toList ++ hexField 4 p.index.toNat ++ ", ".toList ++ dec p.entries.length ++ ", ".toList ++
    pointer number "_pdo_entries" start p.entries.length ++ ['}'], rfl, ?_⟩
  simp [brace_dec, brace_hex, brace_pointer]

theorem syncText_group (number start : Nat) (s : SyncSpec) : ∃ t, syncText number start s = '{' :: t ∧ '{' ∉ t := by
  refine ⟨dec s.index.toNat ++ ", ".toList ++ s.direction.text ++ ", ".toList ++ dec s.pdos.length ++ ", ".toList ++
    pointer number "_pdos" start s.pdos.length ++ ", ".toList ++ s.watchdog.text ++ ['}'], rfl, ?_⟩
  have hd : '{' ∉ s.direction.text := by cases s.direction <;> decide
  have hw : '{' ∉ s.watchdog.text := by cases s.watchdog <;> decide
  simp [brace_dec, brace_pointer, hd, hw]

section
variable {r : Re} (hr : Braced r) {text tail : List Char} (b : List Char)
  (htail : globalMatch r (tail ++ b) = globalMatch r b)
include hr htail

/-- A line that the expression does not match. -/
theorem skip_line (htext : ∃ t, text = '{' :: t ∧ '{' ∉ t) (hno : ∀ b, matchStart r (text ++ b) = none) :
    globalMatch r ("    ".toList ++ text ++ tail ++ b) = globalMatch r b := by
  obtain ⟨t, rfl, ht⟩ := htext
  rw [List.append_assoc, List.append_assoc, skip_plain hr (by decide), List.cons_append,
    skip_group hr ht _ (hno (tail ++ b)), htail]

/-- A line that it does. -/
theorem hit_line (hne : text ≠ []) {g : Groups} (hm : ∀ b, matchStart r (text ++ b) = some (g, b)) :
    globalMatch r ("    ".toList ++ text ++ tail ++ b) = (g, tail ++ b) :: globalMatch r b := by
  rw [List.append_assoc, List.append_assoc, skip_plain hr (by decide), globalMatch_hit hne (hm (tail ++ b)), htail]

end

theorem scan_array {r : Re} (hr : Braced r) {type name : String} (ht : '{' ∉ type.toList) (hn : '{' ∉ name.toList)
    (number : Nat) (body b : List Char) :
    globalMatch r (array type number name body ++ b) = globalMatch r (body ++ ("\x7d;\n\n".toList ++ b)) := by
  unfold array
  split
  · rename_i hb
    rw [List.isEmpty_iff.1 hb, List.nil_append, List.nil_append, skip_plain hr (by decide)]
  · have hhead : '{' ∉ type.toList ++ [' '] ++ prefixed number name ++ "[] = ".toList := by
      simp [ht, brace_prefixed number hn]
    have htext : type.toList ++ [' '] ++ prefixed number name ++ "[] = \x7b\n".toList ++ body ++ "\x7d;\n\n".toList ++ b =
        (type.toList ++ [' '] ++ prefixed number name ++ "[] = ".toList) ++
          ('{' :: '\n' :: (body ++ ("\x7d;\n\n".toList ++ b))) := by
      simp
    rw [htext, skip_plain hr hhead, globalMatch_skip (hr.open_line _)]
    exact skip_plain hr (a := ['\n']) (by decide) _

/-! ## The three scans -/

def seenEntry (e : EntrySpec) : EntrySpec := { e with name := seenName e.name }

theorem entryLine_append (e : EntrySpec) (b : List Char) :
    entryLine e ++ b = "    ".toList ++ entryText e ++ ([','] ++ (comment e.name ++ ['\n'])) ++ b := by
  unfold entryLine
  simp

theorem skip_entry_tail {r : Re} (hr : Braced r) {name : List Char} (h : globalMatch r (' ' :: name ++ [' ']) = [])
    (b : List Char) : globalMatch r ([','] ++ (comment name ++ ['\n']) ++ b) = globalMatch r b := by
  rw [List.append_assoc, List.append_assoc, skip_plain hr (by decide), skip_comment hr h, skip_plain hr (by decide)]

/-- The numbers of an entry are read back. -/
theorem entrySpec_entry (e : EntrySpec) (rest : List Char) :
    entrySpec ([some (hexField 4 e.index.toNat), some (hexField 2 e.subindex.toNat), some (dec e.bitLength.toNat)], rest) =
      { e with name := commentName rest } := by
  have h1 : toUShort 16 (hexField 4 e.index.toNat) = some e.index.toNat := toUnsigned_hexField e.index.toNat_lt
  have h2 : toUShort 16 (hexField 2 e.subindex.toNat) = some e.subindex.toNat :=
    toUnsigned_hexField (by have := e.subindex.toNat_lt; omega)
  have h3 : toUShort 10 (dec e.bitLength.toNat) = some e.bitLength.toNat :=
    toUnsigned_dec (by have := e.bitLength.toNat_lt; omega)
  simp [entrySpec, captured, h1, h2, h3]

theorem scan_entryLines {es : List EntrySpec} (h : ∀ e ∈ es, Inert e.name) (b : List Char) :
    (globalMatch entryRe (es.flatMap entryLine ++ b)).map entrySpec =
      es.map seenEntry ++ (globalMatch entryRe b).map entrySpec := by
  induction es with
  | nil => rfl
  | cons e es ih =>
    have hi := h e List.mem_cons_self entryRe (by simp)
    obtain ⟨t, ht, -⟩ := entryText_group e
    rw [List.flatMap_cons, List.append_assoc, entryLine_append,
      hit_line braced_entry _ (skip_entry_tail braced_entry hi _) (by simp [ht]) (matchStart_entry e), List.map_cons,
      ih fun x hx => h x (List.mem_cons_of_mem _ hx), entrySpec_entry, commentName_append]
    rfl

theorem skip_entryLines {r : Re} (hr : Braced r) (hno : ∀ e b, matchStart r (entryText e ++ b) = none)
    {es : List EntrySpec} (h : ∀ e ∈ es, globalMatch r (' ' :: e.name ++ [' ']) = []) (b : List Char) :
    globalMatch r (es.flatMap entryLine ++ b) = globalMatch r b := by
  induction es with
  | nil => rfl
  | cons e es ih =>
    rw [List.flatMap_cons, List.append_assoc, entryLine_append,
      skip_line hr _ (skip_entry_tail hr (h e List.mem_cons_self) _) (entryText_group e) (hno e),
      ih fun x hx => h x (List.mem_cons_of_mem _ hx)]

/-- The tail of a PDO or sync manager line. -/
theorem skip_plain_tail {r : Re} (hr : Braced r) (b : List Char) :
    globalMatch r (",\n".toList ++ b) = globalMatch r b := skip_plain hr (by decide) b

theorem pdoLine_append (number start : Nat) (p : PdoSpec) (b : List Char) :
    pdoLine number start p ++ b = "    ".toList ++ pdoText number start p ++ ",\n".toList ++ b := rfl

theorem syncLine_append (number start : Nat) (s : SyncSpec) (b : List Char) :
    syncLine number start s ++ b = "    ".toList ++ syncText number start s ++ ",\n".toList ++ b := rfl

/-- What the second scan finds: PDOs without entries are missing. -/
def seenPdos (E : List EntrySpec) : Nat → List PdoSpec → List PdoSpec
  | _, [] => []
  | start, p :: ps =>
    let rest := seenPdos E (start + p.entries.length) ps
    if p.entries.isEmpty then rest else { p with entries := (E.drop start).take p.entries.length } :: rest

theorem pdoSpec_pdo {E : List EntrySpec} {start : Nat} (p : PdoSpec) (h : start + p.entries.length < 2 ^ 31)
    (rest : List Char) :
    pdoSpec E ([some (hexField 4 p.index.toNat), some (dec p.entries.length), some (dec start)], rest) =
      { p with entries := (E.drop start).take p.entries.length } := by
  have h1 : toUShort 16 (hexField 4 p.index.toNat) = some p.index.toNat := toUnsigned_hexField p.index.toNat_lt
  have h2 : toInt 10 (dec p.entries.length) = some (p.entries.length : Int) := toInt_dec (by omega)
  have h3 : toInt 10 (dec start) = some (start : Int) := toInt_dec (by omega)
  simp [pdoSpec, range, captured, h1, h2, h3]

theorem scan_pdoLines {E : List EntrySpec} {number start : Nat} {ps : List PdoSpec}
    (h : start + (ps.flatMap (·.entries)).length < 2 ^ 31) (b : List Char) :
    (globalMatch pdoRe (pdoLines number start ps ++ b)).map (pdoSpec E) =
      seenPdos E start ps ++ (globalMatch pdoRe b).map (pdoSpec E) := by
  induction ps generalizing start with
  | nil => rfl
  | cons p ps ih =>
    rw [List.flatMap_cons, List.length_append] at h
    have hfit : start + p.entries.length + (ps.flatMap (·.entries)).length < 2 ^ 31 := by omega
    have hrest := ih hfit
    rw [pdoLines, List.append_assoc, pdoLine_append, seenPdos]
    by_cases hp : p.entries = []
    · rw [skip_line braced_pdo _ (skip_plain_tail braced_pdo _) (pdoText_group number start p)
        (pdoRe_empty number start hp), hrest, if_pos (by simp [hp])]
    · obtain ⟨t, ht, -⟩ := pdoText_group number start p
      rw [hit_line braced_pdo _ (skip_plain_tail braced_pdo _) (by simp [ht]) (matchStart_pdo number start hp),
        List.map_cons, hrest, pdoSpec_pdo p (by omega), if_neg (by simpa using hp), List.cons_append]

theorem skip_pdoLines {r : Re} (hr : Braced r) (hno : ∀ number start p b, matchStart r (pdoText number start p ++ b) = none)
    (number start : Nat) (ps : List PdoSpec) (b : List Char) :
    globalMatch r (pdoLines number start ps ++ b) = globalMatch r b := by
  induction ps generalizing start with
  | nil => rfl
  | cons p ps ih =>
    rw [pdoLines, List.append_assoc, pdoLine_append, skip_line hr _ (skip_plain_tail hr _) (pdoText_group number start p)
      (hno number start p), ih]

/-- What the third scan finds. -/
def seenSyncs (P : List PdoSpec) : Nat → List SyncSpec → List SyncSpec
  | _, [] => []
  | start, s :: ss =>
    { s with pdos := (P.drop start).take s.pdos.length } :: seenSyncs P (start + s.pdos.length) ss

theorem syncSpec_sync {P : List PdoSpec} {start : Nat} (s : SyncSpec) (h : start + s.pdos.length < 2 ^ 31)
    (rest : List Char) :
    syncSpec P ([some (dec s.index.toNat), some s.direction.text, some (dec s.pdos.length),
      pointerGroup start s.pdos.length, some s.watchdog.text], rest) =
      { s with pdos := (P.drop start).take s.pdos.length } := by
  obtain ⟨index, direction, watchdog, pdos⟩ := s
  have h : start + pdos.length < 2 ^ 31 := h
  have h1 : toUShort 10 (dec index.toNat) = some index.toNat :=
    toUnsigned_dec (by have := index.toNat_lt; omega)
  have h2 : toInt 10 (dec pdos.length) = some (pdos.length : Int) := toInt_dec (by omega)
  have h3 : toInt 10 (dec start) = some (start : Int) := toInt_dec (by omega)
  have hindex : UInt8.ofNat ((toUShort 10 (dec index.toNat)).getD 0) = index := by
    rw [h1, Option.getD_some, UInt8.ofNat_toNat]
  have hd : (if direction.text = "EC_DIR_OUTPUT".toList then Direction.output else .input) = direction := by
    cases direction <;> rfl
  have hw : (if watchdog.text = "EC_WD_ENABLE".toList then Watchdog.enable else .disable) = watchdog := by
    cases watchdog <;> rfl
  have hp : (if ((pointerGroup start pdos.length).getD []).isEmpty then P.take ((toInt 10 (dec pdos.length)).getD 0).toNat
      else range P ((pointerGroup start pdos.length).getD []) (dec pdos.length)) = (P.drop start).take pdos.length := by
    rw [range, h2, pointerGroup]
    by_cases hc : pdos.length = 0
    · simp only [hc, Option.getD_some, Int.toNat_natCast, List.take_zero, ite_self]
    · rw [if_neg hc, Option.getD_some, Option.getD_some, h3, Option.getD_some, Int.toNat_natCast, Int.toNat_natCast,
        if_neg (by simpa using dec_ne_nil start)]
  exact congr (congr (congr (congrArg SyncSpec.mk hindex) hd) hw) hp

theorem scan_syncLines {P : List PdoSpec} {number start : Nat} {ss : List SyncSpec}
    (h : start + (ss.flatMap (·.pdos)).length < 2 ^ 31) (b : List Char) :
    (globalMatch syncRe (syncLines number start ss ++ b)).map (syncSpec P) =
      seenSyncs P start ss ++ (globalMatch syncRe b).map (syncSpec P) := by
  induction ss generalizing start with
  | nil => rfl
  | cons s ss ih =>
    rw [List.flatMap_cons, List.length_append] at h
    obtain ⟨t, ht, -⟩ := syncText_group number start s
    rw [syncLines, List.append_assoc, syncLine_append, hit_line braced_sync _ (skip_plain_tail braced_sync _) (by simp [ht])
      (matchStart_sync number start s), List.map_cons, ih (by omega), syncSpec_sync s (by omega), seenSyncs,
      List.cons_append]

theorem skip_syncLines {r : Re} (hr : Braced r) (hno : ∀ number start s b, matchStart r (syncText number start s ++ b) = none)
    (number start : Nat) (ss : List SyncSpec) (b : List Char) :
    globalMatch r (syncLines number start ss ++ b) = globalMatch r b := by
  induction ss generalizing start with
  | nil => rfl
  | cons s ss ih =>
    rw [syncLines, List.append_assoc, syncLine_append, skip_line hr _ (skip_plain_tail hr _) (syncText_group number start s)
      (hno number start s), ih]

/-! ## The whole text -/

section
variable {r : Re} (hr : Braced r)
include hr

theorem skip_last (b : List Char) : globalMatch r ("    \x7b0xff\x7d\n".toList ++ b) = globalMatch r b := by
  have ht : "    \x7b0xff\x7d\n".toList ++ b = "    ".toList ++ ('{' :: ("0xff\x7d".toList ++ ('\n' :: b))) := rfl
  have hno : matchStart r ('{' :: ("0xff\x7d".toList ++ ('\n' :: b))) = none := hr.last ('\n' :: b)
  rw [ht, skip_plain hr (by decide), skip_group hr (by decide) _ hno]
  exact skip_plain hr (a := ['\n']) (by decide) b

theorem skip_head (master number : Nat) (slave : SlaveSpec) (b : List Char) :
    globalMatch r (headComment master number slave ++ b) = globalMatch r b := by
  have h1 := brace_dec master
  have h2 := brace_dec number
  have h3 := brace_hex 8 slave.vendorId.toNat
  have h4 := brace_hex 8 slave.productCode.toNat
  have h : '{' ∉ headComment master number slave := by
    unfold headComment
    simp only [List.mem_append, h1, h2, h3, h4, or_false, not_or]
    decide +kernel
  exact skip_plain hr h b

/-- The entries and PDOs of the text behind the arrays. -/
theorem skip_close (b : List Char) : globalMatch r ("\x7d;\n\n".toList ++ b) = globalMatch r b :=
  skip_plain hr (by decide) b

end

theorem scan_syncs {P : List PdoSpec} {number : Nat} {ss : List SyncSpec} (h : (ss.flatMap (·.pdos)).length < 2 ^ 31)
    (b : List Char) :
    (globalMatch syncRe ((if ss.isEmpty then [] else syncLines number 0 ss ++ "    \x7b0xff\x7d\n".toList) ++ b)).map
      (syncSpec P) = seenSyncs P 0 ss ++ (globalMatch syncRe b).map (syncSpec P) := by
  split
  · rename_i he
    rw [List.isEmpty_iff.1 he]
    rfl
  · rw [List.append_assoc, scan_syncLines (by omega), skip_last braced_sync]

theorem skip_syncs {r : Re} (hr : Braced r)
    (hno : ∀ number start s b, matchStart r (syncText number start s ++ b) = none) (number : Nat) (ss : List SyncSpec)
    (b : List Char) :
    globalMatch r ((if ss.isEmpty then [] else syncLines number 0 ss ++ "    \x7b0xff\x7d\n".toList) ++ b) =
      globalMatch r b := by
  split
  · rfl
  · rw [List.append_assoc, skip_syncLines hr hno, skip_last hr]

/-- No name holds what looks like a line, and the numbers fit an `int`. -/
structure Plain (slave : SlaveSpec) : Prop where
  inert : ∀ e ∈ allEntries slave, Inert e.name
  entries : (allEntries slave).length < 2 ^ 31
  pdos : (allPdos slave).length < 2 ^ 31

section
variable {slave : SlaveSpec} (h : Plain slave) (master number : Nat)
include h

theorem cstruct_entries :
    (globalMatch entryRe (cstruct master number slave)).map entrySpec = (allEntries slave).map seenEntry := by
  have hb := braced_entry
  have hsyncs := skip_syncs hb entryRe_sync number slave.syncs "\x7d;\n\n".toList
  rw [cstruct, skip_head hb, scan_array hb (by decide) (by decide), scan_entryLines h.inert, skip_close hb,
    scan_array hb (by decide) (by decide), skip_pdoLines hb entryRe_pdo, skip_close hb,
    ← List.append_nil (array "ec_sync_info_t" _ _ _), scan_array hb (by decide) (by decide), List.append_nil, hsyncs]
  exact List.append_nil _

theorem cstruct_pdos (E : List EntrySpec) :
    (globalMatch pdoRe (cstruct master number slave)).map (pdoSpec E) = seenPdos E 0 (allPdos slave) := by
  have hb := braced_pdo
  have hsyncs := skip_syncs hb pdoRe_sync number slave.syncs "\x7d;\n\n".toList
  have hinert := fun e he => h.inert e he pdoRe (by simp)
  rw [cstruct, skip_head hb, scan_array hb (by decide) (by decide), skip_entryLines hb pdoRe_entry hinert, skip_close hb,
    scan_array hb (by decide) (by decide), scan_pdoLines (by rw [Nat.zero_add]; exact h.entries), skip_close hb,
    ← List.append_nil (array "ec_sync_info_t" _ _ _), scan_array hb (by decide) (by decide), List.append_nil, hsyncs]
  exact List.append_nil _

theorem cstruct_syncs (P : List PdoSpec) :
    (globalMatch syncRe (cstruct master number slave)).map (syncSpec P) = seenSyncs P 0 slave.syncs := by
  have hb := braced_sync
  have hsyncs := @scan_syncs P number _ h.pdos "\x7d;\n\n".toList
  have hinert := fun e he => h.inert e he syncRe (by simp)
  rw [cstruct, skip_head hb, scan_array hb (by decide) (by decide), skip_entryLines hb syncRe_entry hinert,
    skip_close hb, scan_array hb (by decide) (by decide), skip_pdoLines hb syncRe_pdo, skip_close hb,
    ← List.append_nil (array "ec_sync_info_t" _ _ _), scan_array hb (by decide) (by decide), List.append_nil, hsyncs]
  exact List.append_nil _

end

section
variable (label : String) {blanks : List Char} (hb : ∀ c ∈ blanks, isSpace c = true) (hne : blanks ≠ []) (n : Nat)
  (b : List Char)
include hb hne

theorem matchStart_id :
    matchStart (idRe label) (label.toList ++ (blanks ++ ('0' :: 'x' :: (hexField 8 n ++ '\n' :: b)))) =
      some ([some (hexField 8 n)], '\n' :: b) := by
  have hre : idRe label = .cat (.lit label.toList) (.cat (.plus isSpace) (.cat (.lit ['0', 'x']) (.cat hex (.lit [])))) :=
    rfl
  have hend : Stops (isDigitOf 16) ('\n' :: b) := stops_cons (by decide) b
  rw [hre, matchStart, run_lit_cat, run_plus_cat hb (stops_cons (by decide) _) (rejects_lit (by decide)) hne]
  simp only [run_lit_same, run_nil_cat]
  rw [run_cat]
  exact run_group_greedy (k := fun s' g' => run (.lit []) s' g' _) (hexField_ne_nil 8 n) isDigitOf_hexField hend rfl

/-- The label is found where its first character first occurs. -/
theorem firstMatch_id {x : Char} (hx : label.toList.head? = some x) {pre : List Char} (hpre : x ∉ pre) :
    firstMatch (idRe label) (pre ++ (label.toList ++ (blanks ++ ('0' :: 'x' :: (hexField 8 n ++ '\n' :: b))))) =
      some [some (hexField 8 n)] := by
  obtain ⟨t, ht⟩ := List.head?_eq_some_iff.1 hx
  have hquiet : Quiet (idRe label) pre (label.toList ++ (blanks ++ ('0' :: 'x' :: (hexField 8 n ++ '\n' :: b)))) := by
    refine quiet_of_not_mem (x := x) ?_ hpre _
    intro c s hc
    refine run_rejects ?_ s [] _
    simp [idRe, Re.seq, Re.rejects, ht, hc]
  have hm := matchStart_id label hb hne n b
  rw [firstMatch, globalMatch_quiet hquiet]
  have hsplit : label.toList ++ (blanks ++ ('0' :: 'x' :: (hexField 8 n ++ '\n' :: b))) =
      (label.toList ++ (blanks ++ ('0' :: 'x' :: hexField 8 n))) ++ ('\n' :: b) := by simp
  rw [hsplit] at hm ⊢
  rw [globalMatch_hit (by simp) hm]
  rfl

end

section
variable (master number : Nat) (slave : SlaveSpec) (b : List Char)

theorem headComment_vendor :
    firstMatch (idRe "Vendor ID:") (headComment master number slave ++ b) =
      some [some (hexField 8 slave.vendorId.toNat)] := by
  have hpre : 'V' ∉ "/* Master ".toList ++ dec master ++ ", Slave ".toList ++ dec number ++ "\n * ".toList := by
    have h1 : 'V' ∉ dec master := fun hm => absurd (isDigitOf_dec 'V' hm) (by decide)
    have h2 : 'V' ∉ dec number := fun hm => absurd (isDigitOf_dec 'V' hm) (by decide)
    simp only [List.mem_append, h1, h2, or_false, not_or]
    decide +kernel
  have hlabel : "Vendor ID:".toList.head? = some 'V' := by decide +kernel
  have hblanks : ∀ c ∈ List.replicate 7 ' ', isSpace c = true := List.all_eq_true.1 (by decide)
  have h := firstMatch_id "Vendor ID:" hblanks (by decide) slave.vendorId.toNat
    (" * Product code:    0x".toList ++ hexField 8 slave.productCode.toNat ++ "\n */\n\n".toList ++ b) hlabel hpre
  rw [← h]
  congr 1
  unfold headComment
  simp

theorem headComment_product :
    firstMatch (idRe "Product code:") (headComment master number slave ++ b) =
      some [some (hexField 8 slave.productCode.toNat)] := by
  have hpre : 'P' ∉ "/* Master ".toList ++ dec master ++ ", Slave ".toList ++ dec number ++
      "\n * Vendor ID:       0x".toList ++ hexField 8 slave.vendorId.toNat ++ "\n * ".toList := by
    have h1 : 'P' ∉ dec master := fun hm => absurd (isDigitOf_dec 'P' hm) (by decide)
    have h2 : 'P' ∉ dec number := fun hm => absurd (isDigitOf_dec 'P' hm) (by decide)
    have h3 : 'P' ∉ hexField 8 slave.vendorId.toNat := fun hm => absurd (isDigitOf_hexField 'P' hm) (by decide)
    simp only [List.mem_append, h1, h2, h3, or_false, not_or]
    decide +kernel
  have hlabel : "Product code:".toList.head? = some 'P' := by decide +kernel
  have hblanks : ∀ c ∈ List.replicate 4 ' ', isSpace c = true := List.all_eq_true.1 (by decide)
  have h := firstMatch_id "Product code:" hblanks (by decide) slave.productCode.toNat
    (" */\n\n".toList ++ b) hlabel hpre
  rw [← h]
  congr 1
  unfold headComment
  simp

end

/-! ## The tree -/

/-- **The tree the parser returns.** -/
theorem parseCStruct_cstruct {slave : SlaveSpec} (h : Plain slave) (position : UInt16) (master number : Nat) :
    parseCStruct position (cstruct master number slave) =
      if slave.syncs.isEmpty then
        .error ("No PDO sync information found for slave " ++ QString.number position.toNat ++ ".")
      else
        .ok { slave with
          aliasAddress := 0
          position := position
          syncs := seenSyncs (seenPdos ((allEntries slave).map seenEntry) 0 (allPdos slave)) 0 slave.syncs } := by
  have hvendor : firstMatch (idRe "Vendor ID:") (cstruct master number slave) =
      some [some (hexField 8 slave.vendorId.toNat)] := headComment_vendor master number slave _
  have hproduct : firstMatch (idRe "Product code:") (cstruct master number slave) =
      some [some (hexField 8 slave.productCode.toNat)] := headComment_product master number slave _
  have h1 : toUInt 16 (hexField 8 slave.vendorId.toNat) = some slave.vendorId.toNat :=
    toUnsigned_hexField slave.vendorId.toNat_lt
  have h2 : toUInt 16 (hexField 8 slave.productCode.toNat) = some slave.productCode.toNat :=
    toUnsigned_hexField slave.productCode.toNat_lt
  have hempty : (seenSyncs (seenPdos ((allEntries slave).map seenEntry) 0 (allPdos slave)) 0 slave.syncs).isEmpty =
      slave.syncs.isEmpty := by
    cases slave.syncs <;> rfl
  simp only [parseCStruct, hvendor, hproduct, cstruct_entries h, cstruct_pdos h, cstruct_syncs h, hempty]
  simp [captured, h1, h2]

/-- The parser gives the tree back, under the position it was asked for. -/
def Recovers (position : UInt16) (master number : Nat) (slave : SlaveSpec) : Prop :=
  parseCStruct position (cstruct master number slave) = .ok { slave with aliasAddress := 0, position := position }

/-- There is a sync manager, every PDO has an entry, and the comments give the
names back. -/
structure Complete (slave : SlaveSpec) : Prop where
  syncs : slave.syncs ≠ []
  pdos : ∀ p ∈ allPdos slave, p.entries ≠ []
  names : ∀ e ∈ allEntries slave, GoodName e.name

theorem seenPdos_self {ps : List PdoSpec} (h : ∀ p ∈ ps, p.entries ≠ []) (before : List EntrySpec) :
    seenPdos (before ++ ps.flatMap (·.entries)) before.length ps = ps := by
  induction ps generalizing before with
  | nil => rfl
  | cons p ps ih =>
    have hp : p.entries ≠ [] := h p List.mem_cons_self
    have hrest := ih (fun q hq => h q (List.mem_cons_of_mem _ hq)) (before ++ p.entries)
    rw [List.length_append, List.append_assoc] at hrest
    simp only [seenPdos, List.flatMap_cons, hrest, List.drop_left, List.take_left]
    rw [if_neg (by simpa using hp)]

theorem seenSyncs_self (ss : List SyncSpec) (before : List PdoSpec) :
    seenSyncs (before ++ ss.flatMap (·.pdos)) before.length ss = ss := by
  induction ss generalizing before with
  | nil => rfl
  | cons s ss ih =>
    have hrest := ih (before ++ s.pdos)
    rw [List.length_append, List.append_assoc] at hrest
    simp only [seenSyncs, List.flatMap_cons, hrest, List.drop_left, List.take_left]

theorem seenEntry_self {es : List EntrySpec} : es.map seenEntry = es ↔ ∀ e ∈ es, seenEntry e = e := by
  have h := List.map_inj_left (f := seenEntry) (g := id) (l := es)
  rw [List.map_id] at h
  exact h

/-- The PDOs share out the entries in order. -/
theorem seenPdos_entries (E : List EntrySpec) (start : Nat) (ps : List PdoSpec) :
    (seenPdos E start ps).flatMap (·.entries) = (E.drop start).take (ps.flatMap (·.entries)).length := by
  induction ps generalizing start with
  | nil => rfl
  | cons p ps ih =>
    rw [List.flatMap_cons, List.length_append, List.take_add, List.drop_drop, ← ih, seenPdos]
    by_cases hp : p.entries = []
    · simp [hp]
    · simp [hp]

theorem seenSyncs_pdos (P : List PdoSpec) (start : Nat) (ss : List SyncSpec) :
    (seenSyncs P start ss).flatMap (·.pdos) = (P.drop start).take (ss.flatMap (·.pdos)).length := by
  induction ss generalizing start with
  | nil => rfl
  | cons s ss ih => rw [List.flatMap_cons, List.length_append, List.take_add, List.drop_drop, ← ih]; rfl

theorem length_seenPdos (E : List EntrySpec) (start : Nat) (ps : List PdoSpec) :
    (seenPdos E start ps).length = (ps.filter fun p => !p.entries.isEmpty).length := by
  induction ps generalizing start with
  | nil => rfl
  | cons p ps ih =>
    rw [seenPdos, List.filter_cons]
    by_cases hp : p.entries = []
    · simp [hp, ih]
    · simp [hp, ih]

/-- **A printed tree is recovered iff it is complete.** -/
theorem recovers_iff {slave : SlaveSpec} (h : Plain slave) (position : UInt16) (master number : Nat) :
    Recovers position master number slave ↔ Complete slave := by
  rw [Recovers, parseCStruct_cstruct h]
  generalize hE : (allEntries slave).map seenEntry = E
  constructor
  · intro heq
    by_cases hs : slave.syncs = []
    · rw [if_pos (by simpa using hs)] at heq
      cases heq
    rw [if_neg (by simpa using hs)] at heq
    have hsyncs : seenSyncs (seenPdos E 0 (allPdos slave)) 0 slave.syncs = slave.syncs :=
      congrArg SlaveSpec.syncs (Except.ok.inj heq)
    -- as many PDOs were found as there are, so none was passed over
    have htake : (seenPdos E 0 (allPdos slave)).take (allPdos slave).length = allPdos slave := by
      have := seenSyncs_pdos (seenPdos E 0 (allPdos slave)) 0 slave.syncs
      rw [hsyncs] at this
      exact this.symm
    have hle : (seenPdos E 0 (allPdos slave)).length ≤ (allPdos slave).length := by
      rw [length_seenPdos]
      exact List.length_filter_le _ _
    rw [List.take_of_length_le hle] at htake
    have hall : ∀ p ∈ allPdos slave, p.entries ≠ [] := by
      have hlen := length_seenPdos E 0 (allPdos slave)
      rw [htake] at hlen
      intro p hp
      have := List.length_filter_eq_length_iff.1 hlen.symm p hp
      simpa using this
    refine ⟨hs, hall, ?_⟩
    have hentries : allEntries slave = E := by
      have := seenPdos_entries E 0 (allPdos slave)
      rw [htake] at this
      have hl : E.length = ((allPdos slave).flatMap (·.entries)).length := by rw [← hE, List.length_map]; rfl
      rw [← hl, List.drop_zero, List.take_length] at this
      exact this
    intro e he
    rw [← hE] at hentries
    have hself : seenEntry e = e := seenEntry_self.1 hentries.symm e he
    exact (seenName_eq_iff e.name).1 (congrArg EntrySpec.name hself)
  · intro hc
    have hnames : E = allEntries slave := by
      rw [← hE]
      refine seenEntry_self.2 fun e he => ?_
      rw [seenEntry, (seenName_eq_iff e.name).2 (hc.names e he)]
    have hpdos : seenPdos E 0 (allPdos slave) = allPdos slave := by
      rw [hnames]
      exact seenPdos_self hc.pdos []
    have hsyncs : seenSyncs (allPdos slave) 0 slave.syncs = slave.syncs := seenSyncs_self slave.syncs []
    rw [if_neg (by simpa using hc.syncs), hpdos, hsyncs]

theorem inert_nil : Inert [] := by
  intro r hr
  simp only [List.mem_cons, List.not_mem_nil, or_false] at hr
  rcases hr with rfl | rfl | rfl <;> rfl

/-- One input sync manager, its PDOs with one unnamed entry each or none. -/
def inputs (pdos : List PdoSpec) : SlaveSpec :=
  { aliasAddress := 0, position := 0, vendorId := 2, productCode := 0x07d83052,
    syncs := [{ index := 3, direction := .input, watchdog := .disable, pdos := pdos }] }

def statusWord : EntrySpec := { index := 0x6041, subindex := 0, bitLength := 16, name := [] }

theorem plain_inputs {pdos : List PdoSpec} (h : ∀ e ∈ pdos.flatMap (·.entries), e.name = [])
    (hentries : (pdos.flatMap (·.entries)).length < 8) (hpdos : pdos.length < 8) : Plain (inputs pdos) := by
  have ha : allPdos (inputs pdos) = pdos := List.append_nil pdos
  refine ⟨?_, ?_, ?_⟩
  · intro e he
    rw [allEntries, ha] at he
    rw [h e he]
    exact inert_nil
  · rw [allEntries, ha]; omega
  · rw [ha]; omega

theorem recovers_inputs : Recovers 0 0 0 (inputs [{ index := 0x1a00, entries := [statusWord] }]) :=
  (recovers_iff (plain_inputs (by decide) (by decide) (by decide)) 0 0 0).2
    ⟨by decide, by decide, fun e he => ⟨by rw [List.mem_singleton.1 he]; rfl, by rw [List.mem_singleton.1 he]; decide⟩⟩

/-- A PDO without entries is lost: the second PDO takes its place. -/
theorem empty_pdo_shifts :
    ¬ Recovers 0 0 0
      (inputs [{ index := 0x1a00, entries := [] }, { index := 0x1a01, entries := [statusWord] }]) := by
  rw [Recovers, parseCStruct_cstruct (plain_inputs (by decide) (by decide) (by decide))]
  decide

end NekoEcat.L2.CStruct
