import NekoEcat.Core.Assoc
import NekoEcat.L4Gui.PlcHandoff

/-!
# The comments of the PLC handoff

A comment is cleared of the delimiters by two replacements, `(*` by `(` and then
`*)` by `)`. Each takes one star away, so a second star takes its place.

* `hasDelimiter_comment`: what is left of a text has a delimiter iff the text has
  a star too many.
* `harmful_append`: that is seen in the parts a comment is put together of.
* `contained_iff`: which rows leave each line of the block with one comment.
-/
namespace NekoEcat.L4.PlcHandoff
open NekoEcat.QNumber NekoEcat.QString NekoEcat.L4.PlcNames

/-! ## Two replacements -/

/-- A delimiter somewhere. -/
def hasDelimiter : Text → Bool
  | x :: y :: cs => (x == '(' && y == '*') || (x == '*' && y == ')') || hasDelimiter (y :: cs)
  | _ => false

/-- What the second replacement leaves a delimiter of: `(*` before something other
than `)`, and `**)`. -/
def left : Text → Bool
  | x :: y :: cs =>
    (x == '(' && y == '*' && cs.head? != some ')') || (x == '*' && y == '*' && cs.head? == some ')') || left (y :: cs)
  | _ => false

/-- A star too many somewhere: `(**` before something other than `)`, or `**)`
behind something other than `(`. `behindOpen`: a `(` stands before the text. -/
def harmful : Bool → Text → Bool
  | behindOpen, x :: y :: cs =>
    (x == '(' && y == '*' && cs.head? == some '*' && cs.tail.head? != some ')') ||
      (!behindOpen && x == '*' && y == '*' && cs.head? == some ')') || harmful (x == '(') (y :: cs)
  | _, _ => false

theorem replacePair_hit (a b : Char) (by' cs : Text) :
    replacePair a b by' (a :: b :: cs) = by' ++ replacePair a b by' cs := by
  rw [replacePair, if_pos ⟨rfl, rfl⟩]

theorem replacePair_miss {a b x y : Char} (h : ¬ (x = a ∧ y = b)) (by' cs : Text) :
    replacePair a b by' (x :: y :: cs) = x :: replacePair a b by' (y :: cs) := by
  rw [replacePair, if_neg h]

/-- The first character that the second replacement leaves. -/
theorem replaceClose_cons (y : Char) (cs : Text) : ∃ rest, replacePair '*' ')' [')'] (y :: cs) =
    (if y = '*' ∧ cs.head? = some ')' then ')' else y) :: rest := by
  cases cs with
  | nil => exact ⟨[], by simp [replacePair]⟩
  | cons z cs =>
    by_cases h : y = '*' ∧ z = ')'
    · obtain ⟨rfl, rfl⟩ := h
      exact ⟨_, replacePair_hit _ _ _ _⟩
    · refine ⟨replacePair '*' ')' [')'] (z :: cs), ?_⟩
      rw [replacePair_miss h, if_neg (by simpa using h)]

theorem hasDelimiter_cons {x : Char} (hopen : x ≠ '(') (hstar : x ≠ '*') (text : Text) :
    hasDelimiter (x :: text) = hasDelimiter text := by
  cases text with
  | nil => rfl
  | cons y cs => simp [hasDelimiter, hopen, hstar]

theorem hasDelimiter_replaceClose (text : Text) : hasDelimiter (replacePair '*' ')' [')'] text) = left text := by
  induction text using replacePair.induct '*' ')' with
  | case1 x y cs h ih =>
    obtain ⟨rfl, rfl⟩ := h
    rw [replacePair_hit, List.cons_append, List.nil_append, hasDelimiter_cons (by decide) (by decide), ih]
    cases cs <;> simp [left]
  | case2 x y cs h ih =>
    rw [replacePair_miss h]
    obtain ⟨rest, hrest⟩ := replaceClose_cons y cs
    rw [hrest] at ih ⊢
    rw [hasDelimiter, ih, left]
    congr 1
    by_cases hy : y = '*'
    · subst hy
      by_cases hcs : cs.head? = some ')'
      · simp [hcs]
      · have hhead : (cs.head? == some ')') = false := beq_eq_false_iff_ne.2 hcs
        simp [hcs, hhead, bne]
    · have hstar : (y == '*') = false := beq_eq_false_iff_ne.2 hy
      have hclose : (x == '*' && y == ')') = false := by simpa using h
      simp [hy, hstar, hclose]
  | case3 cs h =>
    cases cs with
    | nil => rfl
    | cons x cs =>
      cases cs with
      | nil => simp [replacePair, hasDelimiter, left]
      | cons y cs => exact absurd rfl (h x y cs)

/-- The first replacement keeps the first character, and the rest if it is no `(`. -/
theorem replaceOpen_cons (y : Char) (cs : Text) : ∃ rest, replacePair '(' '*' ['('] (y :: cs) = y :: rest ∧
    (y ≠ '(' → rest = replacePair '(' '*' ['('] cs) := by
  cases cs with
  | nil => exact ⟨[], by simp [replacePair], fun _ => by simp [replacePair]⟩
  | cons z cs =>
    by_cases h : y = '(' ∧ z = '*'
    · obtain ⟨rfl, rfl⟩ := h
      exact ⟨_, replacePair_hit _ _ _ _, fun h => absurd rfl h⟩
    · exact ⟨_, replacePair_miss h _ _, fun _ => rfl⟩

theorem head_replaceOpen (cs : Text) : (replacePair '(' '*' ['('] cs).head? = cs.head? := by
  cases cs with
  | nil => rfl
  | cons y cs =>
    obtain ⟨rest, hrest, -⟩ := replaceOpen_cons y cs
    rw [hrest]
    rfl

/-- A `(` before a text matters only if the text starts with a star. -/
theorem harmful_behind {y : Char} (hy : y ≠ '*') (b : Bool) (cs : Text) : harmful b (y :: cs) = harmful false (y :: cs) := by
  cases cs with
  | nil => simp [harmful]
  | cons z cs =>
    have hstar : (y == '*') = false := beq_eq_false_iff_ne.2 hy
    simp [harmful, hstar]

theorem left_replaceOpen (text : Text) : left (replacePair '(' '*' ['('] text) = harmful false text := by
  induction text using replacePair.induct '(' '*' with
  | case1 x y cs h ih =>
    obtain ⟨rfl, rfl⟩ := h
    rw [replacePair_hit, List.cons_append, List.nil_append]
    cases cs with
    | nil => simp [replacePair, left, harmful]
    | cons z cs =>
      obtain ⟨rest, hrest, hstar⟩ := replaceOpen_cons z cs
      rw [hrest] at ih ⊢
      rw [left, ih]
      by_cases hz : z = '*'
      · subst hz
        rw [hstar (by decide), head_replaceOpen]
        simp [harmful]
      · have hno : (z == '*') = false := beq_eq_false_iff_ne.2 hz
        simp [harmful, hno]
  | case2 x y cs h ih =>
    rw [replacePair_miss h]
    obtain ⟨rest, hrest, hstar⟩ := replaceOpen_cons y cs
    rw [hrest] at ih ⊢
    rw [left, ih, harmful]
    by_cases hy : y = '*'
    · subst hy
      have hx : (x == '(') = false := beq_eq_false_iff_ne.2 fun heq => h ⟨heq, rfl⟩
      rw [hstar (by decide), head_replaceOpen]
      simp [hx]
    · have hno : (y == '*') = false := beq_eq_false_iff_ne.2 hy
      rw [harmful_behind hy (x == '(')]
      simp [hno]
  | case3 cs h =>
    cases cs with
    | nil => rfl
    | cons x cs =>
      cases cs with
      | nil => simp [replacePair, harmful, left]
      | cons y cs => exact absurd rfl (h x y cs)

/-! ## The parts of a comment -/

/-- A character that no delimiter has. -/
def Apart (c : Char) : Prop := c ≠ '(' ∧ c ≠ '*' ∧ c ≠ ')'

theorem harmful_append {s : Char} (hs : Apart s) (b : Bool) (xs ys : Text) :
    harmful b (xs ++ s :: ys) = (harmful b xs || harmful false ys) := by
  have hopen : (s == '(') = false := beq_eq_false_iff_ne.2 hs.1
  have hstar : (s == '*') = false := beq_eq_false_iff_ne.2 hs.2.1
  have hclose : (s == ')') = false := beq_eq_false_iff_ne.2 hs.2.2
  induction xs generalizing b with
  | nil => cases ys <;> simp [harmful, hopen, hstar]
  | cons x xs ih =>
    cases xs with
    | nil =>
      have hrest := ih (x == '(')
      rw [List.nil_append] at hrest
      rw [List.cons_append, List.nil_append, harmful, hrest]
      simp [harmful, hstar]
    | cons y xs =>
      rw [List.cons_append, List.cons_append, harmful, ← List.cons_append, ih, harmful]
      cases xs with
      | nil => simp [hstar, hclose]
      | cons z xs => cases xs <;> simp [Bool.or_assoc, bne, hclose]

theorem harmful_of_no_star {xs : Text} (h : '*' ∉ xs) (b : Bool) : harmful b xs = false := by
  induction xs generalizing b with
  | nil => rfl
  | cons x xs ih =>
    cases xs with
    | nil => rfl
    | cons y xs =>
      have hx : (x == '*') = false := beq_eq_false_iff_ne.2 fun heq => h (heq ▸ List.mem_cons_self)
      have hy : (y == '*') = false :=
        beq_eq_false_iff_ne.2 fun heq => h (heq ▸ List.mem_cons_of_mem _ List.mem_cons_self)
      rw [harmful, ih fun hmem => h (List.mem_cons_of_mem _ hmem)]
      simp [hx, hy]

theorem apart_space : Apart ' ' := by simp [Apart]

theorem harmful_separated (xs ys : Text) :
    harmful false (xs ++ " | ".toList ++ ys) = (harmful false xs || harmful false ys) := by
  have hsplit : xs ++ " | ".toList ++ ys = xs ++ ' ' :: (['|'] ++ ' ' :: ys) := by simp
  rw [hsplit, harmful_append apart_space, harmful_append apart_space]
  simp [harmful]

theorem harmful_intercalate (xs : List Text) : harmful false (" | ".toList.intercalate xs) = xs.any (harmful false) := by
  induction xs with
  | nil => rfl
  | cons x xs ih =>
    cases xs with
    | nil => simp [List.intercalate]
    | cons y xs =>
      have hstep : " | ".toList.intercalate (x :: y :: xs) = x ++ " | ".toList ++ " | ".toList.intercalate (y :: xs) := by
        simp [List.intercalate]
      rw [hstep, harmful_separated, ih]
      simp only [List.any_cons]

theorem star_not_mem_number (n : Int) : '*' ∉ (number n).toList := by
  have hdigits : ∀ n, '*' ∉ Nat.toDigits 10 n := fun n hmem => absurd (CScan.isDigit_toDigits hmem) (by decide)
  cases n with
  | ofNat n => simpa [number, QJson.intText] using hdigits n
  | negSucc n => simpa [number, QJson.intText] using hdigits (n + 1)

/-- The texts that come into the comment of a row. -/
def texts (row : IoVariableTableRow) (labels : List Text) : List Text :=
  [row.index, row.subIndex, row.pdo, row.meaning] ++ labels

theorem harmful_commentText (u : Unicode) (row : IoVariableTableRow) (labels : List Text) :
    harmful false (commentText u row labels) = (texts row labels).any (harmful false) := by
  have hpos : '*' ∉ '#' :: (if row.positionValid then (number row.position).toList else ['?']) := by
    have hnumber := star_not_mem_number row.position
    cases row.positionValid <;> simp [hnumber]
  have haddress : address row = ('#' :: (if row.positionValid then (number row.position).toList else ['?'])) ++
      ' ' :: (row.index ++ ':' :: row.subIndex) := by
    simp [address]
  have hdirection : '*' ∉ ioVariableHandoffPlcDirection u row := by
    unfold ioVariableHandoffPlcDirection
    split
    · decide
    · split <;> decide
  have hoptional : ∀ text : Text, (if text ≠ [] then [text] else []).any (harmful false) = harmful false text := by
    intro text
    by_cases h : text = [] <;> simp [h, harmful]
  have hquality : (if labels ≠ [] then ["Quality: ".toList ++ " | ".toList.intercalate labels] else []).any (harmful false) =
      labels.any (harmful false) := by
    have hsplit : "Quality: ".toList ++ " | ".toList.intercalate labels =
        "Quality:".toList ++ ' ' :: " | ".toList.intercalate labels := by
      simp
    have hword : '*' ∉ "Quality:".toList := by simp
    by_cases h : labels = []
    · simp [h]
    · rw [if_pos h, hsplit, List.any_cons, List.any_nil, harmful_append apart_space, harmful_of_no_star hword,
        harmful_intercalate]
      simp
  rw [commentText, harmful_separated, harmful_intercalate, haddress, harmful_append apart_space,
    harmful_append (by simp [Apart]), harmful_of_no_star hpos, facts]
  simp only [List.any_append, hoptional, hquality, List.any_cons, List.any_nil, harmful_of_no_star hdirection, texts,
    Bool.or_false, Bool.false_or, Bool.or_assoc]

/-- **A comment has a delimiter** iff one of its texts has a star too many. -/
theorem hasDelimiter_comment (u : Unicode) (row : IoVariableTableRow) (labels : List Text) :
    hasDelimiter (ioVariableHandoffComment u row labels) = (texts row labels).any (harmful false) := by
  rw [ioVariableHandoffComment, hasDelimiter_replaceClose, left_replaceOpen, harmful_commentText]

/-! ## Lines -/

/-- How often `ab` stands in a text. -/
def pairs (a b : Char) : Text → Nat
  | x :: y :: cs => (if x = a ∧ y = b then 1 else 0) + pairs a b (y :: cs)
  | _ => 0

section
variable {a b : Char}

theorem pairs_append {s : Char} (ha : s ≠ a) (hb : s ≠ b) (xs ys : Text) :
    pairs a b (xs ++ s :: ys) = pairs a b xs + pairs a b ys := by
  induction xs with
  | nil => cases ys <;> simp [pairs, ha]
  | cons x xs ih =>
    cases xs with
    | nil =>
      rw [List.nil_append] at ih
      rw [List.cons_append, List.nil_append, pairs, ih]
      simp [pairs, hb]
    | cons y xs =>
      rw [List.cons_append, List.cons_append, pairs, ← List.cons_append, ih, pairs, Nat.add_assoc]

theorem pairs_eq_zero {cs : Text} : pairs a b cs = 0 ↔ ¬ [a, b] <:+: cs := by
  induction cs with
  | nil => simp [pairs]
  | cons x cs ih =>
    cases cs with
    | nil =>
      refine iff_of_true rfl fun h => ?_
      have hle := h.length_le
      simp at hle
    | cons y cs =>
      rw [pairs, List.infix_cons_iff, not_or, ← ih]
      have hstart : [a, b] <+: x :: y :: cs ↔ x = a ∧ y = b := by
        simp [List.cons_prefix_cons, eq_comm]
      rw [hstart]
      split
      · rename_i h
        simp [h]
      · rename_i h
        simp [h]

theorem hasDelimiter_eq_false {cs : Text} : hasDelimiter cs = false ↔ pairs '(' '*' cs = 0 ∧ pairs '*' ')' cs = 0 := by
  induction cs with
  | nil => simp [hasDelimiter, pairs]
  | cons x cs ih =>
    cases cs with
    | nil => simp [hasDelimiter, pairs]
    | cons y cs =>
      rw [hasDelimiter, pairs, pairs, Bool.or_eq_false_iff, ih]
      by_cases hopen : x = '(' ∧ y = '*'
      · simp [hopen]
      · by_cases hclose : x = '*' ∧ y = ')'
        · simp [hclose]
        · have hboth : (x == '(' && y == '*' || x == '*' && y == ')') = false := by
            simpa [Bool.or_eq_false_iff, Bool.and_eq_false_iff, Classical.or_iff_not_imp_left] using And.intro hopen hclose
          rw [hboth, if_neg hopen, if_neg hclose]
          simp

end

theorem type_no_star (u : Unicode) (row : IoVariableTableRow) : '*' ∉ ioVariableTableRowIecType u row := by
  have hentry : ∀ e ∈ iecTypes, '*' ∉ e.2.toList := by simp [iecTypes]
  have hlookup : ∀ type : Text, '*' ∉ processDataIecTypeFromNormalizedType type := by
    intro type
    unfold processDataIecTypeFromNormalizedType
    cases h : iecTypes.lookup (String.ofList type) with
    | none => simp
    | some name => exact hentry _ (Assoc.mem_of_lookup h)
  unfold ioVariableTableRowIecType
  simp only
  split
  · simp
  · exact hlookup _

theorem pairs_declarationText {a b : Char} (hspace : ' ' ≠ a ∧ ' ' ≠ b) (hcolon : ':' ≠ a ∧ ':' ≠ b)
    (hsemicolon : ';' ≠ a ∧ ';' ≠ b) (u : Unicode) (symbol : Text) (row : IoVariableTableRow) (labels : List Text) :
    pairs a b (declarationText u symbol row labels) = pairs a b symbol + pairs a b (ioVariableTableRowIecType u row) +
      (pairs a b ['(', '*'] + (pairs a b (ioVariableHandoffComment u row labels) + pairs a b ['*', ')'])) := by
  have hsplit : ∀ type comment : Text,
      "    ".toList ++ symbol ++ " : ".toList ++ type ++ "; (* ".toList ++ comment ++ " *)".toList =
        [] ++ ' ' :: ([] ++ ' ' :: ([] ++ ' ' :: ([] ++ ' ' :: (symbol ++ ' ' :: ([] ++ ':' :: ([] ++ ' ' :: (type ++ ';' ::
          ([] ++ ' ' :: (['(', '*'] ++ ' ' :: (comment ++ ' ' :: ['*', ')'])))))))))) := by
    intro type comment
    simp
  have hnil : pairs a b [] = 0 := rfl
  have hline := congrArg (pairs a b) (hsplit (ioVariableTableRowIecType u row) (ioVariableHandoffComment u row labels))
  refine hline.trans ?_
  simp only [pairs_append hspace.1 hspace.2, pairs_append hcolon.1 hcolon.2, pairs_append hsemicolon.1 hsemicolon.2,
    hnil, Nat.zero_add, Nat.add_assoc]

theorem pairs_of_no_star {xs : Text} (h : '*' ∉ xs) : pairs '(' '*' xs = 0 ∧ pairs '*' ')' xs = 0 := by
  rw [pairs_eq_zero, pairs_eq_zero]
  exact ⟨fun hin => h (hin.subset (by simp)), fun hin => h (hin.subset (by simp))⟩

/-- The comment of a line is one: there is no delimiter in it, and with a symbol
without one the line opens and closes one comment. -/
structure Contained (u : Unicode) (row : IoVariableTableRow) (labels : List Text) : Prop where
  comment : ¬ ['(', '*'] <:+: ioVariableHandoffComment u row labels ∧ ¬ ['*', ')'] <:+: ioVariableHandoffComment u row labels
  line : ∀ symbol, hasDelimiter symbol = false →
    pairs '(' '*' (declarationText u symbol row labels) = 1 ∧ pairs '*' ')' (declarationText u symbol row labels) = 1

theorem contained_row_iff (u : Unicode) (row : IoVariableTableRow) (labels : List Text) :
    Contained u row labels ↔ ∀ text ∈ texts row labels, harmful false text = false := by
  have hcomment : (¬ ['(', '*'] <:+: ioVariableHandoffComment u row labels ∧
      ¬ ['*', ')'] <:+: ioVariableHandoffComment u row labels) ↔
      ∀ text ∈ texts row labels, harmful false text = false := by
    have hpairs := @hasDelimiter_eq_false (ioVariableHandoffComment u row labels)
    rw [hasDelimiter_comment, List.any_eq_false, pairs_eq_zero, pairs_eq_zero] at hpairs
    simpa using hpairs.symm
  constructor
  · intro h
    exact hcomment.1 h.comment
  · intro h
    refine ⟨hcomment.2 h, fun symbol hsymbol => ?_⟩
    have hnone := hcomment.2 h
    have htype := pairs_of_no_star (type_no_star u row)
    rw [hasDelimiter_eq_false] at hsymbol
    rw [pairs_declarationText (by decide) (by decide) (by decide), pairs_declarationText (by decide) (by decide) (by decide),
      hsymbol.1, hsymbol.2, htype.1, htype.2, pairs_eq_zero.2 hnone.1, pairs_eq_zero.2 hnone.2]
    simp [pairs]

/-- **Each line of the block has its one comment** iff no text of a row has a star
too many. -/
theorem contained_iff (u : Unicode) (rows : List IoVariableTableRow) (qualityLabelsByRow : List (List Text)) :
    (∀ i row, rows[i]? = some row → Contained u row (qualityLabelsByRow.getD i [])) ↔
      ∀ i row, rows[i]? = some row → ∀ text ∈ texts row (qualityLabelsByRow.getD i []), harmful false text = false := by
  simp only [contained_row_iff]

/-- A meaning with two stars behind a bracket. -/
theorem star_left : ¬ ∀ (u : Unicode) (row : IoVariableTableRow) (labels : List Text),
    ¬ ['(', '*'] <:+: ioVariableHandoffComment u row labels ∧ ¬ ['*', ')'] <:+: ioVariableHandoffComment u row labels := by
  intro h
  have hdelimiter : hasDelimiter (ioVariableHandoffComment ascii { meaning := "(**".toList } []) = true := by
    rw [hasDelimiter_comment]
    simp [texts, harmful]
  have hnone : hasDelimiter (ioVariableHandoffComment ascii { meaning := "(**".toList } []) = false := by
    rw [hasDelimiter_eq_false, pairs_eq_zero, pairs_eq_zero]
    exact h ascii _ []
  rw [hnone] at hdelimiter
  cases hdelimiter

end NekoEcat.L4.PlcHandoff
