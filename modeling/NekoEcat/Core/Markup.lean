import Mathlib.Data.List.Basic

/-!
# Balanced markup

A text is scanned character by character, with the elements that are open. A tag opens
an element, closes the innermost one of the same name, or is empty (`<a/>`) or a
declaration (`<?a?>`).

* `Plain.keeps`: what has no angle brackets leaves the open elements alone.
* `Keeps.append`, `Keeps.flatMap`: balanced parts put together.
* `scan_openTag`, `scan_closeTag`: what tags do.
-/
namespace NekoEcat.Markup

abbrev Text := List Char

inductive State where
  /-- between tags, in the elements that are open, the innermost first -/
  | text (inside : List Text)
  /-- in a tag, with what was read of it -/
  | tag (inside : List Text) (read : Text)
  | failed

/-- The innermost element is closed, if it has this name. -/
def close (name : Text) : List Text → State
  | top :: rest => if top = name then .text rest else .failed
  | [] => .failed

/-- A tag has ended. -/
def endTag (inside : List Text) (read : Text) : State :=
  if read.head? = some '?' then .text inside
  else if read.head? = some '/' then close read.tail inside
  else if read.getLast? = some '/' then .text inside
  else .text (read.takeWhile (· ≠ ' ') :: inside)

def step : State → Char → State
  | .text inside, c => if c = '<' then .tag inside [] else if c = '>' then .failed else .text inside
  | .tag inside read, c =>
    if c = '>' then endTag inside read else if c = '<' then .failed else .tag inside (read ++ [c])
  | .failed, _ => .failed

def scan (s : State) (t : Text) : State := t.foldl step s

/-- Every element that is opened is closed, in the right order. -/
def WellNested (t : Text) : Prop := scan (.text []) t = .text []

theorem scan_append (s : State) (a b : Text) : scan s (a ++ b) = scan (scan s a) b := List.foldl_append

/-- No angle brackets. -/
def Plain (t : Text) : Prop := '<' ∉ t ∧ '>' ∉ t

/-- The part is balanced, wherever it stands. -/
def Keeps (t : Text) : Prop := ∀ inside, scan (.text inside) t = .text inside

theorem Plain.keeps {t : Text} (h : Plain t) : Keeps t := by
  intro inside
  induction t with
  | nil => rfl
  | cons c t ih =>
    obtain ⟨hopen, hclose⟩ := h
    rw [List.mem_cons, not_or] at hopen hclose
    have hstep : step (.text inside) c = .text inside := by
      rw [step, if_neg (Ne.symm hopen.1), if_neg (Ne.symm hclose.1)]
    show scan (step (.text inside) c) t = _
    rw [hstep]
    exact ih ⟨hopen.2, hclose.2⟩

theorem keeps_nil : Keeps [] := fun _ => rfl

theorem Plain.append {a b : Text} (ha : Plain a) (hb : Plain b) : Plain (a ++ b) :=
  ⟨by simp [ha.1, hb.1], by simp [ha.2, hb.2]⟩

theorem Plain.flatMap {α : Type} {f : α → Text} {as : List α} (h : ∀ a ∈ as, Plain (f a)) : Plain (as.flatMap f) := by
  refine ⟨fun hc => ?_, fun hc => ?_⟩
  · obtain ⟨a, ha, hc⟩ := List.mem_flatMap.1 hc
    exact (h a ha).1 hc
  · obtain ⟨a, ha, hc⟩ := List.mem_flatMap.1 hc
    exact (h a ha).2 hc

theorem Keeps.append {a b : Text} (ha : Keeps a) (hb : Keeps b) : Keeps (a ++ b) := fun inside => by
  rw [scan_append, ha, hb]

theorem Keeps.flatMap {α : Type} {f : α → Text} {as : List α} (h : ∀ a ∈ as, Keeps (f a)) : Keeps (as.flatMap f) := by
  induction as with
  | nil => exact keeps_nil
  | cons a as ih =>
    rw [List.forall_mem_cons] at h
    rw [List.flatMap_cons]
    exact h.1.append (ih h.2)

/-! ## Tags -/

/-- ` name="value"` -/
def attributeText (a : Text × Text) : Text := [' '] ++ a.1 ++ ['=', '"'] ++ a.2 ++ ['"']

def openTag (name : Text) (attributes : List (Text × Text)) : Text :=
  '<' :: (name ++ attributes.flatMap attributeText ++ ['>'])

def closeTag (name : Text) : Text := '<' :: (['/'] ++ name ++ ['>'])

def emptyTag (name : Text) : Text := '<' :: (name ++ ['/'] ++ ['>'])

def declarationTag (t : Text) : Text := '<' :: (['?'] ++ t ++ ['?'] ++ ['>'])

def isPlain (t : Text) : Bool := t.all fun c => !(['<', '>'].contains c)

/-- A name has none of the characters that tell the tags apart. -/
def isName (name : Text) : Bool := !name.isEmpty && name.all fun c => !(['<', '>', ' ', '/', '?'].contains c)

theorem plain_of {t : Text} (h : isPlain t = true) : Plain t := by
  have hall : ∀ c ∈ t, c ∉ ['<', '>'] := fun c hc => by simpa using List.all_eq_true.1 h c hc
  exact ⟨fun hc => hall _ hc (by simp), fun hc => hall _ hc (by simp)⟩

theorem attributeText_plain {a : Text × Text} (hname : Plain a.1) (hvalue : Plain a.2) : Plain (attributeText a) :=
  ((((plain_of rfl).append hname).append (plain_of rfl)).append hvalue).append (plain_of rfl)

/-- What is between the brackets of a tag. -/
theorem scan_tag {t : Text} (h : Plain t) (inside : List Text) :
    scan (.text inside) ('<' :: (t ++ ['>'])) = endTag inside t := by
  have hread : ∀ {t read : Text}, Plain t → scan (.tag inside read) (t ++ ['>']) = endTag inside (read ++ t) := by
    intro t
    induction t with
    | nil =>
      intro read _
      rw [List.append_nil]
      rfl
    | cons c t ih =>
      rintro read ⟨hopen, hclose⟩
      rw [List.mem_cons, not_or] at hopen hclose
      have hstep : step (.tag inside read) c = .tag inside (read ++ [c]) := by
        rw [step, if_neg (Ne.symm hclose.1), if_neg (Ne.symm hopen.1)]
      show scan (step (.tag inside read) c) (t ++ ['>']) = _
      rw [hstep, ih ⟨hopen.2, hclose.2⟩, List.append_assoc, List.singleton_append]
  exact hread h

section
variable {name : Text} (h : isName name = true) (inside : List Text)
include h

theorem mem_name {c : Char} (hc : c ∈ name) : c ∉ ['<', '>', ' ', '/', '?'] := by
  rw [isName, Bool.and_eq_true] at h
  simpa using List.all_eq_true.1 h.2 c hc

theorem name_plain : Plain name := ⟨fun hc => mem_name h hc (by simp), fun hc => mem_name h hc (by simp)⟩

/-- A tag that starts with a name closes nothing. -/
theorem endTag_name (t : Text) :
    endTag inside (name ++ t) =
      if (name ++ t).getLast? = some '/' then .text inside
      else .text ((name ++ t).takeWhile (· ≠ ' ') :: inside) := by
  rw [isName, Bool.and_eq_true] at h
  obtain ⟨c, cs, rfl⟩ := List.exists_cons_of_ne_nil (l := name) (by simpa using h.1)
  have hc := mem_name (show isName (c :: cs) = true by rw [isName, Bool.and_eq_true]; exact h) List.mem_cons_self
  have hquestion : c ≠ '?' := by rintro rfl; simp at hc
  have hslash : c ≠ '/' := by rintro rfl; simp at hc
  rw [endTag, List.cons_append, List.head?_cons, if_neg (by simpa using hquestion), if_neg (by simpa using hslash)]

/-- **An element is opened.** -/
theorem scan_openTag {attributes : List (Text × Text)} (hattributes : ∀ a ∈ attributes, Plain a.1 ∧ Plain a.2) :
    scan (.text inside) (openTag name attributes) = .text (name :: inside) := by
  have hplain : Plain (attributes.flatMap attributeText) := Plain.flatMap fun a ha =>
    attributeText_plain (hattributes a ha).1 (hattributes a ha).2
  have hspace : ∀ c ∈ name, decide (c ≠ ' ') = true := fun c hc => by
    have hmem := mem_name h hc
    simp only [List.mem_cons, not_or] at hmem
    exact decide_eq_true hmem.2.2.1
  have hlast : (name ++ attributes.flatMap attributeText).getLast? ≠ some '/' := by
    rcases List.eq_nil_or_concat attributes with rfl | ⟨before, a, rfl⟩
    · intro hslash
      rw [List.flatMap_nil, List.append_nil] at hslash
      exact mem_name h (List.mem_of_getLast? hslash) (by simp)
    · have hquote : (name ++ (before.concat a).flatMap attributeText).getLast? = some '"' := by
        rw [List.concat_eq_append, List.flatMap_append, List.flatMap_singleton, attributeText, ← List.append_assoc,
          ← List.append_assoc, List.getLast?_concat]
      rw [hquote]
      decide
  have hname : (name ++ attributes.flatMap attributeText).takeWhile (· ≠ ' ') = name := by
    rw [List.takeWhile_append_of_pos hspace]
    cases attributes with
    | nil => exact List.append_nil name
    | cons a as => exact List.append_nil name
  rw [openTag, scan_tag ((name_plain h).append hplain), endTag_name h, if_neg hlast, hname]

/-- **The innermost element is closed.** -/
theorem scan_closeTag : scan (.text (name :: inside)) (closeTag name) = .text inside := by
  rw [closeTag, scan_tag ((plain_of rfl).append (name_plain h)), endTag,
    if_neg (show List.head? (['/'] ++ name) ≠ some '?' by simp),
    if_pos (show List.head? (['/'] ++ name) = some '/' from rfl)]
  exact if_pos rfl

theorem keeps_emptyTag : Keeps (emptyTag name) := by
  intro inside
  rw [emptyTag, scan_tag ((name_plain h).append (plain_of rfl)), endTag_name h, if_pos (by simp)]

end

theorem keeps_declarationTag {t : Text} (h : Plain t) : Keeps (declarationTag t) := by
  intro inside
  rw [declarationTag, scan_tag (((plain_of rfl).append h).append (plain_of rfl))]
  exact if_pos rfl

end NekoEcat.Markup
