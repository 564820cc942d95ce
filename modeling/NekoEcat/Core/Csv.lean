import Mathlib.Data.List.Basic

/-!
# Comma-separated values

A reader of the format of RFC 4180 with a delimiter of one's own, whose records end
with CRLF or with LF alone; the end after the last one may be missing. Records
whose fields are all quoted are read back.

* `read_records`: the round trip.
-/
namespace NekoEcat.Csv

/-! ## Reading -/

/-- Where the reader is: at the start of a field, in a field without quotes, in one
with quotes, behind a quote in there, behind a CR. -/
inductive Mode where
  | start | bare | quoted | quote | cr

/-- What was read of the field, of its record, and before. -/
structure State where
  mode : Mode
  field : List Char
  record : List (List Char)
  before : List (List (List Char))

def State.endField (st : State) : State := ⟨.start, [], st.record ++ [st.field], st.before⟩

def State.endRecord (st : State) : State := ⟨.start, [], [], st.before ++ [st.record ++ [st.field]]⟩

def State.more (st : State) (mode : Mode) (c : Char) : State := { st with mode := mode, field := st.field ++ [c] }

/-- What may stand behind a field. -/
def State.behind (delimiter : Char) (st : State) (c : Char) : Option State :=
  if c = delimiter then some st.endField
  else if c = '\n' then some st.endRecord
  else if c = '\r' then some { st with mode := .cr }
  else none

def step (delimiter : Char) (st : State) (c : Char) : Option State :=
  match st.mode with
  | .start =>
    if c = '"' then some { st with mode := .quoted } else (st.behind delimiter c).orElse fun _ => st.more .bare c
  | .bare => if c = '"' then none else (st.behind delimiter c).orElse fun _ => st.more .bare c
  | .quoted => if c = '"' then some { st with mode := .quote } else some (st.more .quoted c)
  | .quote => if c = '"' then some (st.more .quoted c) else st.behind delimiter c
  | .cr => if c = '\n' then some st.endRecord else none

/-- The end of the text. -/
def finish (st : State) : Option (List (List (List Char))) :=
  match st.mode with
  | .start => some (if st.record = [] then st.before else st.endRecord.before)
  | .bare | .quote => some st.endRecord.before
  | .quoted | .cr => none

def readFrom (delimiter : Char) (st : State) (cs : List Char) : Option (List (List (List Char))) :=
  (cs.foldlM (step delimiter) st).bind finish

/-- The records of a text. -/
def read (delimiter : Char) (cs : List Char) : Option (List (List (List Char))) :=
  readFrom delimiter ⟨.start, [], [], []⟩ cs

/-! ## Writing -/

def doubled (text : List Char) : List Char := text.flatMap fun c => if c = '"' then ['"', '"'] else [c]

def quotedField (text : List Char) : List Char := '"' :: doubled text ++ ['"']

/-- The fields of a record, with the delimiter between them. -/
def joined (delimiter : Char) (fieldText : List Char → List Char) : List (List Char) → List Char
  | [] => []
  | field :: fields => fieldText field ++ fields.flatMap fun f => delimiter :: fieldText f

/-- Each record with the line ending. -/
def records (delimiter : Char) (ending : List Char) (fieldText : List Char → List Char)
    (rs : List (List (List Char))) : List Char :=
  rs.flatMap fun record => joined delimiter fieldText record ++ ending

/-! ## The round trip -/

variable {delimiter : Char} {ending : List Char} (record : List (List Char)) (before : List (List (List Char)))
  (cs : List Char)

theorem readFrom_cons {st st' : State} {c : Char} (h : step delimiter st c = some st') :
    readFrom delimiter st (c :: cs) = readFrom delimiter st' cs := by
  rw [readFrom, List.foldlM_cons, h]
  rfl

theorem readFrom_doubled (text field : List Char) :
    readFrom delimiter ⟨.quoted, field, record, before⟩ (doubled text ++ cs) =
      readFrom delimiter ⟨.quoted, field ++ text, record, before⟩ cs := by
  induction text generalizing field with
  | nil => rw [List.append_nil]; rfl
  | cons c text ih =>
    have hsplit : doubled (c :: text) = (if c = '"' then ['"', '"'] else [c]) ++ doubled text := List.flatMap_cons
    have hmore : field ++ c :: text = field ++ [c] ++ text := by rw [List.append_assoc]; rfl
    rw [hsplit, hmore, ← ih]
    by_cases hc : c = '"'
    · rw [if_pos hc, hc]
      rfl
    · rw [if_neg hc, List.singleton_append, List.cons_append]
      exact readFrom_cons _ (if_neg hc)

/-- A field with quotes, up to the closing one. -/
theorem readFrom_quotedField (text : List Char) :
    readFrom delimiter ⟨.start, [], record, before⟩ (quotedField text ++ cs) =
      readFrom delimiter ⟨.quote, text, record, before⟩ cs := by
  have hread := @readFrom_doubled delimiter record before ('"' :: cs) text []
  rw [quotedField, List.append_assoc, List.cons_append]
  exact hread

variable (hquote : delimiter ≠ '"')

include hquote

theorem readFrom_delimiter (field : List Char) :
    readFrom delimiter ⟨.quote, field, record, before⟩ (delimiter :: cs) =
      readFrom delimiter ⟨.start, [], record ++ [field], before⟩ cs :=
  readFrom_cons cs (by simp [step, hquote, State.behind, State.endField])

variable (hcr : delimiter ≠ '\r') (hlf : delimiter ≠ '\n') (hending : ending = ['\n'] ∨ ending = ['\r', '\n'])

theorem readFrom_fields (field : List Char) (fields : List (List Char)) :
    readFrom delimiter ⟨.quote, field, record, before⟩ (fields.flatMap (fun f => delimiter :: quotedField f) ++ cs) =
      readFrom delimiter ⟨.quote, (field :: fields).getLast (List.cons_ne_nil _ _),
        record ++ (field :: fields).dropLast, before⟩ cs := by
  induction fields generalizing field record with
  | nil => simp
  | cons next fields ih =>
    rw [List.flatMap_cons, List.append_assoc, List.cons_append, readFrom_delimiter _ _ _ hquote, readFrom_quotedField,
      ih]
    simp

omit hquote

include hcr hlf hending

theorem readFrom_ending (field : List Char) :
    readFrom delimiter ⟨.quote, field, record, before⟩ (ending ++ cs) =
      readFrom delimiter ⟨.start, [], [], before ++ [record ++ [field]]⟩ cs := by
  rcases hending with rfl | rfl
  · exact readFrom_cons cs (by simp [step, State.behind, Ne.symm hlf, State.endRecord])
  · refine (@readFrom_cons delimiter ('\n' :: cs) _ ⟨.cr, field, record, before⟩ '\r' ?_).trans (readFrom_cons cs rfl)
    simp [step, State.behind, Ne.symm hcr]

include hquote

/-- **A record is read back.** -/
theorem readFrom_record (hne : record ≠ []) :
    readFrom delimiter ⟨.start, [], [], before⟩ (joined delimiter quotedField record ++ ending ++ cs) =
      readFrom delimiter ⟨.start, [], [], before ++ [record]⟩ cs := by
  cases record with
  | nil => exact absurd rfl hne
  | cons field fields =>
    rw [joined, List.append_assoc, List.append_assoc, readFrom_quotedField, readFrom_fields _ _ _ hquote,
      readFrom_ending _ _ _ hcr hlf hending, List.nil_append, List.dropLast_append_getLast]

/-- **Records of quoted fields are read back.** -/
theorem read_records {rs : List (List (List Char))} (hrs : ∀ record ∈ rs, record ≠ []) :
    read delimiter (records delimiter ending quotedField rs) = some rs := by
  have hall : ∀ rs before, (∀ record ∈ rs, record ≠ []) →
      readFrom delimiter ⟨.start, [], [], before⟩ (records delimiter ending quotedField rs) = some (before ++ rs) := by
    intro rs
    induction rs with
    | nil => intro before _; rw [List.append_nil]; rfl
    | cons record rs ih =>
      intro before hrs
      have hsplit : records delimiter ending quotedField (record :: rs) =
          joined delimiter quotedField record ++ ending ++ records delimiter ending quotedField rs := List.flatMap_cons
      obtain ⟨hrecord, hrs⟩ := List.forall_mem_cons.1 hrs
      rw [hsplit, readFrom_record _ _ _ hquote hcr hlf hending hrecord, ih _ hrs, List.append_assoc]
      rfl
  rw [read, hall rs [] hrs, List.nil_append]

end NekoEcat.Csv
