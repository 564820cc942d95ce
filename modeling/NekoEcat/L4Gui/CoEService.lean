import NekoEcat.Core.LineRegex
import NekoEcat.Core.Strip
import NekoEcat.L4Gui.SdoObjects

/-!
# The object dictionary of `CoEService`

`onSdoText` reads each line of a listing with one expression: an index, a subindex that
may be left out, a name, a type and an access. A line that does not match is skipped.

* `entryOfLine_some`, `entryOfLine_text`: what is read of a line.
* `EntryLine.same_of_text`: a line has its fields in one way only.
* `onSdoText_iff`: the listings of which every entry is read.
-/
namespace NekoEcat.L4.CoEService
open NekoEcat.QNumber NekoEcat.QString NekoEcat.Regex
open NekoEcat.L4.SdoWrites (isBlank isSpace_of_isBlank trim_append_left trim_append_right)

abbrev Text := List Char

/-! ## The code -/

/-- What is stored of an object. -/
structure SdoDictionaryEntry where
  index : String
  subIndex : String
  name : String
  dataType : String
  accessType : String
  deriving DecidableEq

/-- What is announced of an object. -/
structure CoESdoDictionary where
  index : String
  name : String
  type : String
  bitSize : Int := 0
  accessType : Int
  deriving DecidableEq

inductive Reply where
  | ignored
  | error (message : String)
  | received (dict : List SdoDictionaryEntry) (entries : List CoESdoDictionary)
  deriving DecidableEq

/-- `0x[0-9a-fA-F]+` -/
def hexRe : Re := .cat (.lit ['0', 'x']) (.plus (isDigitOf 16))

/-- `(0x[0-9a-fA-F]+)(?::(0x[0-9a-fA-F]+))?\s+` -/
def headRe : Re :=
  .cat (.group hexRe) (.cat (.alt (.cat (.lit [':']) (.group hexRe)) (.lit [])) (.plus isBlank))

/-- `uint\d+|int\d+|octet_string|visible_string|BOOL|BIT\d+` -/
def typeRe : Re :=
  .alt (.cat (.lit "uint".toList) (.plus (isDigitOf 10))) <|
    .alt (.cat (.lit "int".toList) (.plus (isDigitOf 10))) <|
      .alt (.lit "octet_string".toList) <|
        .alt (.lit "visible_string".toList) <|
          .alt (.lit "BOOL".toList) (.cat (.lit "BIT".toList) (.plus (isDigitOf 10)))

/-- `ro|wo|rw` -/
def accessRe : Re := .alt (.lit "ro".toList) (.alt (.lit "wo".toList) (.lit "rw".toList))

/-- `\s+(type)\s+(access)\s*` -/
def tailRe : Re :=
  .cat (.plus isBlank) (.cat (.group typeRe) (.cat (.plus isBlank) (.cat (.group accessRe) (.many isBlank))))

def captured (g : Groups) (i : Nat) : Text := (g.getD (i - 1) none).getD []

/-- mirrors apps/ecat-studio/services/CoEService.cpp:135-158 -/
def entryOfLine (line : Text) : Option SdoDictionaryEntry :=
  (matchLine headRe (· != '\n') tailRe line).map fun g =>
    { index := String.ofList (captured g 1)
      subIndex := if captured g 2 = [] then "0x00" else String.ofList (captured g 2)
      name := String.ofList (trim (captured g 3))
      dataType := String.ofList (captured g 4)
      accessType := String.ofList (captured g 5) }

def signalEntry (e : SdoDictionaryEntry) : CoESdoDictionary :=
  { index := e.index, name := e.name, type := e.dataType,
    accessType := if e.accessType = "ro" then 1 else if e.accessType = "wo" then 2 else 3 }

/-- `split('\n', Qt::SkipEmptyParts)` -/
def lines (text : Text) : List Text := (text.splitOn '\n').filter (· ≠ [])

/-- What is stored and announced, or that there is nothing.
mirrors apps/ecat-studio/services/CoEService.cpp:170-178 -/
def replyTo (position : Int) (dict : List SdoDictionaryEntry) : Reply :=
  if dict = [] then
    .error ("Failed to parse SDO dictionary for slave " ++ toString position ++
      ": no entries matched the IgH ethercat sdos format")
  else .received dict (dict.map signalEntry)

/-- mirrors apps/ecat-studio/services/CoEService.cpp:118-179 -/
def onSdoText (position : Int) (title : String) (text : Text) : Reply :=
  if title ≠ "SDO" then .ignored else replyTo position ((lines text).filterMap entryOfLine)

/-! ## The line forms -/

/-- White space between two fields of a line. -/
def IsGap (s : Text) : Prop := s ≠ [] ∧ ∀ c ∈ s, isBlank c = true

/-- A field without white space. -/
def IsWord (s : Text) : Prop := s ≠ [] ∧ ∀ c ∈ s, isBlank c = false

def IsHex (s : Text) : Prop := s ≠ [] ∧ ∀ c ∈ s, isDigitOf 16 c = true

/-- `0x1000`, `0x1000:0x01` or `0x1000:01` -/
def headText (index : Text) : Option (Bool × Text) → Text
  | none => '0' :: 'x' :: index
  | some (true, digits) => '0' :: 'x' :: (index ++ ':' :: '0' :: 'x' :: digits)
  | some (false, digits) => '0' :: 'x' :: (index ++ ':' :: digits)

/-- A word and a number, such as `uint32`. -/
def IsNumbered (word type : Text) : Prop :=
  ∃ digits, digits ≠ [] ∧ (∀ c ∈ digits, isDigitOf 10 c = true) ∧ type = word ++ digits

/-- The types that the expression names. -/
def IsListed (type : Text) : Prop :=
  IsNumbered "uint".toList type ∨ IsNumbered "int".toList type ∨ IsNumbered "BIT".toList type ∨
    type ∈ ["octet_string".toList, "visible_string".toList, "BOOL".toList]

def IsAccess (access : Text) : Prop := access ∈ ["ro".toList, "wo".toList, "rw".toList]

/-- A line for an object, with the subindex or without: `0x1000:01  Device type  uint32  ro`. -/
structure EntryLine where
  /-- the digits behind `0x` -/
  index : Text
  /-- if `0x` stands before the digits, and the digits -/
  subIndex : Option (Bool × Text)
  gap₁ : Text
  name : Text
  gap₂ : Text
  type : Text
  gap₃ : Text
  access : Text
  gap₄ : Text
  index_hex : IsHex index
  subIndex_hex : ∀ s ∈ subIndex, IsHex s.2
  gap₁_blank : IsGap gap₁
  /-- White space around the name belongs to the gaps. -/
  name_bare : Strip.strip isBlank name = name
  gap₂_blank : IsGap gap₂
  type_word : IsWord type
  gap₃_blank : IsGap gap₃
  access_word : IsWord access
  gap₄_blank : ∀ c ∈ gap₄, isBlank c = true
  line : '\n' ∉ gap₁ ++ (name ++ (gap₂ ++ (gap₃ ++ gap₄)))

namespace EntryLine

variable (l : EntryLine)

def middle : Text := l.gap₁ ++ (l.name ++ l.gap₂)

def text : Text := headText l.index l.subIndex ++ (l.middle ++ (l.type ++ (l.gap₃ ++ (l.access ++ l.gap₄))))

/-- The object of the line; without a subindex it is the top-level entry. -/
def entry : SdoDictionaryEntry where
  index := String.ofList ('0' :: 'x' :: l.index)
  subIndex :=
    match l.subIndex with
    | none => "0x00"
    | some (_, digits) => String.ofList ('0' :: 'x' :: digits)
  name := String.ofList l.name
  dataType := String.ofList l.type
  accessType := String.ofList l.access

/-- The expression matches the line. -/
structure Readable : Prop where
  subIndex : ∀ s ∈ l.subIndex, s.1 = true
  type : IsListed l.type
  access : IsAccess l.access
  /-- Without a name there is white space for one. -/
  named : 3 ≤ l.middle.length

/-- The line is read as it is. -/
structure Supported : Prop extends Readable l where
  /-- No other white space than the ASCII characters is around the name. -/
  bare : trim l.name = l.name

end EntryLine

/-- A line that has none of these forms: a blank one, or another text. -/
structure OtherLine where
  text : Text
  line : '\n' ∉ text
  other : ∀ l : EntryLine, l.text ≠ text

inductive Item where
  | entry (l : EntryLine)
  | other (m : OtherLine)

def Item.text : Item → Text
  | .entry l => l.text
  | .other m => m.text

def Item.toEntry : Item → Option SdoDictionaryEntry
  | .entry l => some l.entry
  | .other _ => none

/-- The listing of these lines. -/
def render (items : List Item) : Text := ['\n'].intercalate (items.map Item.text)

/-! ## What is read of a line -/

theorem hexRe_reads {a : Text} {caps : Groups} :
    hexRe.Reads a caps ↔ ∃ d, IsHex d ∧ a = '0' :: 'x' :: d ∧ caps = [] := by
  rw [hexRe, word_reads]
  simp only [IsHex, and_assoc, List.cons_append, List.nil_append]

theorem numbered_reads {word a : Text} {caps : Groups} :
    (Re.cat (.lit word) (.plus (isDigitOf 10))).Reads a caps ↔ IsNumbered word a ∧ caps = [] := by
  rw [word_reads]
  simp only [IsNumbered, ← and_assoc, exists_and_right]

theorem typeRe_reads {a : Text} {caps : Groups} : typeRe.Reads a caps ↔ IsListed a ∧ caps = [] := by
  rw [typeRe, alt_reads rfl rfl, alt_reads rfl rfl, alt_reads rfl rfl, alt_reads rfl rfl, alt_reads rfl rfl,
    numbered_reads, numbered_reads, numbered_reads]
  simp only [Re.Reads, IsListed, List.mem_cons, List.not_mem_nil, or_false, or_and_right]
  -- the three words come before `BIT` in the expression
  exact or_congr_right (or_congr_right (or_comm.trans (or_assoc.trans (or_congr_right or_assoc))).symm)

theorem accessRe_reads {a : Text} {caps : Groups} : accessRe.Reads a caps ↔ IsAccess a ∧ caps = [] := by
  rw [accessRe, alt_reads rfl rfl, alt_reads rfl rfl]
  simp only [Re.Reads, IsAccess, List.mem_cons, List.not_mem_nil, or_false, or_and_right]

/-- The subject of the head, with the digits of the subindex if there is one. -/
theorem headRe_reads {a : Text} {caps : Groups} :
    headRe.Reads a caps ↔ ∃ (index : Text) (sub : Option Text) (gap : Text), IsHex index ∧ (∀ d ∈ sub, IsHex d) ∧
      IsGap gap ∧ a = headText index (sub.map (Prod.mk true)) ++ gap ∧
      caps = [some ('0' :: 'x' :: index), sub.map fun d => '0' :: 'x' :: d] := by
  constructor
  · rintro ⟨a₁, a₂, c₁, c₂, rfl, rfl, ⟨c, hindex, rfl⟩, a₃, gap, c₃, c₄, rfl, rfl, hsub, hgap⟩
    obtain ⟨index, hhex, rfl, rfl⟩ := hexRe_reads.1 hindex
    obtain ⟨hne, hblank, rfl⟩ := reads_plus hgap
    rcases hsub with ⟨c, ⟨a₄, a₅, c₄, c₅, rfl, rfl, ⟨rfl, rfl⟩, ⟨c₆, hdigits, rfl⟩⟩, rfl⟩ | ⟨c, ⟨rfl, rfl⟩, rfl⟩
    · obtain ⟨d, hd, rfl, rfl⟩ := hexRe_reads.1 hdigits
      refine ⟨index, some d, gap, hhex, ?_, ⟨hne, hblank⟩, ?_, rfl⟩
      · rintro _ ⟨⟩
        exact hd
      · simp [headText]
    · exact ⟨index, none, gap, hhex, by simp, ⟨hne, hblank⟩, rfl, rfl⟩
  · rintro ⟨index, sub, gap, hhex, hsub, ⟨hne, hblank⟩, rfl, rfl⟩
    have hindex : (Re.group hexRe).Reads ('0' :: 'x' :: index) [some ('0' :: 'x' :: index)] :=
      ⟨[], hexRe_reads.2 ⟨index, hhex, rfl, rfl⟩, rfl⟩
    cases sub with
    | none =>
      refine ⟨'0' :: 'x' :: index, gap, _, [none], rfl, rfl, hindex, ?_⟩
      exact ⟨[], gap, [none], [], rfl, rfl, Or.inr ⟨[], ⟨rfl, rfl⟩, rfl⟩, plus_reads hne hblank⟩
    | some d =>
      refine ⟨'0' :: 'x' :: index, ':' :: '0' :: 'x' :: d ++ gap, _, [some ('0' :: 'x' :: d)], by simp [headText], rfl,
        hindex, ?_⟩
      refine ⟨':' :: '0' :: 'x' :: d, gap, [some ('0' :: 'x' :: d)], [], rfl, rfl, Or.inl ?_, plus_reads hne hblank⟩
      refine ⟨[some ('0' :: 'x' :: d)], ⟨[':'], '0' :: 'x' :: d, [], _, rfl, rfl, ⟨rfl, rfl⟩, ?_⟩, rfl⟩
      exact ⟨[], hexRe_reads.2 ⟨d, hsub d rfl, rfl, rfl⟩, rfl⟩

theorem tailRe_reads {a : Text} {caps : Groups} :
    tailRe.Reads a caps ↔ ∃ gap type gap' access gap'', IsGap gap ∧ IsListed type ∧ IsGap gap' ∧ IsAccess access ∧
      (∀ c ∈ gap'', isBlank c = true) ∧ a = gap ++ (type ++ (gap' ++ (access ++ gap''))) ∧
      caps = [some type, some access] := by
  constructor
  · rintro ⟨gap, _, c₁, _, rfl, rfl, hgap, type, _, _, _, rfl, rfl, ⟨c₂, htype, rfl⟩, gap', _, c₃, _, rfl, rfl, hgap',
      access, gap'', _, _, rfl, rfl, ⟨c₄, haccess, rfl⟩, hend, rfl⟩
    obtain ⟨hne, hblank, rfl⟩ := reads_plus hgap
    obtain ⟨hne', hblank', rfl⟩ := reads_plus hgap'
    obtain ⟨hlisted, rfl⟩ := typeRe_reads.1 htype
    obtain ⟨his, rfl⟩ := accessRe_reads.1 haccess
    exact ⟨gap, type, gap', access, gap'', ⟨hne, hblank⟩, hlisted, ⟨hne', hblank'⟩, his, hend, rfl, rfl⟩
  · rintro ⟨gap, type, gap', access, gap'', ⟨hne, hblank⟩, hlisted, ⟨hne', hblank'⟩, his, hend, rfl, rfl⟩
    refine ⟨gap, _, [], _, rfl, rfl, plus_reads hne hblank, type, _, [some type], _, rfl, rfl,
      ⟨[], typeRe_reads.2 ⟨hlisted, rfl⟩, rfl⟩, ?_⟩
    exact ⟨gap', _, [], _, rfl, rfl, plus_reads hne' hblank', access, gap'', [some access], [], rfl, rfl,
      ⟨[], accessRe_reads.2 ⟨his, rfl⟩, rfl⟩, hend, rfl⟩

/-! ## What is read of an entry line -/

theorem not_blank_of_digit {b : Nat} (hb : b ≤ 16) {c : Char} (h : isDigitOf b c = true) : isBlank c = false := by
  have hlt := isDigitOf_iff.1 (isDigitOf_mono hb h)
  have hspace := not_isSpace_of_digitVal (c := c) (by omega)
  cases hc : isBlank c with
  | false => rfl
  | true => rw [isSpace_of_isBlank hc] at hspace; cases hspace

theorem run_of_all {p : Char → Bool} {s : Text} (h : (!s.isEmpty && s.all p) = true) :
    s ≠ [] ∧ ∀ c ∈ s, p c = true := by
  rw [Bool.and_eq_true] at h
  exact ⟨by simpa using h.1, List.all_eq_true.1 h.2⟩

theorem isWord_of_all {s : Text} (h : (!s.isEmpty && s.all fun c => !isBlank c) = true) : IsWord s :=
  ⟨(run_of_all h).1, fun c hc => by simpa using (run_of_all h).2 c hc⟩

theorem IsNumbered.isWord {word type : Text} (h : IsNumbered word type) (hword : IsWord word) : IsWord type := by
  obtain ⟨digits, -, hdigits, rfl⟩ := h
  refine ⟨List.append_ne_nil_of_left_ne_nil hword.1 digits, fun c hc => ?_⟩
  rcases List.mem_append.1 hc with hc | hc
  · exact hword.2 c hc
  · exact not_blank_of_digit (by decide) (hdigits c hc)

theorem IsListed.isWord {type : Text} (h : IsListed type) : IsWord type := by
  rcases h with h | h | h | h
  · exact h.isWord (isWord_of_all rfl)
  · exact h.isWord (isWord_of_all rfl)
  · exact h.isWord (isWord_of_all rfl)
  · simp only [List.mem_cons, List.not_mem_nil, or_false] at h
    rcases h with rfl | rfl | rfl
    · exact isWord_of_all rfl
    · exact isWord_of_all rfl
    · exact isWord_of_all rfl

theorem IsAccess.isWord {access : Text} (h : IsAccess access) : IsWord access := by
  simp only [IsAccess, List.mem_cons, List.not_mem_nil, or_false] at h
  rcases h with rfl | rfl | rfl
  · exact isWord_of_all rfl
  · exact isWord_of_all rfl
  · exact isWord_of_all rfl

/-- **A line that matches** is an entry line, and its fields are read, the name trimmed. -/
theorem entryOfLine_some {line : Text} (hline : '\n' ∉ line) {e : SdoDictionaryEntry} (h : entryOfLine line = some e) :
    ∃ l : EntryLine, l.text = line ∧ l.Readable ∧ e = { l.entry with name := String.ofList (trim l.name) } := by
  obtain ⟨g, hg, rfl⟩ := Option.map_eq_some_iff.1 h
  obtain ⟨a, name, b, c₁, c₂, rfl, hne, -, hhead, htail, rfl⟩ := matchLine_reads hg
  obtain ⟨index, sub, gap, hindex, hsub, hgap, rfl, rfl⟩ := headRe_reads.1 hhead
  obtain ⟨gap', type, gap'', access, last, hgap', htype, hgap'', haccess, hlast, rfl, rfl⟩ := tailRe_reads.1 htail
  obtain ⟨x, y, hname, hx, hy⟩ := Strip.strip_between isBlank name
  have hfront : ∀ c ∈ gap ++ x, isBlank c = true := List.forall_mem_append.2 ⟨hgap.2, hx⟩
  have hback : ∀ c ∈ y ++ gap', isBlank c = true := List.forall_mem_append.2 ⟨hy, hgap'.2⟩
  let l : EntryLine :=
    { index := index, subIndex := sub.map (Prod.mk true), gap₁ := gap ++ x, name := Strip.strip isBlank name,
      gap₂ := y ++ gap', type := type, gap₃ := gap'', access := access, gap₄ := last
      index_hex := hindex
      subIndex_hex := by simpa using hsub
      gap₁_blank := ⟨List.append_ne_nil_of_left_ne_nil hgap.1 x, hfront⟩
      name_bare := Strip.strip_strip isBlank
      gap₂_blank := ⟨List.append_ne_nil_of_right_ne_nil y hgap'.1, hback⟩
      type_word := htype.isWord
      gap₃_blank := hgap''
      access_word := haccess.isWord
      gap₄_blank := hlast
      line := by
        rw [hname] at hline
        simp only [List.mem_append, not_or] at hline ⊢
        tauto }
  have hmiddle : l.middle = gap ++ (name ++ gap') := by
    show gap ++ x ++ (Strip.strip isBlank name ++ (y ++ gap')) = _
    conv_rhs => rw [hname]
    simp only [List.append_assoc]
  refine ⟨l, ?_, ⟨?_, htype, haccess, ?_⟩, ?_⟩
  · show headText index (sub.map (Prod.mk true)) ++ (l.middle ++ _) = _
    rw [hmiddle]
    simp only [List.append_assoc]
    rfl
  · show ∀ s ∈ sub.map (Prod.mk true), s.1 = true
    simp
  · have hlength := List.length_pos_iff.2 hne
    have hlength' := List.length_pos_iff.2 hgap.1
    have hlength'' := List.length_pos_iff.2 hgap'.1
    rw [hmiddle, List.length_append, List.length_append]
    omega
  · have htrim : trim name = trim (Strip.strip isBlank name) := by
      conv_lhs => rw [hname]
      rw [trim_append_right fun c hc => isSpace_of_isBlank (hy c hc),
        trim_append_left fun c hc => isSpace_of_isBlank (hx c hc)]
    cases sub with
    | none => simp [captured, htrim, l, EntryLine.entry]
    | some d => simp [captured, htrim, l, EntryLine.entry]

def subIndexText : Option (Bool × Text) → Text
  | none => []
  | some (true, digits) => ':' :: '0' :: 'x' :: digits
  | some (false, digits) => ':' :: digits

theorem headText_eq (index : Text) (sub : Option (Bool × Text)) :
    headText index sub = '0' :: 'x' :: (index ++ subIndexText sub) := by
  match sub with
  | none => simp [headText, subIndexText]
  | some (true, digits) => rfl
  | some (false, digits) => rfl

theorem subIndexText_stops (sub : Option (Bool × Text)) : Stops (isDigitOf 16) (subIndexText sub) := by
  match sub with
  | none => rintro c ⟨⟩
  | some (true, digits) => exact stops_cons rfl _
  | some (false, digits) => exact stops_cons rfl _

theorem subIndexText_inj {sub sub' : Option (Bool × Text)} (h : ∀ s ∈ sub, IsHex s.2) (h' : ∀ s ∈ sub', IsHex s.2)
    (heq : subIndexText sub = subIndexText sub') : sub = sub' := by
  have hx : ∀ {d d' : Text}, IsHex d → ':' :: d ≠ ':' :: '0' :: 'x' :: d' := by
    rintro d d' hd ⟨⟩
    exact absurd (hd.2 'x' (by simp)) (by decide)
  match sub, sub' with
  | none, none => rfl
  | some (true, d), some (true, d') => cases heq; rfl
  | some (false, d), some (false, d') => cases heq; rfl
  | some (false, d), some (true, d') => exact absurd heq (hx (h _ rfl))
  | some (true, d), some (false, d') => exact absurd heq.symm (hx (h' _ rfl))
  | none, some (true, _) | none, some (false, _) | some (true, _), none | some (false, _), none => cases heq

theorem not_blank_of_head {index : Text} {sub : Option (Bool × Text)} (h : IsHex index) (hsub : ∀ s ∈ sub, IsHex s.2) :
    ∀ c ∈ headText index sub, isBlank c = false := by
  have hhex : ∀ {d : Text}, IsHex d → ∀ c ∈ d, isBlank c = false := fun hd c hc =>
    not_blank_of_digit (by decide) (hd.2 c hc)
  rw [headText_eq, List.forall_mem_cons, List.forall_mem_cons, List.forall_mem_append]
  refine ⟨rfl, rfl, hhex h, ?_⟩
  match sub with
  | none => simp [subIndexText]
  | some (true, d) =>
    rw [subIndexText, List.forall_mem_cons, List.forall_mem_cons, List.forall_mem_cons]
    exact ⟨rfl, rfl, rfl, hhex (hsub _ rfl)⟩
  | some (false, d) =>
    rw [subIndexText, List.forall_mem_cons]
    exact ⟨rfl, hhex (hsub _ rfl)⟩

namespace EntryLine

/-- Two ways to write one line have the same fields, white space around the name aside. -/
structure Same (l l' : EntryLine) : Prop where
  index : l.index = l'.index
  subIndex : l.subIndex = l'.subIndex
  middle : l.middle = l'.middle
  type : l.type = l'.type
  access : l.access = l'.access

variable {l l' : EntryLine}

/-- A line is cut into its fields in one way: the first word and the last two are the
longest texts without white space. -/
theorem same_of_text (h : l.text = l'.text) : Same l l' := by
  have hwordStops : ∀ {w : Text} (a : Text), IsWord w → Stops isBlank (a ++ w).reverse := fun a hw =>
    stops_reverse_append a hw.1 hw.2
  have hgapStops : ∀ {g : Text} (a : Text), IsGap g → Stops (fun c => !isBlank c) (a ++ g).reverse := fun a hg =>
    stops_reverse_append a hg.1 fun c hc => by simp [hg.2 c hc]
  have hword : ∀ {w : Text}, IsWord w → ∀ c ∈ w, (!isBlank c) = true := fun hw c hc => by simp [hw.2 c hc]
  simp only [text, ← List.append_assoc] at h
  obtain ⟨h, -⟩ := append_unique_right l.gap₄_blank l'.gap₄_blank (hwordStops _ l.access_word)
    (hwordStops _ l'.access_word) h
  obtain ⟨h, haccess⟩ := append_unique_right (hword l.access_word) (hword l'.access_word) (hgapStops _ l.gap₃_blank)
    (hgapStops _ l'.gap₃_blank) h
  obtain ⟨h, -⟩ := append_unique_right l.gap₃_blank.2 l'.gap₃_blank.2 (hwordStops _ l.type_word)
    (hwordStops _ l'.type_word) h
  have hmiddle : ∀ (l : EntryLine) (a : Text), Stops (fun c => !isBlank c) (a ++ l.middle).reverse := fun l a => by
    rw [middle, ← List.append_assoc, ← List.append_assoc]
    exact hgapStops _ l.gap₂_blank
  obtain ⟨h, htype⟩ := append_unique_right (hword l.type_word) (hword l'.type_word) (hmiddle l _) (hmiddle l' _) h
  have hfront : ∀ l : EntryLine, Stops (fun c => !isBlank c) l.middle := fun l =>
    stops_append l.gap₁_blank.1 (fun c hc => by simp [l.gap₁_blank.2 c hc]) _
  have hhead : ∀ l : EntryLine, ∀ c ∈ headText l.index l.subIndex, (!isBlank c) = true := fun l c hc => by
    simp [not_blank_of_head l.index_hex l.subIndex_hex c hc]
  obtain ⟨h, hmid⟩ := append_unique (hhead l) (hhead l') (hfront l) (hfront l') h
  rw [headText_eq, headText_eq, List.cons.injEq, List.cons.injEq] at h
  obtain ⟨hindex, hsub⟩ := append_unique l.index_hex.2 l'.index_hex.2 (subIndexText_stops _) (subIndexText_stops _) h.2.2
  exact ⟨hindex, subIndexText_inj l.subIndex_hex l'.subIndex_hex hsub, hmid, htype, haccess⟩

theorem trim_middle (l : EntryLine) : trim l.middle = trim l.name := by
  rw [middle, trim_append_left fun c hc => isSpace_of_isBlank (l.gap₁_blank.2 c hc),
    trim_append_right fun c hc => isSpace_of_isBlank (l.gap₂_blank.2 c hc)]

theorem Same.readable (h : Same l l') (hl : l'.Readable) : l.Readable :=
  ⟨by rw [h.subIndex]; exact hl.subIndex, by rw [h.type]; exact hl.type, by rw [h.access]; exact hl.access,
    by rw [h.middle]; exact hl.named⟩

theorem Same.read (h : Same l l') :
    { l.entry with name := String.ofList (trim l.name) } = { l'.entry with name := String.ofList (trim l'.name) } := by
  rw [← trim_middle, ← trim_middle, h.middle]
  unfold entry
  rw [h.index, h.subIndex, h.type, h.access]

theorem not_mem_middle (l : EntryLine) : '\n' ∉ l.middle := by
  have hline := l.line
  simp only [middle, List.mem_append, not_or] at hline ⊢
  tauto

/-- What is between the first word and the type leaves a character for the name. -/
theorem exists_name {l : EntryLine} (h : 3 ≤ l.middle.length) :
    ∃ gap name gap', l.middle = gap ++ (name ++ gap') ∧ IsGap gap ∧ name ≠ [] ∧ IsGap gap' := by
  by_cases hname : l.name = []
  · have hblank : ∀ c ∈ l.middle, isBlank c = true := by
      rw [middle, hname, List.nil_append, List.forall_mem_append]
      exact ⟨l.gap₁_blank.2, l.gap₂_blank.2⟩
    generalize l.middle = m at h hblank
    obtain ⟨c, rest, rfl⟩ := List.exists_cons_of_length_pos (by omega : 0 < m.length)
    rcases List.eq_nil_or_concat rest with rfl | ⟨name, d, rfl⟩
    · simp at h
    · rw [List.concat_eq_append] at h hblank ⊢
      simp only [List.forall_mem_cons, List.forall_mem_append] at hblank
      refine ⟨[c], name, [d], rfl, ⟨List.cons_ne_nil c [], by simpa using hblank.1⟩, ?_,
        ⟨List.cons_ne_nil d [], by simpa using hblank.2.2⟩⟩
      rintro rfl
      simp at h
  · exact ⟨l.gap₁, l.name, l.gap₂, rfl, l.gap₁_blank, hname, l.gap₂_blank⟩

theorem Readable.isSome {l : EntryLine} (h : l.Readable) : (entryOfLine l.text).isSome = true := by
  obtain ⟨gap, name, gap', hmiddle, hgap, hname, hgap'⟩ := exists_name h.named
  have hchars : ∀ c ∈ name, (c != '\n') = true := fun c hc => by
    have hmem : c ∈ l.middle := by
      rw [hmiddle]
      exact List.mem_append_right gap (List.mem_append_left gap' hc)
    simpa using ne_of_mem_of_not_mem hmem l.not_mem_middle
  obtain ⟨sub, hsub⟩ : ∃ sub : Option Text, l.subIndex = sub.map (Prod.mk true) := by
    cases hs : l.subIndex with
    | none => exact ⟨none, rfl⟩
    | some s =>
      have hprefixed := h.subIndex s hs
      exact ⟨some s.2, by rw [Option.map_some, ← hprefixed]⟩
  have hhex := l.subIndex_hex
  rw [hsub] at hhex
  have hhead := headRe_reads.2 ⟨l.index, sub, gap, l.index_hex, fun d hd => hhex _ (Option.mem_map_of_mem _ hd),
    hgap, rfl, rfl⟩
  have htail := tailRe_reads.2 ⟨gap', l.type, l.gap₃, l.access, l.gap₄, hgap', h.type, l.gap₃_blank, h.access,
    l.gap₄_blank, rfl, rfl⟩
  have hline : l.text = headText l.index (sub.map (Prod.mk true)) ++ gap ++
      (name ++ (gap' ++ (l.type ++ (l.gap₃ ++ (l.access ++ l.gap₄))))) := by
    rw [text, hsub, hmiddle]
    simp only [List.append_assoc]
  rw [entryOfLine, Option.isSome_map]
  exact matchLine_complete hline hname hchars hhead htail

theorem not_mem_text (l : EntryLine) : '\n' ∉ l.text := by
  have hword : ∀ {w : Text}, (∀ c ∈ w, isBlank c = false) → '\n' ∉ w := fun hw hc => by
    have hbreak := hw _ hc
    cases hbreak
  have hhead := hword (not_blank_of_head l.index_hex l.subIndex_hex)
  have htype := hword l.type_word.2
  have haccess := hword l.access_word.2
  have hline := l.line
  simp only [text, middle, List.mem_append, not_or] at hline ⊢
  tauto

/-- **What is read of an entry line.** -/
theorem entryOfLine_text {l : EntryLine} {e : SdoDictionaryEntry} (h : entryOfLine l.text = some e) :
    l.Readable ∧ e = { l.entry with name := String.ofList (trim l.name) } := by
  obtain ⟨l', htext, hreadable, rfl⟩ := entryOfLine_some l.not_mem_text h
  have hsame := same_of_text htext.symm
  exact ⟨hsame.readable hreadable, hsame.read.symm⟩

theorem entryOfLine_eq_entry_iff (l : EntryLine) : entryOfLine l.text = some l.entry ↔ l.Supported := by
  constructor
  · intro h
    obtain ⟨hreadable, hentry⟩ := entryOfLine_text h
    have hname : String.ofList l.name = String.ofList (trim l.name) := congrArg SdoDictionaryEntry.name hentry
    exact ⟨hreadable, (String.ofList_injective hname).symm⟩
  · intro h
    obtain ⟨e, he⟩ := Option.isSome_iff_exists.1 h.toReadable.isSome
    obtain ⟨-, rfl⟩ := entryOfLine_text he
    rw [he, h.bare]
    rfl

end EntryLine

theorem entryOfLine_other (m : OtherLine) : entryOfLine m.text = none := by
  cases h : entryOfLine m.text with
  | none => rfl
  | some e =>
    obtain ⟨l, htext, -⟩ := entryOfLine_some m.line h
    exact absurd htext (m.other l)

/-! ## Listings -/

/-- Where each entry that is read is one that there is, all are read only if each is. -/
theorem filterMap_eq_iff {α γ : Type} {f g : α → Option γ} {items : List α}
    (h : ∀ i ∈ items, (g i).isSome = true → (f i).isSome = true) :
    items.filterMap g = items.filterMap f ↔ ∀ i ∈ items, g i = f i := by
  have hlength : ∀ {is : List α}, (∀ i ∈ is, (g i).isSome = true → (f i).isSome = true) →
      (is.filterMap g).length ≤ (is.filterMap f).length := by
    intro is his
    induction is with
    | nil => exact Nat.le_refl 0
    | cons i is ih =>
      rw [List.forall_mem_cons] at his
      have hrest := ih his.2
      cases hg : g i with
      | none =>
        rw [List.filterMap_cons_none hg]
        exact hrest.trans (List.Sublist.filterMap f (List.sublist_cons_self i is)).length_le
      | some y =>
        obtain ⟨x, hf⟩ := Option.isSome_iff_exists.1 (his.1 (by rw [hg]; rfl))
        rw [List.filterMap_cons_some hg, List.filterMap_cons_some hf]
        exact Nat.succ_le_succ hrest
  induction items with
  | nil => simp
  | cons i items ih =>
    rw [List.forall_mem_cons] at h ⊢
    have hrest := ih h.2
    cases hg : g i with
    | some y =>
      obtain ⟨x, hf⟩ := Option.isSome_iff_exists.1 (h.1 (by rw [hg]; rfl))
      rw [List.filterMap_cons_some hg, List.filterMap_cons_some hf, hf, List.cons.injEq]
      exact and_congr Option.some_inj.symm hrest
    | none =>
      cases hf : f i with
      | none =>
        rw [List.filterMap_cons_none hg, List.filterMap_cons_none hf]
        exact ⟨fun heq => ⟨rfl, hrest.1 heq⟩, fun heq => hrest.2 heq.2⟩
      | some x =>
        -- An entry is missing, and the rest cannot make up for it.
        rw [List.filterMap_cons_none hg, List.filterMap_cons_some hf]
        refine iff_of_false (fun heq => ?_) (by simp)
        have hle := hlength h.2
        rw [heq, List.length_cons] at hle
        omega

theorem Item.not_mem_text : ∀ i : Item, '\n' ∉ i.text
  | .entry l => l.not_mem_text
  | .other m => m.line

theorem entryOfLine_nil : entryOfLine [] = none := rfl

theorem filterMap_lines (items : List Item) :
    (lines (render items)).filterMap entryOfLine = items.filterMap fun i => entryOfLine i.text := by
  have hcut : ((render items).splitOn '\n').filterMap entryOfLine = items.filterMap fun i => entryOfLine i.text := by
    cases items with
    | nil => rfl
    | cons i items =>
      rw [render, List.splitOn_intercalate '\n' (List.forall_mem_map.2 fun j _ => j.not_mem_text) (by simp),
        List.filterMap_map]
      rfl
  rw [lines, List.filterMap_filter, ← hcut]
  refine List.filterMap_congr fun line _ => ?_
  by_cases h : line = []
  · rw [h, entryOfLine_nil]
    rfl
  · simp [h]

theorem replyTo_inj {position : Int} {dict dict' : List SdoDictionaryEntry} :
    replyTo position dict = replyTo position dict' ↔ dict = dict' := by
  refine ⟨fun h => ?_, congrArg _⟩
  unfold replyTo at h
  by_cases hd : dict = [] <;> by_cases hd' : dict' = [] <;> simp_all

/-- **The listings of which every entry is read**: one entry for each entry line, in order,
and no other line gives one. -/
theorem onSdoText_iff (position : Int) (items : List Item) :
    onSdoText position "SDO" (render items) = replyTo position (items.filterMap Item.toEntry) ↔
      ∀ l, Item.entry l ∈ items → l.Supported := by
  rw [onSdoText, if_neg (by simp), filterMap_lines, replyTo_inj, filterMap_eq_iff]
  · constructor
    · intro h l hl
      exact l.entryOfLine_eq_entry_iff.1 (h _ hl)
    · intro h i hi
      cases i with
      | entry l => exact l.entryOfLine_eq_entry_iff.2 (h l hi)
      | other m => exact entryOfLine_other m
  · intro i _ hi
    cases i with
    | entry l => rfl
    | other m =>
      rw [Item.text, entryOfLine_other] at hi
      cases hi

/-- `0x1000:01  Device type        uint32  ro` -/
def deviceType : EntryLine where
  index := "1000".toList
  subIndex := some (false, "01".toList)
  gap₁ := "  ".toList
  name := "Device type".toList
  gap₂ := "        ".toList
  type := "uint32".toList
  gap₃ := "  ".toList
  access := "ro".toList
  gap₄ := []
  index_hex := run_of_all rfl
  subIndex_hex := by
    rintro s ⟨⟩
    exact run_of_all rfl
  gap₁_blank := run_of_all rfl
  name_bare := by rfl
  gap₂_blank := run_of_all rfl
  type_word := isWord_of_all rfl
  gap₃_blank := run_of_all rfl
  access_word := isWord_of_all rfl
  gap₄_blank := by simp
  line := by simp

/-- The first line form of the comment is not read. -/
theorem deviceType_skipped :
    deviceType.text = "0x1000:01  Device type        uint32  ro".toList ∧
      onSdoText 1 "SDO" (render [.entry deviceType]) ≠ replyTo 1 ([Item.entry deviceType].filterMap Item.toEntry) := by
  exact ⟨by rfl, fun h => by cases h⟩

end NekoEcat.L4.CoEService
