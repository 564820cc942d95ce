import NekoEcat.Core.QNumber
import NekoEcat.Core.XmlTree

/-!
# The DC configuration of an ESI file

`parseDcConfigFromXml` goes through the tokens of an ESI file with two flags, and
fills one record from the elements of every `OpMode` of the first `Dc`. Nothing
is reset between the modes: of each field the last mode that has it counts.

* `run_mode`, `run_modes`: what the loop makes of one mode, and of a `Dc`.
* `parse_document`: the record that is returned.
* `one_mode_iff`: when the record is that of one mode.
-/
namespace NekoEcat.L2.DcModes
open NekoEcat.QNumber NekoEcat.XmlTree

/-! ## Fields -/

inductive Field where
  | assignActivate | sync0Cycle | sync0Shift | sync1Cycle | sync1Shift
  deriving DecidableEq, Repr

def Field.name : Field → String
  | .assignActivate => "AssignActivate"
  | .sync0Cycle => "Sync0Cycle"
  | .sync0Shift => "Sync0Shift"
  | .sync1Cycle => "Sync1Cycle"
  | .sync1Shift => "Sync1Shift"

/-- The chain of comparisons of an element's name. -/
def fieldOf (name : String) : Option Field :=
  if name = "AssignActivate" then some .assignActivate
  else if name = "Sync0Cycle" then some .sync0Cycle
  else if name = "Sync0Shift" then some .sync0Shift
  else if name = "Sync1Cycle" then some .sync1Cycle
  else if name = "Sync1Shift" then some .sync1Shift
  else none

/-- mirrors apps/ecatd/handlers/DcSyncHandler.h:34-40 -/
structure DcConfig where
  assignActivate : Int := 0
  sync0CycleNs : Int := 0
  sync0ShiftNs : Int := 0
  sync1CycleNs : Int := 0
  sync1ShiftNs : Int := 0
  deriving DecidableEq, Repr

/-- `startsWith("#x", Qt::CaseInsensitive)` -/
def startsWithHash : Text → Bool
  | '#' :: c :: _ => c == 'x' || c == 'X'
  | _ => false

/-- The number in the text of a field; 0 if it is none.
mirrors apps/ecatd/handlers/DcSyncHandler.cpp:319-334 -/
def Field.read (f : Field) (text : Text) : Int :=
  let val := trim text
  match f with
  | .assignActivate =>
    if startsWithHash val || startsWith0x val then (toUInt 16 (val.drop 2)).getD 0 else (toUInt 10 val).getD 0
  | .sync0Cycle => (toUInt 10 val).getD 0
  | .sync0Shift => (toInt 10 val).getD 0
  | .sync1Cycle => (toUInt 10 val).getD 0
  | .sync1Shift => (toInt 10 val).getD 0

def DcConfig.get (c : DcConfig) : Field → Int
  | .assignActivate => c.assignActivate
  | .sync0Cycle => c.sync0CycleNs
  | .sync0Shift => c.sync0ShiftNs
  | .sync1Cycle => c.sync1CycleNs
  | .sync1Shift => c.sync1ShiftNs

def DcConfig.set (c : DcConfig) (val : Int) : Field → DcConfig
  | .assignActivate => { c with assignActivate := val }
  | .sync0Cycle => { c with sync0CycleNs := val }
  | .sync0Shift => { c with sync0ShiftNs := val }
  | .sync1Cycle => { c with sync1CycleNs := val }
  | .sync1Shift => { c with sync1ShiftNs := val }

theorem DcConfig.get_set (c : DcConfig) (val : Int) (f g : Field) :
    (c.set val f).get g = if f = g then val else c.get g := by
  cases f <;> cases g <;> rfl

theorem DcConfig.eq_iff {c d : DcConfig} : c = d ↔ ∀ f, c.get f = d.get f := by
  constructor
  · intro h f
    rw [h]
  · intro h
    cases c
    cases d
    simp only [DcConfig.mk.injEq]
    exact ⟨h .assignActivate, h .sync0Cycle, h .sync0Shift, h .sync1Cycle, h .sync1Shift⟩

theorem fieldOf_name (f : Field) : fieldOf f.name = some f := by
  cases f <;> decide

/-! ## The loop -/

structure State where
  config : DcConfig := {}
  inDc : Bool := false
  inOpMode : Bool := false

def isOpMode (name : String) : Bool := name == "OpMode" || name == "OpModeData"

/-- The tokens that are left, and the state; `none` is an error of `readElementText`. -/
def startElement (name : String) (ts : List Token) (s : State) : Option (List Token × State) :=
  if name = "Dc" then some (ts, { s with inDc := true })
  else if s.inDc && isOpMode name then some (ts, { s with inOpMode := true })
  else if s.inOpMode then
    match fieldOf name with
    | some f => (readElementText ts).map fun r => (r.2, { s with config := s.config.set (f.read r.1) f })
    | none => some (ts, s)
  else some (ts, s)

/-- The loop, with fuel; `none` is an error of the reader, `broken` whether it
meets one at the end.
mirrors apps/ecatd/handlers/DcSyncHandler.cpp:303-350 -/
def walk (broken : Bool) : Nat → List Token → State → Option DcConfig
  | 0, _, s => if broken then none else some s.config
  | _ + 1, [], s => if broken then none else some s.config
  | fuel + 1, .start name :: ts, s => (startElement name ts s).bind fun r => walk broken fuel r.1 r.2
  | fuel + 1, .close name :: ts, s =>
    if isOpMode name then walk broken fuel ts { s with inOpMode := false }
    else if name = "Dc" then some s.config
    else walk broken fuel ts s
  | fuel + 1, _ :: ts, s => walk broken fuel ts s

/-- `QXmlStreamReader`: the tokens of a text, and whether an error ends them. -/
abbrev Reader := Text → List Token × Bool

/-- mirrors apps/ecatd/handlers/DcSyncHandler.cpp:286-357 -/
def parseDcConfigFromXml (read : Reader) (xmlText : Text) : DcConfig :=
  let (ts, broken) := read xmlText
  (walk broken ts.length ts {}).getD {}

/-! ## Runs of the loop -/

theorem startElement_length {name : String} {ts : List Token} {s : State} {r : List Token × State}
    (h : startElement name ts s = some r) : r.1.length ≤ ts.length := by
  have hsame {s : State} (h : some (ts, s) = some r) : r.1.length ≤ ts.length := by
    cases h
    exact Nat.le_refl _
  unfold startElement at h
  split at h
  · exact hsame h
  split at h
  · exact hsame h
  split at h
  · split at h
    · obtain ⟨r', hr', rfl⟩ := Option.map_eq_some_iff.1 h
      have hle : r'.2.length ≤ ts.length := readElementText_length hr'
      exact hle
    · exact hsame h
  · exact hsame h

section
variable (broken : Bool)

/-- More fuel than tokens makes no difference. -/
theorem walk_fuel {fuel fuel' : Nat} {ts : List Token} (h : ts.length ≤ fuel) (h' : ts.length ≤ fuel') (s : State) :
    walk broken fuel ts s = walk broken fuel' ts s := by
  induction fuel generalizing fuel' ts s with
  | zero =>
    rw [List.length_eq_zero_iff.1 (Nat.le_zero.1 h)]
    cases fuel' <;> rfl
  | succ fuel ih =>
    cases ts with
    | nil => cases fuel' <;> rfl
    | cons t ts =>
      cases fuel' with
      | zero => cases h'
      | succ fuel' =>
        have hle := Nat.le_of_succ_le_succ h
        have hle' := Nat.le_of_succ_le_succ h'
        cases t with
        | character c => exact ih hle hle' s
        | other => exact ih hle hle' s
        | close name =>
          rw [walk, walk]
          split
          · exact ih hle hle' _
          · split
            · rfl
            · exact ih hle hle' s
        | start name =>
          rw [walk, walk]
          refine Option.bind_congr fun r hr => ?_
          have hshort := startElement_length hr
          exact ih (Nat.le_trans hshort hle) (Nat.le_trans hshort hle') r.2

/-- The loop over all tokens. -/
def run (ts : List Token) (s : State) : Option DcConfig := walk broken ts.length ts s

theorem run_start {name : String} {ts ts' : List Token} {s s' : State} (h : startElement name ts s = some (ts', s')) :
    run broken (.start name :: ts) s = run broken ts' s' := by
  unfold run
  rw [List.length_cons, walk, h, Option.bind_some]
  exact walk_fuel broken (startElement_length h) (Nat.le_refl _) s'

/-- A token that changes nothing in a state. -/
def Idle (s : State) : Token → Prop
  | .start name => ∀ ts, startElement name ts s = some (ts, s)
  | .close name => (isOpMode name = false ∨ s.inOpMode = false) ∧ name ≠ "Dc"
  | .character _ => True
  | .other => True

theorem idle_other (s : State) : ∀ t ∈ [Token.other], Idle s t :=
  List.forall_mem_singleton.2 trivial

theorem run_idle {pre : List Token} {s : State} (h : ∀ t ∈ pre, Idle s t) (ts : List Token) :
    run broken (pre ++ ts) s = run broken ts s := by
  induction pre with
  | nil => rfl
  | cons t pre ih =>
    have hrest := ih fun u hu => h u (List.mem_cons_of_mem t hu)
    have ht := h t List.mem_cons_self
    cases t with
    | start name => exact (run_start broken (ht (pre ++ ts))).trans hrest
    | close name =>
      refine Eq.trans ?_ hrest
      rw [run, List.cons_append, List.length_cons, walk, if_neg ht.2]
      split
      · rename_i hmode
        have hoff : s.inOpMode = false := ht.1.resolve_left (by simp [hmode])
        rw [← hoff]
        rfl
      · rfl
    | character c => exact hrest
    | other => exact hrest

/-- An element that is passed over, with all that is in it. -/
theorem run_passed {name : String} {inside : Content} {s : State}
    (h : ∀ n ∈ name :: inside.names, Idle s (.start n) ∧ Idle s (.close n)) (ts : List Token) :
    run broken (.start name :: (inside.tokens ++ .close name :: ts)) s = run broken ts s := by
  have hidle : ∀ t ∈ .start name :: (inside.tokens ++ [.close name]), Idle s t := by
    intro t ht
    cases t with
    | character c => trivial
    | other => trivial
    | start n =>
      refine (h n ?_).1
      simp only [List.mem_cons, Token.start.injEq, List.mem_append, reduceCtorEq, List.not_mem_nil, or_false] at ht
      rcases ht with rfl | ht
      · exact List.mem_cons_self
      · exact List.mem_cons_of_mem _ (mem_tokens (.inl ht))
    | close n =>
      refine (h n ?_).2
      simp only [List.mem_cons, Token.close.injEq, List.mem_append, reduceCtorEq, List.not_mem_nil, or_false,
        false_or] at ht
      rcases ht with ht | rfl
      · exact List.mem_cons_of_mem _ (mem_tokens (.inr ht))
      · exact List.mem_cons_self
  have hsplit : .start name :: (inside.tokens ++ .close name :: ts) =
      .start name :: (inside.tokens ++ [.close name]) ++ ts := by simp
  rw [hsplit, run_idle broken hidle]

end

/-! ## ESI files -/

def isSpecial (name : String) : Bool := name == "Dc" || isOpMode name || (fieldOf name).isSome

/-- The content of an `OpMode`: the fields have a text, and in the other elements
nothing is called like a field, a mode or a `Dc`. -/
def IsMode : Content → Prop
  | .done => True
  | .text _ rest => IsMode rest
  | .other rest => IsMode rest
  | .element name inside rest =>
    ((∃ f : Field, name = f.name) ∧ inside.written.isSome = true ∨ ∀ n ∈ name :: inside.names, isSpecial n = false) ∧
      IsMode rest

/-- The fields of a mode with their texts, in the order of the file. -/
abbrev Mode := List (Field × Text)

def fieldTexts : Content → Mode
  | .done => []
  | .text _ rest => fieldTexts rest
  | .other rest => fieldTexts rest
  | .element name inside rest =>
    match fieldOf name, inside.written with
    | some f, some text => (f, text) :: fieldTexts rest
    | _, _ => fieldTexts rest

/-- The content of a `Dc`: modes that have each field at most once, and other elements
in which there is no mode and no `Dc`. -/
def IsDc : Content → Prop
  | .done => True
  | .text _ rest => IsDc rest
  | .other rest => IsDc rest
  | .element name inside rest =>
    (name = "OpMode" ∧ IsMode inside ∧ ((fieldTexts inside).map (·.1)).Nodup ∨
      ∀ n ∈ name :: inside.names, n ≠ "Dc" ∧ isOpMode n = false) ∧ IsDc rest

def modes : Content → List Mode
  | .done => []
  | .text _ rest => modes rest
  | .other rest => modes rest
  | .element name inside rest => if name = "OpMode" then fieldTexts inside :: modes rest else modes rest

/-- A file whose first `Dc`, if it has one, is as ESI has it. -/
def IsEsi (doc : Content) : Prop := ∀ dc, doc.first "Dc" = some dc → IsDc dc

/-- The modes of the first `Dc`. -/
def firstModes (doc : Content) : List Mode := ((doc.first "Dc").map modes).getD []

/-- The value of a field of a mode; 0 if it has none. -/
def Mode.get (m : Mode) (f : Field) : Int := ((m.lookup f).map f.read).getD 0

/-- The record of one mode. -/
def Mode.config (m : Mode) : DcConfig :=
  ⟨m.get .assignActivate, m.get .sync0Cycle, m.get .sync0Shift, m.get .sync1Cycle, m.get .sync1Shift⟩

/-- The record after the fields of a mode. -/
def fill (c : DcConfig) (m : Mode) : DcConfig := m.foldl (fun c e => c.set (e.1.read e.2) e.1) c

/-! ## What the loop makes of a file -/

section
variable (broken : Bool)

theorem run_mode {c : Content} (h : IsMode c) (ts : List Token) (config : DcConfig) :
    run broken (c.tokens ++ ts) ⟨config, true, true⟩ = run broken ts ⟨fill config (fieldTexts c), true, true⟩ := by
  induction c generalizing config with
  | done => rfl
  | text cs rest ih =>
    rw [Content.tokens, List.append_assoc, run_idle broken (by simp [Idle]), ih h]
    rfl
  | other rest ih => exact (run_idle broken (idle_other _) _).trans (ih h config)
  | element name inside rest _ ih =>
    obtain ⟨hname, hrest⟩ := h
    have htokens : (Content.element name inside rest).tokens ++ ts =
        .start name :: (inside.tokens ++ .close name :: (rest.tokens ++ ts)) := by simp [Content.tokens]
    rw [htokens]
    rcases hname with ⟨⟨f, rfl⟩, hwritten⟩ | hplain
    · obtain ⟨text, htext⟩ := Option.isSome_iff_exists.1 hwritten
      have hstart : startElement f.name (inside.tokens ++ .close f.name :: (rest.tokens ++ ts)) ⟨config, true, true⟩ =
          some (rest.tokens ++ ts, ⟨config.set (f.read text) f, true, true⟩) := by
        have hno : f.name ≠ "Dc" ∧ isOpMode f.name = false := by cases f <;> decide
        rw [startElement, if_neg hno.1, hno.2, if_neg (by simp), if_pos rfl, fieldOf_name]
        simp only [readElementText_tokens htext, Option.map_some]
      rw [run_start broken hstart, ih hrest, fieldTexts, fieldOf_name, htext]
      rfl
    · have hspecial : ∀ n ∈ name :: inside.names, n ≠ "Dc" ∧ isOpMode n = false ∧ fieldOf n = none := by
        intro n hn
        simpa [isSpecial, and_assoc] using hplain n hn
      have hpassed : ∀ n ∈ name :: inside.names, Idle ⟨config, true, true⟩ (.start n) ∧ Idle ⟨config, true, true⟩ (.close n) := by
        intro n hn
        obtain ⟨hdc, hmode, hfield⟩ := hspecial n hn
        refine ⟨fun ts => ?_, .inl hmode, hdc⟩
        rw [startElement, if_neg hdc, hmode, if_neg (by simp), if_pos rfl, hfield]
      rw [run_passed broken hpassed, ih hrest, fieldTexts, (hspecial name List.mem_cons_self).2.2]

theorem run_modes {c : Content} (h : IsDc c) (ts : List Token) (config : DcConfig) :
    run broken (c.tokens ++ ts) ⟨config, true, false⟩ = run broken ts ⟨(modes c).foldl fill config, true, false⟩ := by
  induction c generalizing config with
  | done => rfl
  | text cs rest ih =>
    rw [Content.tokens, List.append_assoc, run_idle broken (by simp [Idle]), ih h]
    rfl
  | other rest ih => exact (run_idle broken (idle_other _) _).trans (ih h config)
  | element name inside rest _ ih =>
    obtain ⟨hname, hrest⟩ := h
    have htokens : (Content.element name inside rest).tokens ++ ts =
        .start name :: (inside.tokens ++ .close name :: (rest.tokens ++ ts)) := by simp [Content.tokens]
    rw [htokens]
    rcases hname with ⟨rfl, hmode, -⟩ | hplain
    · have hclose (ts : List Token) (config : DcConfig) :
          run broken (.close "OpMode" :: ts) ⟨config, true, true⟩ = run broken ts ⟨config, true, false⟩ := rfl
      have hstart (ts : List Token) : startElement "OpMode" ts ⟨config, true, false⟩ = some (ts, ⟨config, true, true⟩) := rfl
      rw [run_start broken (hstart _), run_mode broken hmode, hclose, ih hrest, modes, if_pos rfl, List.foldl_cons]
    · have hpassed : ∀ n ∈ name :: inside.names, Idle ⟨config, true, false⟩ (.start n) ∧ Idle ⟨config, true, false⟩ (.close n) := by
        intro n hn
        obtain ⟨hdc, hmode⟩ := hplain n hn
        refine ⟨fun ts => ?_, .inl hmode, hdc⟩
        rw [startElement, if_neg hdc, hmode, if_neg (by simp), if_neg (by simp)]
      have hno : name ≠ "OpMode" := by
        rintro rfl
        exact absurd (hplain _ List.mem_cons_self).2 (by decide)
      rw [run_passed broken hpassed, ih hrest, modes, if_neg hno]

/-- **The record of a file**: the fields of the modes of its first `Dc`, one mode after
the other. -/
theorem run_document {doc : Content} (h : IsEsi doc) :
    run false doc.tokens {} = some ((firstModes doc).foldl fill {}) := by
  have hidle : ∀ t : Token, t ≠ .start "Dc" → t ≠ .close "Dc" → Idle {} t := by
    intro t hstart hclose
    cases t with
    | character c => trivial
    | other => trivial
    | start name =>
      intro ts
      rw [startElement, if_neg (mt (congrArg Token.start) hstart), if_neg (by simp), if_neg (by simp)]
    | close name => exact ⟨.inr rfl, mt (congrArg Token.close) hclose⟩
  unfold firstModes
  cases hfirst : doc.first "Dc" with
  | none =>
    have hnone := first_eq_none hfirst
    have hall : ∀ t ∈ doc.tokens, Idle {} t := by
      intro t ht
      refine hidle t ?_ ?_
      · rintro rfl
        exact hnone (mem_tokens (.inl ht))
      · rintro rfl
        exact hnone (mem_tokens (.inr ht))
    rw [← List.append_nil doc.tokens, run_idle false hall]
    rfl
  | some dc =>
    obtain ⟨pre, post, htokens, hstart, hclose⟩ := first_split hfirst
    have hpre : ∀ t ∈ pre, Idle {} t := by
      intro t ht
      refine hidle t ?_ ?_
      · rintro rfl
        exact hstart ht
      · rintro rfl
        exact hclose ht
    have hend (config : DcConfig) : run false (.close "Dc" :: post) ⟨config, true, false⟩ = some config := rfl
    have hfound (ts : List Token) : startElement "Dc" ts {} = some (ts, ⟨{}, true, false⟩) := rfl
    rw [htokens, run_idle false hpre, run_start false (hfound _), run_modes false (h dc hfirst), hend]
    rfl

end

/-! ## The fields that count -/

/-- The value of a field in the last mode that has it; 0 if none has. -/
def lastValue (ms : List Mode) (f : Field) : Int := ((ms.filterMap (·.lookup f)).getLast?.map f.read).getD 0

theorem get_fill {m : Mode} (hm : (m.map (·.1)).Nodup) (c : DcConfig) (f : Field) :
    (fill c m).get f = ((m.lookup f).map f.read).getD (c.get f) := by
  induction m generalizing c with
  | nil => rfl
  | cons e m ih =>
    obtain ⟨g, text⟩ := e
    obtain ⟨hnot, hm⟩ := List.nodup_cons.1 hm
    have hfill : fill c ((g, text) :: m) = fill (c.set (g.read text) g) m := rfl
    rw [hfill, ih hm, DcConfig.get_set, List.lookup_cons]
    by_cases hg : g = f
    · subst hg
      have hnone : m.lookup g = none := by
        rw [List.lookup_eq_none_iff]
        intro e he
        simpa using fun heq : g = e.1 => hnot (List.mem_map.2 ⟨e, he, heq.symm⟩)
      simp [hnone]
    · have hb : (f == g) = false := beq_eq_false_iff_ne.2 (Ne.symm hg)
      rw [hb, if_neg hg]

/-- Of each field the last mode that has it counts. -/
theorem get_foldl_fill {ms : List Mode} (hms : ∀ m ∈ ms, (m.map (·.1)).Nodup) (f : Field) :
    (ms.foldl fill {}).get f = lastValue ms f := by
  induction ms using List.reverseRecOn with
  | nil => cases f <;> rfl
  | append_singleton ms m ih =>
    have hrest := ih fun m' hm' => hms m' (List.mem_append_left _ hm')
    have hlast : (m.map (·.1)).Nodup := hms m (by simp)
    rw [List.foldl_append, List.foldl_cons, List.foldl_nil, get_fill hlast, hrest, lastValue, lastValue,
      List.filterMap_append]
    cases hl : m.lookup f with
    | none => simp [hl]
    | some text => simp [hl]

theorem nodup_modes {c : Content} (h : IsDc c) : ∀ m ∈ modes c, (m.map (·.1)).Nodup := by
  induction c with
  | done => simp [modes]
  | text cs rest ih => exact ih h
  | other rest ih => exact ih h
  | element name inside rest _ ih =>
    obtain ⟨hname, hrest⟩ := h
    rw [modes]
    split
    · rename_i heq
      intro m hm
      rcases List.mem_cons.1 hm with rfl | hm
      · rcases hname with ⟨-, -, hnodup⟩ | hplain
        · exact hnodup
        · exact absurd (hplain name List.mem_cons_self).2 (by rw [heq]; decide)
      · exact ih hrest m hm
    · exact ih hrest

theorem get_config (m : Mode) (f : Field) : m.config.get f = m.get f := by cases f <;> rfl

/-- **The record that is returned**: of each field the last mode that has it. -/
theorem parse_document {read : Reader} {xmlText : Text} {doc : Content} (hread : read xmlText = (doc.tokens, false))
    (hdoc : IsEsi doc) (f : Field) :
    (parseDcConfigFromXml read xmlText).get f = lastValue (firstModes doc) f := by
  have hrun : walk false doc.tokens.length doc.tokens {} = some ((firstModes doc).foldl fill {}) := run_document hdoc
  rw [parseDcConfigFromXml, hread]
  dsimp only
  rw [hrun, Option.getD_some]
  refine get_foldl_fill ?_ f
  unfold firstModes
  cases hfirst : doc.first "Dc" with
  | none => simp
  | some dc => exact nodup_modes (hdoc dc hfirst)

/-! ## One mode -/

/-- The record is that of one of the modes; without a mode it is all 0. -/
def FromOneMode (ms : List Mode) (config : DcConfig) : Prop :=
  if ms = [] then config = {} else ∃ m ∈ ms, config = m.config

/-- **One mode, exactly.** The record comes from one mode if and only if there is none,
or one of the modes agrees with the last mode of every field. -/
theorem one_mode_iff {read : Reader} {xmlText : Text} {doc : Content} (hread : read xmlText = (doc.tokens, false))
    (hdoc : IsEsi doc) :
    FromOneMode (firstModes doc) (parseDcConfigFromXml read xmlText) ↔
      firstModes doc = [] ∨ ∃ m ∈ firstModes doc, ∀ f, m.get f = lastValue (firstModes doc) f := by
  have hget := parse_document hread hdoc
  unfold FromOneMode
  split
  · rename_i hnil
    refine iff_of_true (DcConfig.eq_iff.2 fun f => ?_) (.inl hnil)
    rw [hget f, hnil]
    cases f <;> rfl
  · rename_i hne
    simp only [hne, false_or, DcConfig.eq_iff, get_config, hget, eq_comm]

def leaf (f : Field) (text : String) (rest : Content) : Content := .element f.name (.text text.toList .done) rest

/-- A file with two modes: the second one sets no `AssignActivate`. -/
def twoModes : Content :=
  .element "Dc"
    (.element "OpMode" (leaf .assignActivate "#x0300" (leaf .sync0Cycle "1000000" .done))
      (.element "OpMode" (leaf .sync0Cycle "2000000" (leaf .sync1Cycle "4000000" .done)) .done))
    .done

/-- The reader at the text of such a file. -/
def readerOf (doc : Content) : Reader := fun _ => (doc.tokens, false)

theorem isEsi_twoModes : IsEsi twoModes := by
  intro dc hdc
  have hleaf {f : Field} {text : String} {rest : Content} (h : IsMode rest) : IsMode (leaf f text rest) :=
    ⟨.inl ⟨⟨f, rfl⟩, rfl⟩, h⟩
  cases hdc
  exact ⟨.inl ⟨rfl, hleaf (hleaf trivial), by decide⟩, .inl ⟨rfl, hleaf (hleaf trivial), by decide⟩, trivial⟩

theorem one_mode_two : ¬ FromOneMode (firstModes twoModes) (parseDcConfigFromXml (readerOf twoModes) []) ↔
    ¬ (firstModes twoModes = [] ∨ ∃ m ∈ firstModes twoModes, ∀ f, m.get f = lastValue (firstModes twoModes) f) :=
  not_congr (one_mode_iff rfl isEsi_twoModes)

/-- **Two modes are mixed**: the first one's `AssignActivate` with the cycles of the second. -/
theorem modes_mixed : IsEsi twoModes ∧ ¬ FromOneMode (firstModes twoModes) (parseDcConfigFromXml (readerOf twoModes) []) := by
  refine ⟨isEsi_twoModes, ?_⟩
  have hread : readerOf twoModes [] = (twoModes.tokens, false) := rfl
  have hactivate := parse_document hread isEsi_twoModes .assignActivate
  have hcycle := parse_document hread isEsi_twoModes .sync1Cycle
  have hmodes : firstModes twoModes ≠ [] := by decide
  rw [FromOneMode, if_neg hmodes]
  rintro ⟨m, hm, heq⟩
  rw [heq, get_config] at hactivate hcycle
  have hno : ∀ m ∈ firstModes twoModes, ¬ (m.get .assignActivate = lastValue (firstModes twoModes) .assignActivate ∧
      m.get .sync1Cycle = lastValue (firstModes twoModes) .sync1Cycle) := by decide +kernel
  exact hno m hm ⟨hactivate, hcycle⟩

end NekoEcat.L2.DcModes
