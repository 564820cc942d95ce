import NekoEcat.Core.Strip
import NekoEcat.L2Daemon.CliAnswers
import NekoEcat.L2Daemon.CliBackend

/-!
# The network adapter of the master (`AdapterHandler`)

`handleSet` writes the adapter into `/etc/ethercat.conf`: over each definition of the
master device that starts a line and has a value in quotes, or behind the text if
there is none. `currentAdapter` reads the first definition with a value in quotes,
wherever it stands, in a comment too.

The file is a text: its lines end with a line feed for those who read and write it.

* `firstMatch_get`, `valueOf_trim`: what is read of a text.
* `valueOf_definition`: what is read of one with a definition written into it.
* `search_eq_some`, `assignments_replaceFrom`: the definitions that are replaced.
* `set_get_iff`: when the adapter is read back, from the only definition.
-/
namespace NekoEcat.L2.AdapterConfig
open NekoEcat.QJson NekoEcat.QNumber NekoEcat.QString NekoEcat.Regex NekoEcat.L2.CliBackend
open NekoEcat.L2.FoE (success failure)
open NekoEcat.L2.CliAnswers (IsOk isOk_success isOk_failure)

abbrev Text := List Char

/-! ## The code -/

def key : Text := "MASTER0_DEVICE".toList

/-- `[^"]` -/
def inValue (c : Char) : Bool := c != '"'

/-- `MASTER0_DEVICE\s*=\s*"`, and what follows -/
def definitionRe (rest : Re) : Re :=
  .cat (.lit key) (.cat (.many isBlank) (.cat (.lit ['=']) (.cat (.many isBlank) (.cat (.lit ['"']) rest))))

/-- `^MASTER0_DEVICE\s*=\s*"[^"]*"`, without the anchor -/
def setRe : Re := definitionRe (.cat (.many inValue) (.lit ['"']))

/-- `MASTER0_DEVICE\s*=\s*"([^"]*)"` -/
def getRe : Re := definitionRe (.cat (.group (.many inValue)) (.lit ['"']))

/-- The first match of `setRe` at the start of a line: what is in front of it, and behind. -/
def search : Bool → Text → Option (Text × Text)
  | _, [] => none
  | lineStart, c :: s =>
    match if lineStart = true then matchStart setRe (c :: s) else none with
    | some (_, behind) => some ([], behind)
    | none => (search (c == '\n') s).map fun r => (c :: r.1, r.2)

/-- `replace(re, replacement)`: what is behind a match does not start a line. -/
def replaceFrom (replacement : Text) : Nat → Bool → Text → Text
  | 0, _, s => s
  | fuel + 1, lineStart, s =>
    match search lineStart s with
    | none => s
    | some (before, behind) => before ++ replacement ++ replaceFrom replacement fuel false behind

def replacementOf (adapter : Text) : Text := key ++ ['=', '"'] ++ adapter ++ ['"']

def terminated (content : Text) : Text := if content.getLast? = some '\n' then content else content ++ ['\n']

/-- mirrors apps/ecatd/handlers/AdapterHandler.cpp:67-81 -/
def updated (content adapter : Text) : Text :=
  match search true content with
  | some _ => replaceFrom (replacementOf adapter) content.length true content
  | none => terminated content ++ replacementOf adapter ++ ['\n']

/-- What the handler finds: the entries of `/sys/class/net` but `lo`, the file, and the
errors of opening it. -/
structure Host where
  adapters : List String
  conf : Text
  readError : Option String
  writeError : Option String
  /-- The name of an interface has no line break. -/
  interfaces : ∀ a ∈ adapters, '\n' ∉ a.toList

/-- mirrors apps/ecatd/handlers/AdapterHandler.cpp:158-164 -/
def currentAdapter (h : Host) : String :=
  match h.readError with
  | some _ => ""
  | none => String.ofList (((firstMatch getRe (trim h.conf)).map fun g => captured g 1).getD [])

def adapterOf (params : QJsonObject) : String := trimmed (toStringD (value params "adapter") "")

/-- mirrors apps/ecatd/handlers/AdapterHandler.cpp:38-93 -/
def handleSet (id : String) (params : QJsonObject) (h : Host) : QJsonObject × Host :=
  let adapter := adapterOf params
  if adapter = "" then (failure id "Missing 'adapter' parameter.", h)
  else if adapter ∉ h.adapters then (failure id ("Adapter '" ++ adapter ++ "' not found."), h)
  else
    match h.readError with
    | some error => (failure id ("Cannot read /etc/ethercat.conf: " ++ error), h)
    | none =>
      match h.writeError with
      | some error => (failure id ("Cannot write /etc/ethercat.conf: " ++ error), h)
      | none =>
        (success id (ofList [("adapter", .string adapter),
          ("message", .string ("Adapter set to '" ++ adapter ++ "'. Restart ethercat service to apply."))]),
          { h with conf := updated h.conf adapter.toList })

/-! ## Definitions in a text -/

/-- `\s*` and a character, and what follows them. -/
def gap (x : Char) (s : Text) : Option Text :=
  match s.dropWhile isBlank with
  | [] => none
  | c :: t => if c = x then some t else none

/-- What follows `MASTER0_DEVICE\s*=\s*"`. -/
def opening (s : Text) : Option Text :=
  if key <+: s then (gap '=' (s.drop key.length)).bind (gap '"') else none

variable {β : Type}

theorem run_gap {x : Char} (hx : isBlank x = false) (r : Re) (s : Text) (g : Groups) (k : Cont β) :
    run (.cat (.many isBlank) (.cat (.lit [x]) r)) s g k = (gap x s).bind fun t => run r t g k := by
  have hstop : many isBlank (s.takeWhile isBlank ++ s.dropWhile isBlank)
      (fun s' => run (.cat (.lit [x]) r) s' g k) = run (.cat (.lit [x]) r) (s.dropWhile isBlank) g k := by
    refine many_stop (fun c hc => List.mem_takeWhile_imp hc) (fun c hc => ?_) fun c t hc => ?_
    · exact Strip.head_dropWhile isBlank (Option.mem_def.1 hc)
    · have hne : x ≠ c := by
        rintro rfl
        rw [hx] at hc
        cases hc
      rw [run_cat, run_lit_ne (by simpa using hne)]
  rw [List.takeWhile_append_dropWhile] at hstop
  rw [run_cat]
  refine Eq.trans hstop ?_
  unfold gap
  cases s.dropWhile isBlank with
  | nil => rw [run_cat, run_lit_ne (by simp)]; rfl
  | cons c t =>
    show run (.cat (.lit [x]) r) (c :: t) g k = (if c = x then some t else none).bind fun t => run r t g k
    by_cases h : c = x
    · subst h
      rw [if_pos rfl, Option.bind_some, run_cat]
      exact run_lit
    · rw [if_neg h, run_cat, run_lit_ne (by simpa using Ne.symm h)]
      rfl

theorem run_definition (r : Re) (s : Text) (g : Groups) (k : Cont β) :
    run (definitionRe r) s g k = (opening s).bind fun t => run r t g k := by
  unfold definitionRe opening
  rw [run_cat]
  by_cases h : key <+: s
  · obtain ⟨t, rfl⟩ := h
    rw [run_lit, if_pos (List.prefix_append key t), List.drop_left, run_gap (by decide)]
    cases gap '=' t with
    | none => rfl
    | some t => exact run_gap (by decide) r t g k
  · rw [run_lit_ne h, if_neg h]
    rfl

theorem inValue_of_ne {c : Char} (h : c ≠ '"') : inValue c = true := by simpa [inValue] using h

/-- The value that a text starts with, up to the quote, and what is behind it. -/
def quoted (t : Text) : Option (Text × Text) :=
  if '"' ∈ t then some (t.takeWhile inValue, (t.dropWhile inValue).tail) else none

theorem quoted_append {v : Text} (h : '"' ∉ v) (rest : Text) : quoted (v ++ '"' :: rest) = some (v, rest) := by
  have hall : ∀ c ∈ v, inValue c = true := fun c hc => inValue_of_ne (ne_of_mem_of_not_mem hc h)
  have hquote : inValue '"' = false := rfl
  rw [quoted, if_pos (by simp), List.takeWhile_append_of_pos hall, List.dropWhile_append_of_pos hall,
    List.takeWhile_cons, List.dropWhile_cons, hquote]
  simp

theorem quoted_of_not_mem {t : Text} (h : '"' ∉ t) : quoted t = none := if_neg h

theorem run_lit_quote {s : Text} {g : Groups} {k : Cont β} : run (.lit ['"']) ('"' :: s) g k = k s g := run_lit

/-- `([^"]*)"` -/
theorem run_group_value (t : Text) (g : Groups) (k : Cont β) :
    run (.cat (.group (.many inValue)) (.lit ['"'])) t g k = (quoted t).bind fun r => k r.2 (g ++ [some r.1]) := by
  by_cases h : '"' ∈ t
  · obtain ⟨v, rest, rfl, hv⟩ := List.eq_append_cons_of_mem h
    rw [quoted_append hv, run_cat, run_group]
    refine Eq.trans (many_stop (fun c hc => ?_) (stops_cons rfl rest) fun c s hc => ?_) ?_
    · exact inValue_of_ne (ne_of_mem_of_not_mem hc hv)
    · exact run_lit_ne fun hpre => by simp [inValue, (List.cons_prefix_cons.1 hpre).1.symm] at hc
    · dsimp only
      rw [set_capture]
      exact run_lit_quote
  · rw [quoted_of_not_mem h]
    cases hrun : run (.cat (.group (.many inValue)) (.lit ['"'])) t g k with
    | none => rfl
    | some y =>
      obtain ⟨a, s', caps, rfl, ⟨a₁, a₂, c₁, c₂, rfl, -, -, rfl, -⟩, -⟩ := run_reads hrun
      simp at h

theorem matchStart_get (s : Text) :
    matchStart getRe s = (opening s).bind fun t => (quoted t).map fun r => ([some r.1], r.2) := by
  rw [matchStart, getRe, run_definition]
  refine congrArg _ (funext fun t => ?_)
  rw [run_group_value]
  cases quoted t <;> rfl

/-! ## What is read -/

/-- The value of the first definition that has one. -/
def valueOf : Text → Option Text
  | [] => none
  | c :: s => (((opening (c :: s)).bind quoted).map (·.1)).orElse fun _ => valueOf s

theorem gap_eq_some {x : Char} {s t : Text} (h : gap x s = some t) : x :: t <:+ s := by
  unfold gap at h
  split at h
  · cases h
  · rename_i c u hdrop
    split at h
    · rename_i hc
      cases h
      exact hc ▸ hdrop ▸ List.dropWhile_suffix isBlank
    · cases h

/-- What follows an opening stands behind a quote. -/
theorem opening_eq_some {s t : Text} (h : opening s = some t) : '"' :: t <:+ s := by
  unfold opening at h
  split at h
  · obtain ⟨u, hu, ht⟩ := Option.bind_eq_some_iff.1 h
    have hsub := (List.suffix_cons '=' u).trans (gap_eq_some hu)
    exact ((gap_eq_some ht).trans hsub).trans (List.drop_suffix _ _)
  · cases h

theorem opening_cons_ne {c : Char} (hc : c ≠ 'M') (s : Text) : opening (c :: s) = none := by
  refine if_neg fun h => hc ?_
  exact (List.cons_prefix_cons.1 (show 'M' :: _ <+: c :: s from h)).1.symm

theorem firstMatch_get (s : Text) : firstMatch getRe s = (valueOf s).map fun v => [some v] := by
  induction s with
  | nil => rfl
  | cons c s ih =>
    have hm : matchStart getRe (c :: s) = ((opening (c :: s)).bind quoted).map fun r => ([some r.1], r.2) := by
      rw [matchStart_get]
      cases opening (c :: s) <;> rfl
    rw [valueOf]
    cases ho : (opening (c :: s)).bind quoted with
    | none =>
      rw [ho] at hm
      rw [firstMatch, globalMatch_skip hm]
      exact ih
    | some r =>
      rw [ho] at hm
      exact firstMatch_start (List.cons_ne_nil c s) hm

/-! ### A text that goes on -/

theorem gap_append {x : Char} {b : Text} (hb : ∀ c, (b.dropWhile isBlank).head? = some c → c ≠ x) (s : Text) :
    gap x (s ++ b) = (gap x s).map (· ++ b) := by
  cases hs : s.dropWhile isBlank with
  | nil =>
    have hall := List.dropWhile_eq_nil_iff.1 hs
    rw [gap, gap, hs, List.dropWhile_append_of_pos hall]
    cases hdrop : b.dropWhile isBlank with
    | nil => rfl
    | cons c t => exact if_neg (hb c (by rw [hdrop]; rfl))
  | cons c t =>
    have happ : (s ++ b).dropWhile isBlank = c :: t ++ b := by rw [List.dropWhile_append, hs]; rfl
    rw [gap, gap, hs, happ]
    show (if c = x then some (t ++ b) else none) = (if c = x then some t else none).map (· ++ b)
    split <;> rfl

/-- An opening of a text that goes on with what no opening reads. -/
theorem opening_append {s b : Text} (hkey : key <+: s ++ b → key <+: s)
    (hb : ∀ c, (b.dropWhile isBlank).head? = some c → c ≠ '=' ∧ c ≠ '"') :
    opening (s ++ b) = (opening s).map (· ++ b) := by
  unfold opening
  by_cases h : key <+: s
  · obtain ⟨t, rfl⟩ := h
    rw [if_pos (List.prefix_append key t), List.append_assoc, if_pos (List.prefix_append key _), List.drop_left,
      List.drop_left, gap_append fun c hc => (hb c hc).1]
    cases gap '=' t with
    | none => rfl
    | some u => exact gap_append (fun c hc => (hb c hc).2) u
  · rw [if_neg h, if_neg (mt hkey h)]
    rfl

/-- The key has its first character only once. -/
theorem opening_before_key {s : Text} (hs : s ≠ []) (b : Text) :
    opening (s ++ 'M' :: b) = (opening s).map (· ++ 'M' :: b) := by
  refine opening_append (fun h => ?_) fun c hc => ?_
  · obtain ⟨d, s, rfl⟩ := List.exists_cons_of_ne_nil hs
    have hkey : key = 'M' :: "ASTER0_DEVICE".toList := rfl
    rw [hkey, List.cons_append, List.cons_prefix_cons] at h
    rw [hkey, List.cons_prefix_cons]
    exact ⟨h.1, (prefix_append_avoid (by decide)).1 h.2⟩
  · cases hc
    decide

theorem quoted_fst_append {b : Text} (hb : '"' ∉ b) (t : Text) : (quoted (t ++ b)).map (·.1) = (quoted t).map (·.1) := by
  by_cases h : '"' ∈ t
  · obtain ⟨v, rest, rfl, hv⟩ := List.eq_append_cons_of_mem h
    rw [List.append_assoc, List.cons_append, quoted_append hv, quoted_append hv]
    rfl
  · have hnot : '"' ∉ t ++ b := by simp [h, hb]
    rw [quoted_of_not_mem h, quoted_of_not_mem hnot]

section
variable {b : Text} (hb : ∀ c ∈ b, isSpace c = true)
include hb

theorem not_mem_spaces {x : Char} (hx : isSpace x = false) : x ∉ b := by
  intro h
  rw [hb x h] at hx
  cases hx

theorem valueOf_spaces_append (s : Text) : valueOf (b ++ s) = valueOf s := by
  induction b with
  | nil => rfl
  | cons c b ih =>
    have hc : c ≠ 'M' := by
      rintro rfl
      exact not_mem_spaces hb rfl List.mem_cons_self
    rw [List.cons_append, valueOf, opening_cons_ne hc]
    exact ih fun d hd => hb d (List.mem_cons_of_mem c hd)

theorem opening_append_spaces (s : Text) : opening (s ++ b) = (opening s).map (· ++ b) := by
  refine opening_append (fun h => ?_) fun c hc => ?_
  · cases b with
    | nil => rwa [List.append_nil] at h
    | cons y b =>
      have hink : (key.all fun x => !isSpace x) = true := by rfl
      refine (prefix_append_avoid fun hy => ?_).1 h
      exact not_mem_spaces hb (by simpa using List.all_eq_true.1 hink y hy) List.mem_cons_self
  · have hmem : c ∈ b := (List.dropWhile_suffix _).subset (List.mem_of_mem_head? hc)
    exact ⟨fun h => not_mem_spaces hb rfl (h ▸ hmem), fun h => not_mem_spaces hb rfl (h ▸ hmem)⟩

theorem valueOf_append_spaces (s : Text) : valueOf (s ++ b) = valueOf s := by
  induction s with
  | nil => simpa using valueOf_spaces_append hb []
  | cons c s ih =>
    have ho := opening_append_spaces hb (c :: s)
    rw [List.cons_append] at ho ⊢
    rw [valueOf, valueOf, ho, ih]
    cases opening (c :: s) with
    | none => rfl
    | some t => exact congrArg (Option.orElse · _) (quoted_fst_append (not_mem_spaces hb rfl) t)

end

/-- The ends that `trimmed` takes off are not read. -/
theorem valueOf_trim (s : Text) : valueOf (trim s) = valueOf s := by
  obtain ⟨a, b, hs, ha, hb⟩ := Strip.strip_between isSpace s
  conv_rhs => rw [hs]
  rw [List.append_assoc, valueOf_spaces_append ha, valueOf_append_spaces hb, Strip.trim_eq_strip]

/-! ### A definition behind a text -/

/-- What follows the first opening of a definition. -/
def firstOpening : Text → Option Text
  | [] => none
  | c :: s => (opening (c :: s)).orElse fun _ => firstOpening s

/-- The text is empty or its last line is ended. -/
def Ended (s : Text) : Prop := s = [] ∨ ∃ t, s = t ++ ['\n']

/-- A definition in front is one of the same adapter. -/
def Unshadowed (adapter front : Text) : Prop := ∀ t, firstOpening front = some t → adapter ++ ['"'] <+: t

theorem firstOpening_suffix {s t : Text} (h : firstOpening s = some t) : '"' :: t <:+ s := by
  induction s with
  | nil => cases h
  | cons c s ih =>
    rw [firstOpening] at h
    cases ho : opening (c :: s) with
    | none =>
      rw [ho] at h
      exact (ih h).trans (List.suffix_cons c s)
    | some u =>
      rw [ho] at h
      cases h
      exact opening_eq_some ho

theorem quoted_fst {t v : Text} : (quoted t).map (·.1) = some v ↔ '"' ∉ v ∧ v ++ ['"'] <+: t := by
  constructor
  · intro h
    by_cases hmem : '"' ∈ t
    · obtain ⟨w, rest, rfl, hw⟩ := List.eq_append_cons_of_mem hmem
      rw [quoted_append hw] at h
      cases h
      exact ⟨hw, rest, by simp⟩
    · rw [quoted_of_not_mem hmem] at h
      cases h
  · rintro ⟨hv, rest, rfl⟩
    rw [List.append_assoc, List.singleton_append, quoted_append hv]
    rfl

theorem replacementOf_append (adapter rest : Text) :
    replacementOf adapter ++ rest = key ++ '=' :: '"' :: (adapter ++ '"' :: rest) := by
  simp [replacementOf]

theorem opening_replacement (adapter rest : Text) :
    opening (replacementOf adapter ++ rest) = some (adapter ++ '"' :: rest) := by
  rw [replacementOf_append, opening, if_pos (List.prefix_append key _), List.drop_left]
  rfl

/-- **What is read of a text with a definition in it**: the value of the first opening. -/
theorem valueOf_definition (front adapter rest : Text) :
    valueOf (front ++ (replacementOf adapter ++ rest)) =
      (quoted (((firstOpening front).map (· ++ (replacementOf adapter ++ rest))).getD (adapter ++ '"' :: rest))).map
        (·.1) := by
  have hkey : replacementOf adapter ++ rest =
      'M' :: ("ASTER0_DEVICE".toList ++ '=' :: '"' :: (adapter ++ '"' :: rest)) :=
    replacementOf_append adapter rest
  have hmem : ∀ t, ∃ r, quoted (t ++ (replacementOf adapter ++ rest)) = some r := fun t =>
    ⟨_, if_pos (by simp [replacementOf_append])⟩
  induction front with
  | nil =>
    have ho := opening_replacement adapter rest
    have hq : quoted (adapter ++ '"' :: rest) = some (_, _) := if_pos (by simp)
    rw [List.nil_append, hkey, valueOf, ← hkey, ho]
    show (((quoted (adapter ++ '"' :: rest)).map (·.1)).orElse _) = _
    rw [hq]
    show _ = (quoted (adapter ++ '"' :: rest)).map _
    rw [hq]
    rfl
  | cons c front ih =>
    have ho := opening_before_key (List.cons_ne_nil c front)
      ("ASTER0_DEVICE".toList ++ '=' :: '"' :: (adapter ++ '"' :: rest))
    rw [← hkey] at ho
    rw [List.cons_append, valueOf, ← List.cons_append, ho, firstOpening]
    cases opening (c :: front) with
    | none => exact ih
    | some t =>
      obtain ⟨r, hr⟩ := hmem t
      show ((quoted (t ++ (replacementOf adapter ++ rest))).map (·.1)).orElse _ =
        (quoted (t ++ (replacementOf adapter ++ rest))).map (·.1)
      rw [hr]
      rfl

/-- When the adapter is read back of a definition that starts a line. -/
theorem valueOf_eq_iff {front adapter : Text} (hline : '\n' ∉ adapter) (hfront : Ended front) (rest : Text) :
    valueOf (front ++ (replacementOf adapter ++ rest)) = some adapter ↔ '"' ∉ adapter ∧ Unshadowed adapter front := by
  rw [valueOf_definition, quoted_fst]
  refine and_congr_right fun _ => ?_
  unfold Unshadowed
  cases ho : firstOpening front with
  | none => simp
  | some t =>
    show adapter ++ ['"'] <+: t ++ (replacementOf adapter ++ rest) ↔ ∀ u, some t = some u → adapter ++ ['"'] <+: u
    have hlast : '\n' ∈ t := by
      obtain ⟨x, hx⟩ := firstOpening_suffix ho
      obtain rfl | ⟨y, rfl⟩ := hfront
      · simp at hx
      · have hend := congrArg List.getLast? hx
        rcases List.eq_nil_or_concat t with rfl | ⟨u, d, rfl⟩
        · rw [List.getLast?_concat, List.getLast?_concat] at hend
          exact absurd (Option.some.inj hend) (by decide)
        · rw [List.concat_eq_append, ← List.cons_append, ← List.append_assoc, List.getLast?_concat,
            List.getLast?_concat] at hend
          simp [Option.some.inj hend]
    constructor
    · rintro h u ⟨⟩
      rcases List.prefix_or_prefix_of_prefix h (List.prefix_append t _) with hin | hout
      · exact hin
      · exact absurd (hout.subset hlast) (by simp [hline])
    · intro h
      exact (h t rfl).trans (List.prefix_append t _)

/-! ## What is written -/

def inline (c : Char) : Bool := c == ' ' || c == '\t'

/-- The line assigns the device: no comment, with or without quotes. -/
def assigns (s : Text) : Bool :=
  let line := s.dropWhile inline
  key.isPrefixOf line && ((line.drop key.length).dropWhile inline).head? == some '='

/-- The effective definitions; the first line counts if it starts in front. -/
def assignments : Bool → Text → Nat
  | _, [] => 0
  | lineStart, c :: s => (if (lineStart && assigns (c :: s)) = true then 1 else 0) + assignments (c == '\n') s

theorem dropWhile_stop {p : Char → Bool} {x : Char} (hx : p x = false) (s b : Text) :
    (s ++ x :: b).dropWhile p = s.dropWhile p ++ x :: b := by
  rw [List.dropWhile_append]
  split
  · rename_i hnil
    rw [List.dropWhile_cons_of_neg (by simp [hx]), List.isEmpty_iff.1 hnil, List.nil_append]
  · rfl

/-- A line is looked at up to its end. -/
theorem assigns_line (s b : Text) : assigns (s ++ '\n' :: b) = assigns s := by
  have hkey : key.isPrefixOf (s.dropWhile inline ++ '\n' :: b) = key.isPrefixOf (s.dropWhile inline) := by
    rw [Bool.eq_iff_iff, List.isPrefixOf_iff_prefix, List.isPrefixOf_iff_prefix]
    exact prefix_append_avoid (by decide)
  rw [assigns, assigns, dropWhile_stop rfl, hkey]
  cases hpre : key.isPrefixOf (s.dropWhile inline) with
  | false => rfl
  | true =>
    obtain ⟨t, ht⟩ := List.isPrefixOf_iff_prefix.1 hpre
    rw [← ht, List.append_assoc, List.drop_left, List.drop_left, dropWhile_stop rfl]
    cases t.dropWhile inline <;> rfl

theorem assignments_line (f : Bool) (s b : Text) :
    assignments f (s ++ '\n' :: b) = assignments f s + assignments true b := by
  induction s generalizing f with
  | nil =>
    have hnone : assigns ('\n' :: b) = false := assigns_line [] b
    simp [assignments, hnone]
  | cons c s ih =>
    rw [List.cons_append, assignments, assignments, ih, ← List.cons_append, assigns_line, Nat.add_assoc]

theorem assignments_ended {a : Text} (ha : Ended a) (b : Text) :
    assignments true (a ++ b) = assignments true a + assignments true b := by
  obtain rfl | ⟨t, rfl⟩ := ha
  · exact (Nat.zero_add _).symm
  · rw [List.append_assoc, List.singleton_append, assignments_line, assignments_line]
    rfl

/-- A text without a line break goes on with the line. -/
theorem assignments_same {s : Text} (hs : '\n' ∉ s) (b : Text) : assignments false (s ++ b) = assignments false b := by
  induction s with
  | nil => rfl
  | cons c s ih =>
    rw [List.mem_cons, not_or] at hs
    have hc : (c == '\n') = false := by simpa using Ne.symm hs.1
    rw [List.cons_append, assignments, hc, ih hs.2]
    simp

theorem assignments_replacement {adapter : Text} (hline : '\n' ∉ adapter) (b : Text) :
    assignments true (replacementOf adapter ++ b) = 1 + assignments false b := by
  have hassigns : assigns (replacementOf adapter ++ b) = true := by
    rw [replacementOf_append]
    rfl
  have hrest : '\n' ∉ "ASTER0_DEVICE".toList ++ ['=', '"'] ++ adapter ++ ['"'] := by
    simp [hline]
  have hcons : replacementOf adapter ++ b = 'M' :: ("ASTER0_DEVICE".toList ++ ['=', '"'] ++ adapter ++ ['"'] ++ b) := rfl
  rw [hcons] at hassigns ⊢
  have hbreak : ('M' == '\n') = false := rfl
  rw [assignments, hassigns, hbreak, assignments_same hrest]
  rfl

/-! ### Definitions that are found -/

/-- The text `d` in front of `b` is a definition with a value in quotes. -/
def IsDefinition (d b : Text) : Prop := matchStart setRe (d ++ b) = some ([], b)

theorem length_definition {d b : Text} (h : IsDefinition d b) : key.length ≤ d.length := by
  obtain ⟨a, s', caps, hs, ⟨a₁, a₂, c₁, c₂, rfl, -, ⟨rfl, -⟩, -⟩, hk⟩ := run_reads h
  cases hk
  rw [List.append_cancel_right hs, List.length_append]
  exact Nat.le_add_right _ _

/-- **What is found** stands at the start of a line. -/
theorem search_eq_some {f : Bool} {s a b : Text} (h : search f s = some (a, b)) :
    ∃ d, s = a ++ (d ++ b) ∧ IsDefinition d b ∧ (a = [] ∧ f = true ∨ ∃ t, a = t ++ ['\n']) := by
  induction s generalizing f a b with
  | nil => cases h
  | cons c s ih =>
    rw [search] at h
    split at h
    · rename_i g behind hm
      cases h
      split at hm
      · rename_i hf
        obtain ⟨d, s', caps, hs, hreads, hk⟩ := run_reads hm
        cases hk
        have hnil : caps = [] := List.length_eq_zero_iff.1 hreads.length
        subst hnil
        exact ⟨d, hs, by rw [IsDefinition, ← hs]; exact hm, Or.inl ⟨rfl, hf⟩⟩
      · cases hm
    · obtain ⟨⟨a', b'⟩, hr, hab⟩ := Option.map_eq_some_iff.1 h
      cases hab
      obtain ⟨d, rfl, hd, hstart⟩ := ih hr
      refine ⟨d, rfl, hd, Or.inr ?_⟩
      rcases hstart with ⟨rfl, hc⟩ | ⟨t, rfl⟩
      · exact ⟨[], by rw [beq_iff_eq.1 hc]; rfl⟩
      · exact ⟨c :: t, rfl⟩

/-- A definition that is found is replaced by another one. -/
theorem assignments_replaceFrom {adapter b : Text} {n : Nat} (hline : '\n' ∉ adapter) (hn : n ≠ 0) :
    assignments false (replaceFrom (replacementOf adapter) n false b) = 0 ↔
      search false b = none ∧ assignments false b = 0 := by
  obtain ⟨n, rfl⟩ := Nat.exists_eq_succ_of_ne_zero hn
  rw [replaceFrom]
  cases hs : search false b with
  | none => simp
  | some r =>
    obtain ⟨a, b'⟩ := r
    obtain ⟨d, -, -, ⟨-, hf⟩ | ⟨t, rfl⟩⟩ := search_eq_some hs
    · cases hf
    · have hcount :
          assignments false
            (t ++ ['\n'] ++ replacementOf adapter ++ replaceFrom (replacementOf adapter) n false b') ≠ 0 := by
        rw [List.append_assoc, List.append_assoc, List.singleton_append, assignments_line,
          assignments_replacement hline]
        omega
      exact iff_of_false hcount fun h => by cases h.1

/-! ## The text that is written and read -/

/-- Every line but those of one definition stays as it was. -/
def OthersKept (adapter content new : Text) : Prop :=
  (∃ a d b, content = a ++ (d ++ b) ∧ Ended a ∧ IsDefinition d b ∧ new = a ++ (replacementOf adapter ++ b)) ∨
    new = terminated content ++ (replacementOf adapter ++ ['\n'])

/-- The adapter is set in a file that was `content`. -/
structure IsSet (adapter : String) (content : Text) (h : Host) : Prop where
  readBack : currentAdapter h = adapter
  others : OthersKept adapter.toList content h.conf
  single : assignments true h.conf = 1

/-- The adapter has no quote, no definition in front is one of another adapter, and
there is no definition but the first that is found. -/
def Fits (adapter content : Text) : Prop :=
  '"' ∉ adapter ∧
    match search true content with
    | none => Unshadowed adapter (terminated content) ∧ assignments true content = 0
    | some (front, behind) =>
      Unshadowed adapter front ∧ assignments true front = 0 ∧ search false behind = none ∧ assignments false behind = 0

theorem terminated_ended (content : Text) : Ended (terminated content) := by
  unfold terminated
  split
  · rename_i h
    obtain ⟨t, rfl⟩ := List.getLast?_eq_some_iff.1 h
    exact Or.inr ⟨t, rfl⟩
  · exact Or.inr ⟨content, rfl⟩

theorem assignments_terminated (content : Text) : assignments true (terminated content) = assignments true content := by
  unfold terminated
  split
  · rfl
  · exact assignments_line true content []

theorem updated_of_none {content : Text} (h : search true content = none) (adapter : Text) :
    updated content adapter = terminated content ++ (replacementOf adapter ++ ['\n']) := by
  rw [updated, h, ← List.append_assoc]

/-- The first definition is replaced, and the text behind it looked through. -/
theorem updated_of_some {content a b : Text} (h : search true content = some (a, b)) (adapter : Text) :
    ∃ n, n ≠ 0 ∧ updated content adapter =
      a ++ (replacementOf adapter ++ replaceFrom (replacementOf adapter) n false b) := by
  obtain ⟨d, rfl, hd, -⟩ := search_eq_some h
  have hlength : 14 ≤ d.length := length_definition hd
  obtain ⟨n, hn⟩ : ∃ n, (a ++ (d ++ b)).length = n + 2 := by
    refine ⟨(a ++ (d ++ b)).length - 2, ?_⟩
    simp only [List.length_append]
    omega
  refine ⟨n + 1, Nat.succ_ne_zero n, ?_⟩
  rw [updated, h, hn]
  show replaceFrom _ (n + 2) true _ = _
  rw [replaceFrom, h]
  exact List.append_assoc _ _ _

theorem ended_of_search {content a b : Text} (h : search true content = some (a, b)) : Ended a := by
  obtain ⟨d, -, -, ⟨hnil, -⟩ | hline⟩ := search_eq_some h
  · exact Or.inl hnil
  · exact Or.inr hline

theorem updated_iff {adapter : Text} (hline : '\n' ∉ adapter) (content : Text) :
    (valueOf (updated content adapter) = some adapter ∧ OthersKept adapter content (updated content adapter) ∧
      assignments true (updated content adapter) = 1) ↔ Fits adapter content := by
  unfold Fits
  cases hs : search true content with
  | none =>
    have hended := terminated_ended content
    have hbreak : assignments false ['\n'] = 0 := rfl
    rw [updated_of_none hs, valueOf_eq_iff hline hended, assignments_ended hended, assignments_terminated,
      assignments_replacement hline, hbreak]
    simp [OthersKept, and_assoc]
  | some r =>
    obtain ⟨a, b⟩ := r
    have hended := ended_of_search hs
    obtain ⟨n, hn, hnew⟩ := updated_of_some hs adapter
    have hcount : assignments true a + (1 + assignments false (replaceFrom (replacementOf adapter) n false b)) = 1 ↔
        assignments true a = 0 ∧ search false b = none ∧ assignments false b = 0 := by
      rw [← assignments_replaceFrom hline hn]
      omega
    rw [hnew, valueOf_eq_iff hline hended, assignments_ended hended, assignments_replacement hline, hcount, and_assoc]
    refine and_congr_right fun _ => and_congr_right fun _ => and_iff_right_of_imp fun hfits => ?_
    obtain ⟨d, hcontent, hd, -⟩ := search_eq_some hs
    have hkept : replaceFrom (replacementOf adapter) n false b = b := by
      obtain ⟨n, rfl⟩ := Nat.exists_eq_succ_of_ne_zero hn
      rw [replaceFrom, hfits.2.1]
    exact Or.inl ⟨a, d, b, hcontent, hended, hd, by rw [hkept]⟩

theorem currentAdapter_eq {h : Host} (hread : h.readError = none) {adapter : String} (hne : adapter ≠ "") :
    currentAdapter h = adapter ↔ valueOf h.conf = some adapter.toList := by
  rw [currentAdapter, hread]
  show String.ofList (((firstMatch getRe (trim h.conf)).map fun g => captured g 1).getD []) = adapter ↔ _
  rw [firstMatch_get, valueOf_trim]
  cases valueOf h.conf with
  | none => simpa [eq_comm] using hne
  | some v =>
    show String.ofList v = adapter ↔ some v = some adapter.toList
    rw [Option.some_inj]
    constructor
    · rintro rfl
      exact String.toList_ofList.symm
    · rintro rfl
      exact String.ofList_toList

/-- What a request that is accepted does. -/
theorem handleSet_of_ok {id : String} {params : QJsonObject} {h : Host} (hok : IsOk (handleSet id params h).1) :
    adapterOf params ≠ "" ∧ adapterOf params ∈ h.adapters ∧ h.readError = none ∧
      (handleSet id params h).2 = { h with conf := updated h.conf (adapterOf params).toList } := by
  unfold handleSet at hok ⊢
  by_cases hne : adapterOf params = ""
  · rw [if_pos hne] at hok
    exact absurd hok isOk_failure
  rw [if_neg hne] at hok ⊢
  by_cases hmem : adapterOf params ∉ h.adapters
  · rw [if_pos hmem] at hok
    exact absurd hok isOk_failure
  rw [if_neg hmem] at hok ⊢
  cases hread : h.readError with
  | some error =>
    rw [hread] at hok
    exact absurd hok isOk_failure
  | none =>
    rw [hread] at hok
    cases hwrite : h.writeError with
    | some error =>
      rw [hwrite] at hok
      exact absurd hok isOk_failure
    | none => exact ⟨hne, not_not.1 hmem, rfl, rfl⟩

/-- **When the adapter is set**: it is read back, from the only definition, and no
other line has changed. -/
theorem set_get_iff (id : String) (params : QJsonObject) (h : Host) (hok : IsOk (handleSet id params h).1) :
    IsSet (adapterOf params) h.conf (handleSet id params h).2 ↔ Fits (adapterOf params).toList h.conf := by
  obtain ⟨hne, hmem, hread, hhost⟩ := handleSet_of_ok hok
  rw [← updated_iff (h.interfaces _ hmem), hhost]
  have hback := currentAdapter_eq (h := { h with conf := updated h.conf (adapterOf params).toList }) hread hne
  constructor
  · rintro ⟨hvalue, hothers, hsingle⟩
    exact ⟨hback.1 hvalue, hothers, hsingle⟩
  · rintro ⟨hvalue, hothers, hsingle⟩
    exact ⟨hback.2 hvalue, hothers, hsingle⟩

def plainHost : Host where
  adapters := ["eth1", "eth2"]
  conf := "MASTER0_DEVICE=\"eth0\"\n".toList
  readError := none
  writeError := none
  interfaces := by decide

theorem plain_set :
    IsSet "eth2" plainHost.conf (handleSet "1" (ofList [("adapter", .string "eth2")]) plainHost).2 ↔
      Fits "eth2".toList plainHost.conf :=
  set_get_iff "1" (ofList [("adapter", .string "eth2")]) plainHost isOk_success

/-- A definition that is commented out. -/
def commentHost : Host where
  adapters := ["eth1", "eth2"]
  conf := "#MASTER0_DEVICE=\"eth1\"\nMASTER0_DEVICE=\"eth0\"\n".toList
  readError := none
  writeError := none
  interfaces := by decide

/-- The adapter in the comment is read back. -/
theorem comment_shadows :
    IsOk (handleSet "1" (ofList [("adapter", .string "eth2")]) commentHost).1 ∧
      ¬ IsSet "eth2" commentHost.conf (handleSet "1" (ofList [("adapter", .string "eth2")]) commentHost).2 := by
  have hback : currentAdapter (handleSet "1" (ofList [("adapter", .string "eth2")]) commentHost).2 = "eth1" := by rfl
  refine ⟨isOk_success, fun h => ?_⟩
  have hvalue := hback.symm.trans h.readBack
  exact absurd hvalue (by decide)

end NekoEcat.L2.AdapterConfig
