import NekoEcat.Core.QJson
import NekoEcat.L2Daemon.CliBackend

/-!
# Distributed clocks as the command line shows them (`DcSyncHandler`)

`queryDcStatus` goes over the lines of `ethercat slaves -v`. A header starts the
record of a slave, a marker its block of DC lines, and the lines of the block are
put into the record.

* `header_position`: the position of a header is a number.
* `queryDcStatus_eq`: one record for each header, made of the lines up to the next.
-/
namespace NekoEcat.L2.DcStatus
open NekoEcat.QJson NekoEcat.QNumber NekoEcat.QString NekoEcat.Regex NekoEcat.L2.CliBackend

abbrev Text := List Char

/-- mirrors apps/ecatd/handlers/DcSyncHandler.h:22-31 -/
structure DcSyncSlaveInfo where
  position : Int := -1
  dcCapable : Bool := false
  syncing : Bool := false
  driftNs : Int := 0
  jitterMinNs : Int := 0
  jitterMaxNs : Int := 0
  jitterAvgNs : Int := 0
  refClockName : Text := []
  deriving DecidableEq

/-! ## Expressions -/

def isDec : Char → Bool := isDigitOf 10

def isHex : Char → Bool := isDigitOf 16

/-- `-?\d+` -/
def numberRe : Re := .cat (.alt (.lit ['-']) (.lit [])) (.plus isDec)

/-- `name:\s+(-?\d+)\s+ns` -/
def nsRe (name : Re) : Re := .seq [name, .lit [':'], .plus isBlank, .group numberRe, .plus isBlank, .lit ['n', 's']]

/-- `Alias\s+0x[0-9a-fA-F]+,\s+Position\s+0x([0-9a-fA-F]+)` -/
def headerRe : Re :=
  .seq [.lit "Alias".toList, .plus isBlank, .lit "0x".toList, .plus isHex, .lit [','], .plus isBlank,
    .lit "Position".toList, .plus isBlank, .lit "0x".toList, .group (.plus isHex)]

/-- `^(\d+)\s+\d+:\d+\s+` -/
def shortHeaderRe : Re :=
  .seq [.group (.plus isDec), .plus isBlank, .plus isDec, .lit [':'], .plus isDec, .plus isBlank]

def dcCapableRe : Re := .lit "Distributed Clocks:".toList

def jitterRe : Re := nsRe (.lit "Jitter".toList)

def driftRe : Re := nsRe (.alt (.lit "Drift".toList) (.lit "Offset".toList))

def refClkRe : Re := .lit "Reference Clock".toList

def sysTimeRe : Re := nsRe (.lit "System Time".toList)

/-- `\+\s+(\S+)$`, without the end -/
def nameRe : Re := .seq [.lit ['+'], .plus isBlank, .group (.plus fun c => !isBlank c)]

/-- A match that ends where the text does. -/
def matchToEnd (r : Re) (s : Text) : Option Groups := run r s [] fun s' g => if s' = [] then some g else none

def hasMatch (r : Re) (line : Text) : Bool := (firstMatch r line).isSome

/-- `captured(1).toLongLong()` -/
def toLongLong (cs : Text) : Int := (toSigned 64 10 cs).getD 0

/-! ## The lines -/

/-- The record that a header starts, long or short. -/
def header (line : Text) : Option DcSyncSlaveInfo :=
  match firstMatch headerRe line with
  | some g => some { position := (toInt 16 (captured g 1)).getD 0 }
  | none =>
    (matchStart shortHeaderRe line).map fun m =>
      { position := (toInt 10 (captured m.1 1)).getD 0
        refClockName := ((line.tails.findSome? (matchToEnd nameRe)).map (captured · 1)).getD [] }

/-- A number of 64 bits. -/
def wrap64 (n : Int) : Int := (n + 2 ^ 63) % 2 ^ 64 - 2 ^ 63

/-- mirrors apps/ecatd/handlers/DcSyncHandler.cpp:201-208 -/
def addJitter (current : DcSyncSlaveInfo) (val : Int) : DcSyncSlaveInfo :=
  let r :=
    if current.jitterMinNs = 0 ∧ current.jitterMaxNs = 0 then (val, val)
    else (min current.jitterMinNs val, max current.jitterMaxNs val)
  { current with jitterMinNs := r.1, jitterMaxNs := r.2, jitterAvgNs := (wrap64 (r.1 + r.2)).tdiv 2 }

/-- The jitter of a line.
mirrors apps/ecatd/handlers/DcSyncHandler.cpp:198-209 -/
def addJitterOf (current : DcSyncSlaveInfo) (line : Text) : DcSyncSlaveInfo :=
  match firstMatch jitterRe line with
  | some g => addJitter current (toLongLong (captured g 1))
  | none => current

/-- mirrors apps/ecatd/handlers/DcSyncHandler.cpp:197-221 -/
def addValues (current : DcSyncSlaveInfo) (line : Text) : DcSyncSlaveInfo :=
  let current := addJitterOf current line
  let current := match firstMatch driftRe line with
    | some g => { current with driftNs := toLongLong (captured g 1) }
    | none => current
  let current := if hasMatch refClkRe line then { current with syncing := true } else current
  match firstMatch sysTimeRe line with
  | some g => if toLongLong (captured g 1) ≠ 0 then { current with syncing := true } else current
  | none => current

/-- A line that is no header. -/
def detail (s : DcSyncSlaveInfo × Bool) (line : Text) : DcSyncSlaveInfo × Bool :=
  if hasMatch dcCapableRe line then ({ s.1 with dcCapable := true }, true)
  else if s.2 then (addValues s.1 line, true)
  else s

/-- What the loop carries from line to line. -/
structure Listing where
  result : List DcSyncSlaveInfo := []
  current : DcSyncSlaveInfo := {}
  inDcBlock : Bool := false

/-- The records with the one in work. -/
def Listing.flush (s : Listing) : List DcSyncSlaveInfo :=
  if 0 ≤ s.current.position then s.result ++ [s.current] else s.result

def step (s : Listing) (line : Text) : Listing :=
  match header line with
  | some info => ⟨s.flush, info, false⟩
  | none =>
    let r := detail (s.current, s.inDcBlock) line
    ⟨s.result, r.1, r.2⟩

def lines (text : Text) : List Text := (text.splitOn '\n').filter (· ≠ [])

/-- mirrors apps/ecatd/handlers/DcSyncHandler.cpp:128-229 -/
def queryDcStatus (slaveVerboseOutput : Text) : List DcSyncSlaveInfo :=
  if slaveVerboseOutput = [] then [] else ((lines slaveVerboseOutput).foldl step {}).flush

/-- `DC reference clock:\s*Slave\s+(\d+)` -/
def dcRefRe : Re :=
  .seq [.lit "DC reference clock:".toList, .many isBlank, .lit "Slave".toList, .plus isBlank, .group (.plus isDec)]

/-- `Slave\s+(\d+)\b.*reference clock`; what follows the digits and is no word
character is the first of `.*`. -/
def slaveRefRe : Re :=
  .seq [.lit "Slave".toList, .plus isBlank, .group (.plus isDec),
    .char (fun c => !(c.isAlphanum || c == '_') && c != '\n'), .many (· != '\n'), .lit "reference clock".toList]

/-- mirrors apps/ecatd/handlers/DcSyncHandler.cpp:233-252 -/
def detectRefClock (masterOutput : Text) : Int :=
  if masterOutput = [] then -1
  else match firstMatch dcRefRe masterOutput with
    | some g => (toInt 10 (captured g 1)).getD 0
    | none =>
      match firstMatch slaveRefRe masterOutput with
      | some g => (toInt 10 (captured g 1)).getD 0
      | none => -1

/-- mirrors apps/ecatd/handlers/DcSyncHandler.cpp:256-269 -/
def slaveInfoToJson (info : DcSyncSlaveInfo) : QJsonObject :=
  let obj := ofList [("pos", .int info.position), ("dcCapable", .bool info.dcCapable), ("syncing", .bool info.syncing),
    ("driftNs", .int info.driftNs), ("jitterMinNs", .int info.jitterMinNs), ("jitterMaxNs", .int info.jitterMaxNs),
    ("jitterAvgNs", .int info.jitterAvgNs)]
  if info.refClockName ≠ [] then QJson.insert "refClockName" (.string (String.ofList info.refClockName)) obj else obj

/-! ## Headers and what follows them -/

/-- The record of a header, and the lines up to the next. -/
structure Section where
  info : DcSyncSlaveInfo
  body : List Text

/-- The lines before the first header, and the sections. -/
def sections : List Text → List Text × List Section
  | [] => ([], [])
  | line :: rest =>
    let r := sections rest
    match header line with
    | some info => ([], ⟨info, r.1⟩ :: r.2)
    | none => (line :: r.1, r.2)

/-- The record of a section. -/
def record (sec : Section) : DcSyncSlaveInfo := (sec.body.foldl detail (sec.info, false)).1

theorem captured_header {line : Text} {g : Groups} (h : firstMatch headerRe line = some g) : ∀ c ∈ captured g 1, isHex c = true := by
  obtain ⟨a, -, hreads⟩ := firstMatch_reads h
  obtain ⟨_, _, -, -, h₁⟩ := reads_cat_plain rfl hreads
  obtain ⟨_, _, -, -, h₂⟩ := reads_cat_plain rfl h₁
  obtain ⟨_, _, -, -, h₃⟩ := reads_cat_plain rfl h₂
  obtain ⟨_, _, -, -, h₄⟩ := reads_cat_plain rfl h₃
  obtain ⟨_, _, -, -, h₅⟩ := reads_cat_plain rfl h₄
  obtain ⟨_, _, -, -, h₆⟩ := reads_cat_plain rfl h₅
  obtain ⟨_, _, -, -, h₇⟩ := reads_cat_plain rfl h₆
  obtain ⟨_, _, -, -, h₈⟩ := reads_cat_plain rfl h₇
  obtain ⟨_, _, -, -, h₉⟩ := reads_cat_plain rfl h₈
  obtain ⟨t, _, _, rfl, ht⟩ := reads_cat_group h₉
  exact (reads_plus ht).2.1

theorem captured_shortHeader {line : Text} {m : Groups × Text} (h : matchStart shortHeaderRe line = some m) :
    ∀ c ∈ captured m.1 1, isDec c = true := by
  obtain ⟨a, s', caps, -, hreads, hk⟩ := run_reads h
  cases hk
  obtain ⟨t, _, _, rfl, ht⟩ := reads_cat_group hreads
  exact (reads_plus ht).2.1

/-- What a line prints is a number. -/
theorem integer_captured {name : Re} (hname : name.groups = 0) {line : Text} {g : Groups}
    (h : firstMatch (nsRe name) line = some g) : ∃ v, integer 10 (captured g 1) = some v := by
  obtain ⟨a, -, hreads⟩ := firstMatch_reads h
  obtain ⟨_, _, -, -, h₁⟩ := reads_cat_plain hname hreads
  obtain ⟨_, _, -, -, h₂⟩ := reads_cat_plain rfl h₁
  obtain ⟨_, _, -, -, h₃⟩ := reads_cat_plain rfl h₂
  obtain ⟨t, _, _, rfl, ht⟩ := reads_cat_group h₃
  obtain ⟨sign, ds, rfl, hsign, hds⟩ := reads_cat_plain rfl ht
  obtain ⟨hne, hdigits, -⟩ := reads_plus hds
  have hspace : ∀ c ∈ ds, isSpace c = false := fun c hc => by
    have hdigit := isDigitOf_iff.1 (hdigits c hc)
    exact not_isSpace_of_digitVal (by omega)
  have hvalue := magnitude_digits (by decide) hne hdigits
  rcases hsign with ⟨_, ⟨rfl, -⟩, -⟩ | ⟨_, ⟨rfl, -⟩, -⟩
  · have htrim : trim ('-' :: ds) = '-' :: ds := by
      refine trim_of_not_space fun c hc => ?_
      rcases List.mem_cons.1 hc with rfl | hc
      · rfl
      · exact hspace c hc
    change ∃ v, integer 10 ('-' :: ds) = some v
    simp only [integer, htrim, hvalue, Option.map_some]
    exact ⟨_, rfl⟩
  · change ∃ v, integer 10 ds = some v
    unfold integer
    rw [trim_of_not_space hspace]
    split
    · exact absurd (hdigits '-' List.mem_cons_self) (by decide)
    · rw [skipPlus_of_digits (by decide) hdigits, hvalue]
      exact ⟨_, rfl⟩

theorem toInt_nonneg {base : Nat} (hb : base ≤ 16) {t : Text} (h : ∀ c ∈ t, isDigitOf base c = true) :
    0 ≤ (toInt base t).getD 0 := by
  by_cases hne : t = []
  · subst hne
    have hnone : toInt base [] = none := rfl
    rw [hnone]
    exact Int.le_refl 0
  · rw [toInt, toSigned_digits hb hne h]
    split
    · exact Int.natCast_nonneg _
    · exact Int.le_refl 0

theorem header_position {line : Text} {info : DcSyncSlaveInfo} (h : header line = some info) : 0 ≤ info.position := by
  unfold header at h
  split at h
  · rename_i g hg
    cases h
    exact toInt_nonneg (by decide) (captured_header hg)
  · obtain ⟨m, hm, rfl⟩ := Option.map_eq_some_iff.1 h
    exact toInt_nonneg (by decide) (captured_shortHeader hm)

/-- The other values of a line are the drift and whether the slave syncs. -/
theorem addValues_eq (current : DcSyncSlaveInfo) (line : Text) :
    ∃ driftNs syncing, addValues current line = { addJitterOf current line with driftNs := driftNs, syncing := syncing } := by
  unfold addValues
  generalize addJitterOf current line = current
  cases firstMatch driftRe line <;> cases hasMatch refClkRe line <;> cases firstMatch sysTimeRe line
  all_goals
    simp only [Bool.false_eq_true, if_false, if_true]
    first
    | exact ⟨_, _, rfl⟩
    | (split <;> exact ⟨_, _, rfl⟩)

theorem addJitterOf_position (current : DcSyncSlaveInfo) (line : Text) :
    (addJitterOf current line).position = current.position := by
  unfold addJitterOf
  split <;> rfl

theorem detail_position (s : DcSyncSlaveInfo × Bool) (line : Text) : (detail s line).1.position = s.1.position := by
  unfold detail
  split
  · rfl
  · split
    · obtain ⟨driftNs, syncing, heq⟩ := addValues_eq s.1 line
      rw [heq]
      exact addJitterOf_position s.1 line
    · rfl

theorem foldl_detail_position (body : List Text) (s : DcSyncSlaveInfo × Bool) :
    (body.foldl detail s).1.position = s.1.position := by
  induction body generalizing s with
  | nil => rfl
  | cons line body ih => rw [List.foldl_cons, ih, detail_position]

/-- The position of a record is that of its header. -/
theorem record_position (sec : Section) : (record sec).position = sec.info.position := foldl_detail_position sec.body _

section
variable {line : Text} (ls : List Text) (s : Listing)

theorem sections_header {info : DcSyncSlaveInfo} (h : header line = some info) :
    sections (line :: ls) = ([], ⟨info, (sections ls).1⟩ :: (sections ls).2) := by
  simp only [sections, h]

theorem sections_detail (h : header line = none) : sections (line :: ls) = (line :: (sections ls).1, (sections ls).2) := by
  simp only [sections, h]

theorem step_header {info : DcSyncSlaveInfo} (h : header line = some info) : step s line = ⟨s.flush, info, false⟩ := by
  simp only [step, h]

theorem step_detail (h : header line = none) :
    step s line = ⟨s.result, (detail (s.current, s.inDcBlock) line).1, (detail (s.current, s.inDcBlock) line).2⟩ := by
  simp only [step, h]

end

theorem foldl_step (ls : List Text) (s : Listing) :
    (ls.foldl step s).flush =
      (⟨s.result, ((sections ls).1.foldl detail (s.current, s.inDcBlock)).1, false⟩ : Listing).flush ++
        (sections ls).2.map record := by
  induction ls generalizing s with
  | nil =>
    simp only [sections, List.foldl_nil, List.map_nil, List.append_nil]
    rfl
  | cons line ls ih =>
    rw [List.foldl_cons, ih]
    cases hheader : header line with
    | none =>
      rw [sections_detail ls hheader, step_detail s hheader]
      rfl
    | some info =>
      have hrecord : 0 ≤ (record ⟨info, (sections ls).1⟩).position := by
        rw [record_position]
        exact header_position hheader
      have hflush : (⟨s.flush, ((sections ls).1.foldl detail (info, false)).1, false⟩ : Listing).flush =
          s.flush ++ [record ⟨info, (sections ls).1⟩] := if_pos hrecord
      rw [sections_header ls hheader, step_header s hheader]
      simp only [List.foldl_nil, List.map_cons]
      rw [hflush, List.append_assoc]
      rfl

/-- **One record for each header**, made of the lines up to the next. -/
theorem queryDcStatus_eq (text : Text) : queryDcStatus text = (sections (lines text)).2.map record := by
  by_cases htext : text = []
  · subst htext
    rfl
  · have hprelude : (((sections (lines text)).1.foldl detail ({}, false)).1).position = -1 := foldl_detail_position _ _
    rw [queryDcStatus, if_neg htext, foldl_step]
    change (if 0 ≤ (((sections (lines text)).1.foldl detail ({}, false)).1).position then _ else []) ++ _ = _
    rw [hprelude, if_neg (by decide)]
    rfl

end NekoEcat.L2.DcStatus
