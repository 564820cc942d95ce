import NekoEcat.Core.QArg
import NekoEcat.L2Daemon.CliAnswers

/-!
# What the EoE handlers answer when commands fail

`readEoeSdo` takes an error text from before for one of its own, and a series of
uploads shares the text: behind an upload that fails, no upload has a value.
`handleEoeConfigureIp` checks and reports the address and the subnet mask; what
becomes of the gateway and the DNS server is not looked at.

* `series_failed`: nothing is read behind an error.
* `own_value_iff`: when every field is that of its own upload.
* `honest_iff`: when a success means that all was written.
-/
namespace NekoEcat.L2.EoeAnswers
open NekoEcat.Commands NekoEcat.QJson NekoEcat.QNumber NekoEcat.QString NekoEcat.L2.CliBackend NekoEcat.L2.Handlers
  NekoEcat.L2.CliAnswers
open NekoEcat.L2.FoE (success failure)

abbrev Env := List Line → Line → Outcome

/-! ## One upload -/

/-- What an upload reads, with no error before it. -/
def reading (o : Outcome) : Option Nat :=
  if (finished o).queryError.getD "" = "" then toUInt 10 (trimmed (finished o).text).toList else none

/-- The upload succeeded, with the value `v`. -/
def Reads (o : Outcome) (v : Nat) : Prop := Succeeded o ∧ toUInt 10 (trimmed (finished o).text).toList = some v

theorem reading_iff {o : Outcome} {v : Nat} : reading o = some v ↔ Reads o v := by
  unfold reading
  constructor
  · intro h
    split at h
    · rename_i he
      rcases queryError_iff.1 he with hok | ⟨exitCode, stdErr, rfl, hcode, -⟩
      · exact ⟨hok, h⟩
      · have hnone : toUInt 10 (trimmed "").toList = none := by decide
        exact absurd (hnone.symm.trans h) (by simp)
    · cases h
  · rintro ⟨hok, hv⟩
    rw [if_pos (queryError_iff.2 (.inl hok)), hv]

def uploadLine (params : QJsonObject) (subIndex : String) : Line :=
  scopedArguments (requestedMaster params) (uploadArgs (soePosition params) "0x8000" subIndex "uint32")

/-- What `readEoeSdo` makes of a text behind the error text `error`. -/
def parsed (text error : String) : Option Nat × String :=
  if error ≠ "" then (none, error)
  else
    match toUInt 10 text.toList with
    | some val => (some val, error)
    | none => (none, arg "Failed to parse SDO value: '%1'" text)

theorem parsed_failed (text : String) {error : String} (h : error ≠ "") : parsed text error = (none, error) := if_pos h

theorem parsed_clean (text : String) :
    (parsed text "").1 = toUInt 10 text.toList ∧ ((parsed text "").2 = "" ↔ (toUInt 10 text.toList).isSome) := by
  have hmessage : arg "Failed to parse SDO value: '%1'" text ≠ "" := by
    intro h
    have hlist := congrArg String.toList h
    simp [arg, markers, marker, digit, replace] at hlist
  unfold parsed
  cases toUInt 10 text.toList with
  | none => simp [hmessage]
  | some v => simp

def readFrom (error : String) (o : Outcome) : Option Nat × String :=
  parsed (trimmed (finished o).text) ((finished o).queryError.getD error)

theorem readEoeSdo_eq (params : QJsonObject) (subIndex error : String) :
    readEoeSdo (requestedMaster params) (soePosition params) "0x8000" subIndex error =
      .call (uploadLine params subIndex) fun o => .done (readFrom error o) := by
  have hupload : upload (requestedMaster params) (soePosition params) "0x8000" subIndex "uint32" =
      .call (uploadLine params subIndex) fun o => .done (trimmed (finished o).text, (finished o).queryError) := rfl
  unfold readEoeSdo
  rw [hupload, Prog.bind_eq, Prog.call_bind]
  refine congrArg (Prog.call _) (funext fun o => ?_)
  rw [Prog.done_bind]
  unfold readFrom parsed
  refine (Prog.pure_eq _).trans ?_
  generalize toUInt 10 (trimmed (finished o).text).toList = val
  cases val <;> rfl

theorem readFrom_clean (o : Outcome) :
    (readFrom "" o).1 = reading o ∧ ((readFrom "" o).2 = "" ↔ (reading o).isSome) := by
  unfold readFrom reading
  split
  · rename_i he
    rw [he]
    exact parsed_clean _
  · rename_i he
    rw [parsed_failed _ he]
    exact ⟨rfl, iff_of_false he (by simp)⟩

/-- Behind an error nothing is read, and there is an error again. -/
theorem readFrom_failed {error : String} (h : error ≠ "") (o : Outcome) :
    (readFrom error o).1 = none ∧ (readFrom error o).2 ≠ "" := by
  cases hq : (finished o).queryError with
  | none =>
    rw [readFrom, hq, Option.getD_none, parsed_failed _ h]
    exact ⟨rfl, h⟩
  | some e =>
    -- the error of a silent failure is empty, and so is its text
    have hsame : readFrom error o = readFrom "" o := by rw [readFrom, readFrom, hq, Option.getD_some, Option.getD_some]
    have hreading : reading o = none := by
      cases hr : reading o with
      | none => rfl
      | some v =>
        have hok := exitCode_iff.2 (reading_iff.1 hr).1
        rw [RunResult.queryError, if_neg (not_not.2 hok)] at hq
        cases hq
    obtain ⟨hvalue, herror⟩ := readFrom_clean o
    rw [hreading] at hvalue herror
    rw [hsame]
    exact ⟨hvalue, fun h => by simpa using herror.1 h⟩

/-- The values of uploads one after the other. -/
def series : String → List Outcome → List (Option Nat)
  | _, [] => []
  | error, o :: os => (readFrom error o).1 :: series (readFrom error o).2 os

theorem series_failed {error : String} (h : error ≠ "") (os : List Outcome) :
    series error os = os.map fun _ => none := by
  induction os generalizing error with
  | nil => rfl
  | cons o os ih =>
    obtain ⟨hvalue, herror⟩ := readFrom_failed h o
    rw [series, hvalue, ih herror, List.map_cons]

/-- An upload has a value, not 0, behind one that has none. -/
def Hidden (os : List Outcome) : Prop :=
  ∃ (i j : Nat) (o o' : Outcome) (v : Nat), i < j ∧ os[i]? = some o ∧ os[j]? = some o' ∧ reading o = none ∧
    Reads o' v ∧ v ≠ 0

theorem hidden_read {o : Outcome} {v : Nat} (h : reading o = some v) (os : List Outcome) :
    Hidden (o :: os) ↔ Hidden os := by
  constructor
  · rintro ⟨i, j, oi, oj, w, hlt, hi, hj, hnone, hread, hne⟩
    cases i with
    | zero =>
      obtain rfl : o = oi := by simpa using hi
      rw [h] at hnone
      cases hnone
    | succ i =>
      cases j with
      | zero => omega
      | succ j => exact ⟨i, j, oi, oj, w, Nat.lt_of_succ_lt_succ hlt, hi, hj, hnone, hread, hne⟩
  · rintro ⟨i, j, oi, oj, w, hlt, hi, hj, hnone, hread, hne⟩
    exact ⟨i + 1, j + 1, oi, oj, w, Nat.succ_lt_succ hlt, hi, hj, hnone, hread, hne⟩

theorem hidden_failed {o : Outcome} (h : reading o = none) (os : List Outcome) :
    Hidden (o :: os) ↔ ∃ (j : Nat) (o' : Outcome) (v : Nat), os[j]? = some o' ∧ Reads o' v ∧ v ≠ 0 := by
  constructor
  · rintro ⟨i, j, oi, oj, w, hlt, -, hj, -, hread, hne⟩
    cases j with
    | zero => omega
    | succ j => exact ⟨j, oj, w, hj, hread, hne⟩
  · rintro ⟨j, oj, w, hj, hread, hne⟩
    exact ⟨0, j + 1, o, oj, w, Nat.succ_pos j, rfl, hj, h, hread, hne⟩

/-- **Every upload of a series has its own value** unless one is hidden. -/
theorem series_iff (os : List Outcome) :
    (∀ (i : Nat) (o : Outcome) (v : Nat), os[i]? = some o → Reads o v → ((series "" os)[i]?.join).getD 0 = v) ↔
      ¬ Hidden os := by
  induction os with
  | nil => simp [Hidden]
  | cons o os ih =>
    obtain ⟨hvalue, herror⟩ := readFrom_clean o
    rw [series, hvalue]
    cases hr : reading o with
    | some v =>
      rw [herror.2 (by rw [hr]; rfl), hidden_read hr, ← ih]
      constructor
      · intro h i oi w hi
        exact h (i + 1) oi w hi
      · intro h i oi w hi hread
        cases i with
        | zero =>
          obtain rfl : o = oi := by simpa using hi
          rw [reading_iff.2 hread] at hr
          cases hr
          rfl
        | succ i => exact h i oi w hi hread
    | none =>
      have hne : (readFrom "" o).2 ≠ "" := fun h => by simpa [hr] using herror.1 h
      have hzero (i : Nat) : ((os.map fun _ => (none : Option Nat))[i]?.join).getD 0 = 0 := by
        rw [List.getElem?_map]
        cases os[i]? <;> rfl
      rw [series_failed hne, hidden_failed hr]
      constructor
      · rintro h ⟨j, oj, w, hj, hread, hw⟩
        exact hw ((h (j + 1) oj w hj hread).symm.trans (hzero j))
      · intro h i oi w hi hread
        cases i with
        | zero =>
          obtain rfl : o = oi := by simpa using hi
          rw [reading_iff.2 hread] at hr
          cases hr
        | succ i =>
          by_contra hw
          exact h ⟨i, oi, w, hi, hread, fun hw0 => hw ((hzero i).trans hw0.symm)⟩

/-! ## The two queries -/

inductive Query where
  | getIp
  | stats

def Query.handler : Query → Handler
  | .getIp => handleEoeGetIp
  | .stats => handleEoeStats

/-- The fields of the answer, with the subindex that each is read from. -/
def Query.fields : Query → List (String × String)
  | .getIp => [("ip", "0x01"), ("subnet", "0x02"), ("gateway", "0x03"), ("dns", "0x04")]
  | .stats => [("txFrames", "0x10"), ("rxFrames", "0x11"), ("txErrors", "0x12"), ("rxErrors", "0x13")]

def Query.shown : Query → Nat → QJsonValue
  | .getIp => fun v => .string (formatIp v)
  | .stats => fun v => .int v

def Query.lines (q : Query) (params : QJsonObject) : List Line := q.fields.map fun f => uploadLine params f.2

/-- In an answer that is a success every field is the value of its own upload, if that succeeded. -/
def Independent (q : Query) (id : String) (params : QJsonObject) (env : Env) (h : List Line) : Prop :=
  let r := (q.handler id params).run env h
  IsOk r.1 → ∀ (i : Nat) (key subIndex : String), q.fields[i]? = some (key, subIndex) →
    r.2[i]? = some (uploadLine params subIndex) ∧
      ∀ (o : Outcome) (v : Nat), (Prog.answers env h r.2)[i]? = some o → Reads o v → value (result r.1) key = q.shown v

/-- How the uploads end, if all of them are run. -/
def Query.outcomes (q : Query) (params : QJsonObject) (env : Env) (h : List Line) : List Outcome :=
  Prog.answers env h (q.lines params)

def octets (v : Nat) : List Nat := [v % 256, v / 256 % 256, v / 65536 % 256, v / 16777216 % 256]

theorem formatIp_toList (v : Nat) : (formatIp v).toList = ['.'].intercalate ((octets v).map (Nat.toDigits 10)) := by
  simp [formatIp, number, octets, QJson.intText, List.intercalate, List.intersperse]
  rfl

theorem splitOn_formatIp (v : Nat) : (formatIp v).toList.splitOn '.' = (octets v).map (Nat.toDigits 10) := by
  rw [formatIp_toList, List.splitOn_intercalate]
  · intro cs hcs hdot
    obtain ⟨n, -, rfl⟩ := List.mem_map.1 hcs
    exact absurd (isDigitOf_toDigits (by decide) (by decide) _ hdot) (by decide)
  · exact List.cons_ne_nil _ _

theorem formatIp_injective {v w : Nat} (hv : v < 2 ^ 32) (hw : w < 2 ^ 32) (h : formatIp v = formatIp w) : v = w := by
  have hdigits : (octets v).map (Nat.toDigits 10) = (octets w).map (Nat.toDigits 10) := by
    rw [← splitOn_formatIp, h, splitOn_formatIp]
  have hsame : octets v = octets w := List.map_injective_iff.2 (fun a b hab => by
    rw [← ofDigits_toDigits (by decide : 1 < 10) (by decide) a, hab, ofDigits_toDigits (by decide) (by decide)]) hdigits
  simp only [octets, List.cons.injEq, and_true] at hsame
  omega

theorem shown_injective (q : Query) {v w : Nat} (hv : v < 2 ^ 32) (hw : w < 2 ^ 32) (h : q.shown v = q.shown w) :
    v = w := by
  cases q with
  | getIp => exact formatIp_injective hv hw (QJsonValue.string.inj h)
  | stats => exact Int.ofNat.inj (QJsonValue.int.inj h)

theorem reads_lt {o : Outcome} {v : Nat} (h : Reads o v) : v < 2 ^ 32 := (toUnsigned_eq_some.1 h.2).2

/-- The answer to a query whose first field was read. -/
def Query.answer (q : Query) (id : String) (params : QJsonObject) (values : List (Option Nat)) : QJsonObject :=
  success id (ofList ((q.fields.zip values).map (fun f => (f.1.1, q.shown (f.2.getD 0))) ++
    [("position", .int (soePosition params))]))

theorem stats_eq {id : String} {params : QJsonObject} (hpos : ¬ soePosition params < 0) (env : Env)
    (h : List Line) : (handleEoeStats id params).run env h =
      (Query.stats.answer id params (series "" (Query.stats.outcomes params env h)), Query.stats.lines params) := by
  unfold handleEoeStats
  simp only [if_neg hpos, readEoeSdo_eq, Prog.bind_eq, Prog.call_bind, Prog.done_bind, Prog.run_call, Prog.pure_eq,
    Prog.run_done]
  rfl

section
variable (id : String) {params : QJsonObject} (hpos : ¬ soePosition params < 0) {env : Env} {h : List Line}

include hpos

theorem getIp_failed (hnone : reading (env h (uploadLine params "0x01")) = none) :
    ∃ message, (handleEoeGetIp id params).run env h = (failure id message, [uploadLine params "0x01"]) := by
  have hread := (readFrom_clean (env h (uploadLine params "0x01"))).1
  rw [hnone] at hread
  refine ⟨arg "Failed to read IP: %1" (readFrom "" (env h (uploadLine params "0x01"))).2, ?_⟩
  unfold handleEoeGetIp
  simp only [if_neg hpos, readEoeSdo_eq, Prog.bind_eq, Prog.call_bind, Prog.done_bind, Prog.run_call, hread, Prog.pure_eq,
    Prog.run_done]

theorem getIp_eq (hsome : reading (env h (uploadLine params "0x01")) ≠ none) : (handleEoeGetIp id params).run env h =
    (Query.getIp.answer id params (series "" (Query.getIp.outcomes params env h)), Query.getIp.lines params) := by
  obtain ⟨v, hv⟩ := Option.ne_none_iff_exists'.1 hsome
  have hread := (readFrom_clean (env h (uploadLine params "0x01"))).1
  rw [hv] at hread
  unfold handleEoeGetIp
  simp only [if_neg hpos, readEoeSdo_eq, Prog.bind_eq, Prog.call_bind, Prog.done_bind, Prog.run_call, hread, Prog.pure_eq,
    Prog.run_done]
  simp only [Query.outcomes, Query.lines, Query.fields, List.map_cons, List.map_nil, Prog.answers, series, hread]
  rfl

end

theorem value_answer (q : Query) (id : String) (params : QJsonObject) {values : List (Option Nat)}
    (hlength : values.length = 4) {i : Nat} {key subIndex : String} (hi : q.fields[i]? = some (key, subIndex)) :
    value (result (q.answer id params values)) key = q.shown ((values[i]?.join).getD 0) := by
  obtain ⟨a, b, c, d, rfl⟩ : ∃ a b c d, values = [a, b, c, d] := by
    rcases values with _ | ⟨a, _ | ⟨b, _ | ⟨c, _ | ⟨d, _ | ⟨e, values⟩⟩⟩⟩⟩ <;> simp at hlength
    exact ⟨a, b, c, d, rfl⟩
  have hvalue {k : String} {w : QJsonValue} {fields : List (String × QJsonValue)} (hk : value (ofList fields) k = w) :
      value (result (success id (ofList fields))) k = w := by rw [result_success, hk]
  cases q <;> rcases i with _ | _ | _ | _ | i <;> cases hi <;> refine hvalue ?_ <;>
    simp [Query.fields, Query.shown, ofList, value_insert]

theorem series_length (error : String) (os : List Outcome) : (series error os).length = os.length := by
  induction os generalizing error with
  | nil => rfl
  | cons o os ih => rw [series, List.length_cons, ih, List.length_cons]

theorem series_lt (error : String) (os : List Outcome) : ∀ v ∈ series error os, v.getD 0 < 2 ^ 32 := by
  induction os generalizing error with
  | nil => exact fun v hv => nomatch hv
  | cons o os ih =>
    intro v hv
    rcases List.mem_cons.1 hv with rfl | hv
    · unfold readFrom parsed
      split
      · exact Nat.two_pow_pos 32
      · split
        · rename_i w hw
          exact (toUnsigned_eq_some.1 hw).2
        · exact Nat.two_pow_pos 32
    · exact ih _ v hv

section
variable (q : Query) (id : String) (params : QJsonObject) (env : Env) (h : List Line)

theorem outcomes_length : (q.outcomes params env h).length = 4 := by
  rw [Query.outcomes, Prog.length_answers]
  cases q <;> rfl

/-- A query that runs all its uploads. -/
theorem answered_iff (hrun : (q.handler id params).run env h =
    (q.answer id params (series "" (q.outcomes params env h)), q.lines params)) :
    Independent q id params env h ↔ ¬ Hidden (q.outcomes params env h) := by
  have hlength : (series "" (q.outcomes params env h)).length = 4 := by rw [series_length, outcomes_length]
  have hshown {i : Nat} {key subIndex : String} (hi : q.fields[i]? = some (key, subIndex)) :=
    value_answer q id params hlength hi
  unfold Independent
  simp only [hrun]
  rw [← series_iff]
  constructor
  · intro hall i o v ho hread
    have hlt : i < q.fields.length := by
      have hbound := (List.getElem?_eq_some_iff.1 ho).1
      rw [outcomes_length] at hbound
      cases q <;> exact hbound
    have hi : q.fields[i]? = some ((q.fields[i]).1, (q.fields[i]).2) := List.getElem?_eq_getElem hlt
    have hvalue := (hall isOk_success i _ _ hi).2 o v ho hread
    rw [hshown hi] at hvalue
    refine shown_injective q ?_ (reads_lt hread) hvalue
    cases hv : (series "" (q.outcomes params env h))[i]? with
    | none => exact Nat.two_pow_pos 32
    | some w => exact series_lt _ _ w (List.mem_of_getElem? hv)
  · intro hall _ i key subIndex hi
    refine ⟨by rw [Query.lines, List.getElem?_map, hi]; rfl, fun o v ho hread => ?_⟩
    rw [hshown hi, hall i o v ho hread]

/-- **Every field is the value of its own upload** if nothing is read, the address
is not read, or no upload that has a value comes behind one that failed. -/
theorem own_value_iff : Independent q id params env h ↔
    soePosition params < 0 ∨ (q = .getIp ∧ reading (env h (uploadLine params "0x01")) = none) ∨
      ¬ Hidden (q.outcomes params env h) := by
  by_cases hpos : soePosition params < 0
  · refine iff_of_true (fun hok => absurd hok ?_) (.inl hpos)
    cases q
    · simp [Query.handler, handleEoeGetIp, hpos]
    · simp [Query.handler, handleEoeStats, hpos]
  · rw [or_iff_right hpos]
    cases q with
    | stats =>
      rw [answered_iff .stats id params env h (stats_eq hpos env h)]
      simp
    | getIp =>
      by_cases hread : reading (env h (uploadLine params "0x01")) = none
      · obtain ⟨message, hrun⟩ := getIp_failed id hpos hread
        refine iff_of_true (fun hok => absurd hok ?_) (.inl ⟨rfl, hread⟩)
        simp [Query.handler, hrun]
      · rw [answered_iff .getIp id params env h (getIp_eq id hpos hread)]
        simp [hread]

end

def slaveZero : QJsonObject := ofList [("position", .int 0)]

/-- The second upload fails, the others read 7. -/
def secondFails (h : List Line) (_ : Line) : Outcome := if h.length = 1 then .exited 1 "" "timeout" else .exited 0 "7" ""

theorem read_hidden : ¬ Independent .stats "1" slaveZero secondFails [] := by
  have hpos : ¬ soePosition slaveZero < 0 := by decide
  rw [answered_iff .stats "1" slaveZero secondFails [] (stats_eq hpos secondFails []), not_not]
  exact ⟨1, 2, .exited 1 "" "timeout", .exited 0 "7" "", 7, by decide, rfl, rfl, by decide,
    ⟨⟨"7", "", rfl⟩, by decide⟩, by decide⟩

/-! ## The configuration -/

def address (params : QJsonObject) (key : String) : String := trimmed (text params key)

/-- The parameters, with the subindex that each is written to. -/
def configKeys : List (String × String) := [("ip", "0x01"), ("subnet", "0x02"), ("gateway", "0x03"), ("dns", "0x04")]

def writeLine (params : QJsonObject) (subIndex : String) (bytes : List Nat) : Line :=
  scopedArguments (requestedMaster params)
    (downloadArgs (soePosition params) "0x8000" subIndex (number (ipValue bytes)) "uint32")

/-- The parameter is an address, and a command of the run wrote it. -/
def Wrote (params : QJsonObject) (ran : List (Line × Outcome)) (key subIndex : String) : Prop :=
  ∃ bytes, parseIp (address params key) = some bytes ∧ ∃ o, (writeLine params subIndex bytes, o) ∈ ran ∧ Succeeded o

/-- What `handleEoeConfigureIp` says of a request that it does not carry out. -/
def IsRefusal (message : String) : Prop := "Missing".toList <+: message.toList ∨ "Invalid".toList <+: message.toList

structure Honest (id : String) (params : QJsonObject) (env : Env) (h : List Line) : Prop where
  written : IsOk ((handleEoeConfigureIp id params).run env h).1 → ∀ key subIndex, (key, subIndex) ∈ configKeys →
    address params key ≠ "" →
      Wrote params (((handleEoeConfigureIp id params).run env h).2.zip
        (Prog.answers env h ((handleEoeConfigureIp id params).run env h).2)) key subIndex
  untouched : ∀ message, ((handleEoeConfigureIp id params).run env h).1 = failure id message → IsRefusal message →
    ((handleEoeConfigureIp id params).run env h).2 = []

/-- The line of a parameter that may be left out. -/
def optionalLine (params : QJsonObject) (key subIndex : String) : Option Line :=
  if address params key = "" then none else (parseIp (address params key)).map (writeLine params subIndex)

def mandatoryLine (params : QJsonObject) (key subIndex : String) : Line :=
  writeLine params subIndex ((parseIp (address params key)).getD [])

abbrev ipLine (params : QJsonObject) : Line := mandatoryLine params "ip" "0x01"

abbrev subnetLine (params : QJsonObject) : Line := mandatoryLine params "subnet" "0x02"

theorem refusal_isRefusal {params : QJsonObject} {message : String} (h : eoeConfigureIpRefusal params = some message) :
    IsRefusal message := by
  unfold eoeConfigureIpRefusal at h
  extract_lets ip subnet at h
  repeat' split at h
  · obtain rfl := Option.some.inj h
    exact .inl (by decide)
  · obtain rfl := Option.some.inj h
    exact .inl (by decide)
  · obtain rfl := Option.some.inj h
    exact .inr (by simp [arg, markers, marker, digit, replace])
  · obtain rfl := Option.some.inj h
    exact .inr (by simp [arg, markers, marker, digit, replace])
  · cases h

theorem writeEoeSdo_eq (params : QJsonObject) (subIndex : String) (bytes : List Nat) :
    writeEoeSdo (requestedMaster params) (soePosition params) "0x8000" subIndex (ipValue bytes) =
      .call (writeLine params subIndex bytes) fun o => .done ((finished o).exitCode == 0, (finished o).commandError) := rfl

/-- What is written, one line after the other, if all are needed. -/
def configLines (params : QJsonObject) : List Line :=
  [ipLine params, subnetLine params] ++
    (optionalLine params "gateway" "0x03").toList ++ (optionalLine params "dns" "0x04").toList

theorem run_writeOptional (params : QJsonObject) (key subIndex : String) (env : Env) (h : List Line) :
    (writeOptional (requestedMaster params) (soePosition params) subIndex (address params key)).run env h =
      ((), (optionalLine params key subIndex).toList) := by
  unfold writeOptional optionalLine
  by_cases he : address params key = ""
  · rw [if_pos he, if_pos he]
    rfl
  · rw [if_neg he, if_neg he]
    cases parseIp (address params key) with
    | none => rfl
    | some bytes => simp only [writeEoeSdo_eq, Prog.bind_eq, Prog.call_bind, Prog.done_bind, Prog.run_call]; rfl

section
variable (id : String) {params : QJsonObject} {env : Env} {h : List Line}

theorem exitCode_false {o : Outcome} (h : ¬ Succeeded o) : ((finished o).exitCode == 0) = false :=
  beq_eq_false_iff_ne.2 fun hzero => h (exitCode_iff.1 hzero)

theorem exitCode_true {o : Outcome} (h : Succeeded o) : ¬ ((finished o).exitCode == 0) = false := by
  rw [exitCode_iff.2 h]
  decide

theorem configure_refused {message : String} (hm : eoeConfigureIpRefusal params = some message) :
    (handleEoeConfigureIp id params).run env h = (failure id message, []) := by
  unfold handleEoeConfigureIp
  simp only [hm, Prog.run_done]

variable (hnone : eoeConfigureIpRefusal params = none)

include hnone

theorem configure_eq : ∃ result, handleEoeConfigureIp id params = .call (ipLine params) fun o =>
    if ((finished o).exitCode == 0) = false then
      .done (failure id (arg "Failed to set IP: %1" ((finished o).commandError.getD "")))
    else .call (subnetLine params) fun o =>
      if ((finished o).exitCode == 0) = false then
        .done (failure id (arg "Failed to set subnet: %1" ((finished o).commandError.getD "")))
      else
        (writeOptional (requestedMaster params) (soePosition params) "0x03" (address params "gateway")).bind fun _ =>
          (writeOptional (requestedMaster params) (soePosition params) "0x04" (address params "dns")).bind fun _ =>
            .done (success id result) := by
  unfold handleEoeConfigureIp
  simp only [hnone, writeEoeSdo_eq, Prog.bind_eq, Prog.call_bind, Prog.done_bind]
  exact ⟨_, rfl⟩

theorem configure_ip (hfail : ¬ Succeeded (env h (ipLine params))) :
    ∃ message, ¬ IsRefusal message ∧
      (handleEoeConfigureIp id params).run env h = (failure id message, [ipLine params]) := by
  obtain ⟨result, heq⟩ := configure_eq id hnone
  refine ⟨arg "Failed to set IP: %1" ((finished (env h (ipLine params))).commandError.getD ""), ?_, ?_⟩
  · simp [IsRefusal, arg, markers, marker, digit, replace]
  · rw [heq, Prog.run_call, if_pos (exitCode_false hfail), Prog.run_done]

theorem configure_subnet (hip : Succeeded (env h (ipLine params)))
    (hfail : ¬ Succeeded (env (h ++ [ipLine params]) (subnetLine params))) :
    ∃ message, ¬ IsRefusal message ∧ (handleEoeConfigureIp id params).run env h =
      (failure id message, [ipLine params, subnetLine params]) := by
  obtain ⟨result, heq⟩ := configure_eq id hnone
  refine ⟨arg "Failed to set subnet: %1" ((finished (env (h ++ [ipLine params])
    (subnetLine params))).commandError.getD ""), ?_, ?_⟩
  · simp [IsRefusal, arg, markers, marker, digit, replace]
  · rw [heq, Prog.run_call, if_neg (exitCode_true hip), Prog.run_call, if_pos (exitCode_false hfail), Prog.run_done]

theorem configure_done (hip : Succeeded (env h (ipLine params)))
    (hsubnet : Succeeded (env (h ++ [ipLine params]) (subnetLine params))) :
    ∃ result, (handleEoeConfigureIp id params).run env h = (success id result, configLines params) := by
  obtain ⟨result, heq⟩ := configure_eq id hnone
  refine ⟨result, ?_⟩
  rw [heq, Prog.run_call, if_neg (exitCode_true hip), Prog.run_call, if_neg (exitCode_true hsubnet), Prog.run_bind,
    run_writeOptional, Prog.run_bind, run_writeOptional, Prog.run_done, List.append_nil]
  simp [configLines]

end

theorem refusal_none {params : QJsonObject} (h : eoeConfigureIpRefusal params = none) :
    parseIp (address params "ip") ≠ none ∧ parseIp (address params "subnet") ≠ none := by
  unfold eoeConfigureIpRefusal at h
  extract_lets ip subnet at h
  split at h
  · cases h
  split at h
  · cases h
  split at h
  · cases h
  rename_i hip
  split at h
  · cases h
  rename_i hsubnet
  exact ⟨hip, hsubnet⟩

/-- A parameter that is given is an address, and its write succeeds. -/
def Delivered (env : Env) (h : List Line) (params : QJsonObject) (key subIndex : String) : Prop :=
  address params key ≠ "" →
    ∃ bytes, parseIp (address params key) = some bytes ∧ Succeeded (env h (writeLine params subIndex bytes))

theorem writeLine_subIndex {params : QJsonObject} {s s' : String} {b b' : List Nat}
    (h : writeLine params s b = writeLine params s' b') : withHexPrefix s = withHexPrefix s' := by
  have harguments {a a' : Line}
      (h : scopedArguments (requestedMaster params) a = scopedArguments (requestedMaster params) a') : a = a' := by
    unfold scopedArguments at h
    split at h
    · exact h
    · exact (List.cons.inj (List.cons.inj h).2).2
  have hsame := harguments h
  simp [downloadArgs] at hsame
  exact hsame.1

section
variable (params : QJsonObject) (env : Env) (h : List Line)

/-- The lines of a run that writes all, with how they end. -/
theorem ran_eq : (configLines params).zip (Prog.answers env h (configLines params)) =
    (ipLine params, env h (ipLine params)) ::
      (subnetLine params, env (h ++ [ipLine params]) (subnetLine params)) ::
      ((optionalLine params "gateway" "0x03").toList.map (fun line =>
          (line, env (h ++ [ipLine params, subnetLine params]) line)) ++
        (optionalLine params "dns" "0x04").toList.map fun line =>
          (line, env (h ++ [ipLine params, subnetLine params] ++
            (optionalLine params "gateway" "0x03").toList) line)) := by
  unfold configLines
  cases optionalLine params "gateway" "0x03" <;> cases optionalLine params "dns" "0x04" <;>
    simp [Prog.answers]

theorem optionalLine_eq {key subIndex : String} {line : Line} (hl : optionalLine params key subIndex = some line) :
    ∃ bytes, parseIp (address params key) = some bytes ∧ line = writeLine params subIndex bytes := by
  unfold optionalLine at hl
  split at hl
  · cases hl
  · obtain ⟨bytes, hb, rfl⟩ := Option.map_eq_some_iff.1 hl
    exact ⟨bytes, hb, rfl⟩

theorem optionalLine_some (subIndex : String) {key : String} {bytes : List Nat} (hkey : address params key ≠ "")
    (hb : parseIp (address params key) = some bytes) :
    optionalLine params key subIndex = some (writeLine params subIndex bytes) := by
  rw [optionalLine, if_neg hkey, hb, Option.map_some]

/-- The gateway and the DNS server are written by their own lines only. -/
theorem wrote_optional : (address params "gateway" ≠ "" →
      Wrote params ((configLines params).zip (Prog.answers env h (configLines params))) "gateway" "0x03") ∧
      (address params "dns" ≠ "" →
        Wrote params ((configLines params).zip (Prog.answers env h (configLines params))) "dns" "0x04") ↔
    Delivered env (h ++ [ipLine params, subnetLine params]) params "gateway" "0x03" ∧
      Delivered env (h ++ [ipLine params, subnetLine params] ++
        (optionalLine params "gateway" "0x03").toList) params "dns" "0x04" := by
  have hother {s s' : String} {b b' : List Nat} (hs : withHexPrefix s ≠ withHexPrefix s') :
      writeLine params s b ≠ writeLine params s' b' := fun heq => hs (writeLine_subIndex heq)
  rw [ran_eq]
  refine and_congr (forall_congr' fun hkey => ?_) (forall_congr' fun hkey => ?_)
  · refine exists_congr fun bytes => and_congr_right fun hb => ?_
    have hline := optionalLine_some params "0x03" hkey hb
    constructor
    · rintro ⟨o, hmem, hok⟩
      simp only [List.mem_cons, List.mem_append, List.mem_map, Option.mem_toList, Prod.mk.injEq] at hmem
      rcases hmem with ⟨heq, -⟩ | ⟨heq, -⟩ | ⟨line, -, heq, ho⟩ | ⟨line, hl, heq, -⟩
      · exact absurd heq (hother (by decide))
      · exact absurd heq (hother (by decide))
      · rw [← heq, ho]
        exact hok
      · obtain ⟨b', -, hl'⟩ := optionalLine_eq params hl
        exact absurd (heq.symm.trans hl') (hother (by decide))
    · intro hok
      refine ⟨_, ?_, hok⟩
      rw [hline]
      simp
  · refine exists_congr fun bytes => and_congr_right fun hb => ?_
    have hline := optionalLine_some params "0x04" hkey hb
    constructor
    · rintro ⟨o, hmem, hok⟩
      simp only [List.mem_cons, List.mem_append, List.mem_map, Option.mem_toList, Prod.mk.injEq] at hmem
      rcases hmem with ⟨heq, -⟩ | ⟨heq, -⟩ | ⟨line, hl, heq, -⟩ | ⟨line, -, heq, ho⟩
      · exact absurd heq (hother (by decide))
      · exact absurd heq (hother (by decide))
      · obtain ⟨b', -, hl'⟩ := optionalLine_eq params hl
        exact absurd (heq.symm.trans hl') (hother (by decide))
      · rw [← heq, ho]
        exact hok
    · intro hok
      refine ⟨_, ?_, hok⟩
      rw [hline]
      simp

end

theorem failure_message {id message message' : String} (h : failure id message = failure id message') :
    message = message' := by
  have hvalue := congrArg (fun o => value (toObject (value o "error")) "message") h
  simpa [FoE.failure, ofList, value_insert, toObject] using hvalue

/-- **A success means that all that was given was written** iff, where the address and
the subnet mask are written, the others that are given are addresses and their writes
succeed. A request that is refused writes nothing. -/
theorem honest_iff (id : String) (params : QJsonObject) (env : Env) (h : List Line) :
    Honest id params env h ↔ (eoeConfigureIpRefusal params = none →
      Succeeded (env h (ipLine params)) →
      Succeeded (env (h ++ [ipLine params]) (subnetLine params)) →
      Delivered env (h ++ [ipLine params, subnetLine params]) params "gateway" "0x03" ∧
        Delivered env (h ++ [ipLine params, subnetLine params] ++
          (optionalLine params "gateway" "0x03").toList) params "dns" "0x04") := by
  have hfailed {message : String} {lines : List Line}
      (hrun : (handleEoeConfigureIp id params).run env h = (failure id message, lines))
      (hlines : IsRefusal message → lines = []) : Honest id params env h := by
    refine ⟨fun hok => absurd hok ?_, fun message' heq hr => ?_⟩
    · rw [hrun]
      exact isOk_failure
    · rw [hrun] at heq ⊢
      exact hlines (failure_message heq ▸ hr)
  cases hm : eoeConfigureIpRefusal params with
  | some message => exact iff_of_true (hfailed (configure_refused id hm) fun _ => rfl) fun hnone => nomatch hnone
  | none =>
    by_cases hip : Succeeded (env h (ipLine params))
    · by_cases hsubnet : Succeeded (env (h ++ [ipLine params]) (subnetLine params))
      · obtain ⟨result, hrun⟩ := configure_done id hm hip hsubnet
        have hwrote := wrote_optional params env h
        constructor
        · intro hh _ _ _
          have hw := hh.written (by rw [hrun]; exact isOk_success)
          rw [hrun] at hw
          exact hwrote.1 ⟨hw _ _ (by simp [configKeys]), hw _ _ (by simp [configKeys])⟩
        · intro hall
          obtain ⟨hgateway, hdns⟩ := hwrote.2 (hall rfl hip hsubnet)
          have hmandatory (key subIndex : String) (hb : parseIp (address params key) ≠ none) :
              ∃ bytes, parseIp (address params key) = some bytes ∧
                writeLine params subIndex bytes = mandatoryLine params key subIndex := by
            obtain ⟨bytes, hb⟩ := Option.ne_none_iff_exists'.1 hb
            exact ⟨bytes, hb, by rw [mandatoryLine, hb, Option.getD_some]⟩
          refine ⟨fun _ key subIndex hmem hkey => ?_, fun message heq _ => ?_⟩
          · rw [hrun]
            simp only [configKeys, List.mem_cons, Prod.mk.injEq, List.not_mem_nil, or_false] at hmem
            rcases hmem with ⟨rfl, rfl⟩ | ⟨rfl, rfl⟩ | ⟨rfl, rfl⟩ | ⟨rfl, rfl⟩
            · obtain ⟨bytes, hb, hline⟩ := hmandatory "ip" "0x01" (refusal_none hm).1
              refine ⟨bytes, hb, _, ?_, hip⟩
              rw [ran_eq, hline]
              exact List.mem_cons_self
            · obtain ⟨bytes, hb, hline⟩ := hmandatory "subnet" "0x02" (refusal_none hm).2
              refine ⟨bytes, hb, _, ?_, hsubnet⟩
              rw [ran_eq, hline]
              exact List.mem_cons_of_mem _ List.mem_cons_self
            · exact hgateway hkey
            · exact hdns hkey
          · have hok : IsOk ((handleEoeConfigureIp id params).run env h).1 := by
              rw [hrun]
              exact isOk_success
            rw [heq] at hok
            exact absurd hok isOk_failure
      · obtain ⟨message, hno, hrun⟩ := configure_subnet id hm hip hsubnet
        exact iff_of_true (hfailed hrun fun hr => absurd hr hno) fun _ _ h => absurd h hsubnet
    · obtain ⟨message, hno, hrun⟩ := configure_ip id hm hip
      exact iff_of_true (hfailed hrun fun hr => absurd hr hno) fun _ h => absurd h hip

/-- The gateway has an octet that is none. -/
def wrongGateway : QJsonObject :=
  ofList [("position", .int 0), ("ip", .string "10.0.0.2"), ("subnet", .string "255.0.0.0"),
    ("gateway", .string "10.0.0.256")]

def allSucceed (_ : List Line) (_ : Line) : Outcome := .exited 0 "" ""

theorem gateway_dropped : ¬ Honest "1" wrongGateway allSucceed [] := by
  intro hh
  have hok : Succeeded (.exited 0 "" "") := ⟨"", "", rfl⟩
  have hno : parseIp (address wrongGateway "gateway") = none := by decide
  have hnone : eoeConfigureIpRefusal wrongGateway = none := by decide
  obtain ⟨result, hrun⟩ := @configure_done "1" wrongGateway allSucceed [] hnone hok hok
  have hw := hh.written (by rw [hrun]; exact isOk_success) "gateway" "0x03" (by simp [configKeys]) (by decide)
  obtain ⟨bytes, hb, -⟩ := hw
  rw [hno] at hb
  cases hb

end NekoEcat.L2.EoeAnswers
