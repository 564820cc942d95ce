import NekoEcat.L2Daemon.Handlers

/-!
# Whether a failed command is answered as one

A command returns whether its process succeeded. A query has only its error text
to tell, which is what the process wrote to its standard error or else to its
standard output, and the handler takes an empty text for success.

* `text_answer`, `scan_answer`, `command_answer`: the three kinds of handlers.
* `answer_iff`: an answer tells the truth unless a query failed without a word.
* `silent_pdos`: such a failure, answered with an empty listing.
-/
namespace NekoEcat.L2.CliAnswers
open NekoEcat.Commands NekoEcat.QJson NekoEcat.QString NekoEcat.L2.CliBackend NekoEcat.L2.Handlers
open NekoEcat.L2.FoE (success failure)

/-- The requests that are answered with what the backend returns. -/
def queries : List String := ["master", "scan", "slaveInfo", "pdos", "sdos", "xml", "upload"]

def commands : List String := ["download", "setState", "setAllStates", "rescan"]

/-- The process ran to completion with exit code 0. -/
def Succeeded (o : Outcome) : Prop := ∃ stdOut stdErr, o = .exited 0 stdOut stdErr

/-- It failed and wrote nothing. -/
def Silent (o : Outcome) : Prop := ∃ exitCode stdErr, o = .exited exitCode "" stdErr ∧ exitCode ≠ 0 ∧ trimmed stdErr = ""

/-- The text or value of a result, of the standard output. -/
def resultField : String → Option (String × (String → String))
  | "upload" => some ("value", trimmed)
  | "master" | "slaveInfo" | "pdos" | "sdos" | "xml" => some ("text", id)
  | _ => none

def IsOk (response : QJsonObject) : Prop := QJson.toBool (value response "ok") = true

instance (response : QJsonObject) : Decidable (IsOk response) := inferInstanceAs (Decidable (_ = _))

def result (response : QJsonObject) : QJsonObject := toObject (value response "result")

/-- The answer to a request whose process ended so. -/
structure Truthful (method : String) (o : Outcome) (response : QJsonObject) : Prop where
  ok : IsOk response ↔ Succeeded o
  field : IsOk response → ∀ key show_, resultField method = some (key, show_) →
    value (result response) key = .string (show_ (finished o).text)

/-! ## Answers -/

section
variable {id message : String} {r : QJsonObject}

@[simp] theorem isOk_success : IsOk (success id r) := by
  simp [IsOk, success, ofList, value_insert, QJson.toBool]

@[simp] theorem isOk_failure : ¬ IsOk (failure id message) := by
  simp [IsOk, FoE.failure, ofList, value_insert, QJson.toBool]

@[simp] theorem result_success : result (success id r) = r := by
  simp [result, success, ofList, value_insert, toObject]

end

section
variable {o : Outcome}

theorem exitCode_iff : (finished o).exitCode = 0 ↔ Succeeded o := by
  cases o with
  | notStarted => simp [finished, Succeeded]
  | timedOut => simp [finished, Succeeded]
  | exited exitCode stdOut stdErr => simp [finished, Succeeded]

/-- An error text that is taken for none. -/
theorem queryError_iff : (finished o).queryError.getD "" = "" ↔ Succeeded o ∨ Silent o := by
  rw [← exitCode_iff]
  cases o with
  | notStarted => simp [finished, RunResult.queryError, Silent]
  | timedOut => simp [finished, RunResult.queryError, Silent]
  | exited exitCode stdOut stdErr =>
    by_cases hc : exitCode = 0
    · simp [finished, RunResult.queryError, Silent, hc]
    · by_cases he : trimmed stdErr = ""
      · simp [finished, RunResult.queryError, Silent, hc, he]
      · simp [finished, RunResult.queryError, Silent, hc, he]

theorem not_silent (h : Succeeded o) : ¬ Silent o := by
  obtain ⟨stdOut, stdErr, rfl⟩ := h
  simp [Silent]

end

/-! ## The three kinds of handlers -/

/-- What a query answers. -/
def queryAnswer (id : String) (r : QJsonObject) (o : Outcome) : QJsonObject :=
  let error := (finished o).queryError.getD ""
  if error = "" then success id r else failure id error

/-- A query is told apart from a failure by its error text. -/
theorem queryAnswer_iff {method id : String} {r : QJsonObject} {o : Outcome}
    (hfield : ∀ key show_, resultField method = some (key, show_) → value r key = .string (show_ (finished o).text)) :
    Truthful method o (queryAnswer id r o) ↔ ¬ Silent o := by
  have herror := queryError_iff (o := o)
  unfold queryAnswer
  simp only
  split
  · rename_i hempty
    constructor
    · intro h
      exact not_silent (h.ok.1 isOk_success)
    · intro h
      have hok : Succeeded o := (herror.1 hempty).resolve_right h
      exact ⟨iff_of_true isOk_success hok, fun _ => by simpa using hfield⟩
  · rename_i hne
    have hno : ¬ (Succeeded o ∨ Silent o) := fun h => hne (herror.2 h)
    refine iff_of_true ⟨iff_of_false isOk_failure fun h => hno (.inl h), ?_⟩ fun h => hno (.inr h)
    exact fun h => absurd h isOk_failure

/-- A query whose text is answered. -/
theorem text_answer {key : String} {show_ : String → String} {q : QJsonObject → Cli (String × Option String)} {id : String}
    {params : QJsonObject} {line : Line}
    (hq : q params = .call line fun o => .done (show_ (finished o).text, (finished o).queryError)) :
    textHandler key q id params =
      .call line fun o => .done (queryAnswer id (ofList [(key, .string (show_ (finished o).text))]) o) := by
  unfold textHandler
  rw [hq]
  rfl

theorem scan_answer (id : String) (params : QJsonObject) :
    scan id params =
      .call (scopedArguments (requestedMaster params) ["slaves"]) fun o =>
        .done (queryAnswer id (ofList [("slaves", .array
          ((if (finished o).exitCode = 0 then parseSlaves (finished o).text else []).map toJson))]) o) := rfl

/-- A command's answer is what its process said. -/
theorem command_answer {method : String} (id : String) {c : QJsonObject → Cli (Bool × Option String)} {params : QJsonObject}
    {line : Line} (hm : resultField method = none)
    (hc : c params = .call line fun o => .done ((finished o).exitCode == 0, (finished o).commandError)) :
    ∃ response : Outcome → QJsonObject, commandHandler c id params = .call line (fun o => .done (response o)) ∧
      ∀ o, Truthful method o (response o) := by
  refine ⟨fun o => if (finished o).exitCode == 0 then success id [] else failure id ((finished o).commandError.getD ""),
    ?_, fun o => ⟨?_, fun _ key show_ h => by rw [hm] at h; cases h⟩⟩
  · unfold commandHandler
    rw [hc]
    rfl
  · rw [← exitCode_iff]
    by_cases h : (finished o).exitCode = 0
    · simp [h]
    · simp [h]

/-! ## Every request -/

/-- The request runs one process, and how it is answered. -/
def Answers (method : String) (p : Cli QJsonObject) (holds : Outcome → Prop) : Prop :=
  ∃ (line : Line) (response : Outcome → QJsonObject), p = .call line (fun o => .done (response o)) ∧ ∀ o, Truthful method o (response o) ↔ holds o

theorem answers_text {method key : String} {show_ : String → String} {q : QJsonObject → Cli (String × Option String)}
    {id : String} {params : QJsonObject} {line : Line} (hm : resultField method = some (key, show_))
    (hq : q params = .call line fun o => .done (show_ (finished o).text, (finished o).queryError)) :
    Answers method (textHandler key q id params) fun o => ¬ Silent o := by
  refine ⟨line, _, text_answer hq, fun o => queryAnswer_iff fun key' show' h => ?_⟩
  rw [hm] at h
  cases h
  simp [ofList, value_insert]

theorem answers_scan (id : String) (params : QJsonObject) : Answers "scan" (scan id params) fun o => ¬ Silent o :=
  ⟨_, _, scan_answer id params, fun _ => queryAnswer_iff fun _ _ h => by cases h⟩

theorem answers_command {method id : String} {c : QJsonObject → Cli (Bool × Option String)} {params : QJsonObject}
    {line : Line} (hm : resultField method = none)
    (hc : c params = .call line fun o => .done ((finished o).exitCode == 0, (finished o).commandError)) :
    Answers method (commandHandler c id params) fun _ => True := by
  obtain ⟨response, hp, hr⟩ := command_answer id hm hc
  exact ⟨line, response, hp, fun o => iff_true_intro (hr o)⟩

theorem answers (host : Host) {method : String} (hm : method ∈ queries ++ commands) {handler : Handler}
    (hh : handlers host method = some handler) (id : String) (params : QJsonObject) :
    Answers method (handler id params) fun o => ¬ (method ∈ queries ∧ Silent o) := by
  have hq : ∀ m ∈ queries, ∀ o, (¬ (m ∈ queries ∧ Silent o)) = ¬ Silent o := by
    intro m hmem o
    simp [hmem]
  have hc : ∀ m ∉ queries, ∀ o, (¬ (m ∈ queries ∧ Silent o)) = True := by
    intro m hmem o
    simp [hmem]
  rcases List.mem_append.1 hm with hm | hm
  · simp only [hq method hm]
    simp only [queries, List.mem_cons, List.not_mem_nil, or_false] at hm
    obtain rfl | rfl | rfl | rfl | rfl | rfl | rfl := hm <;> cases hh
    · exact answers_text rfl rfl
    · exact answers_scan id params
    · exact answers_text rfl rfl
    · exact answers_text rfl rfl
    · exact answers_text rfl rfl
    · exact answers_text rfl rfl
    · exact answers_text rfl rfl
  · have hnot : method ∉ queries := by
      simp only [commands, List.mem_cons, List.not_mem_nil, or_false] at hm
      obtain rfl | rfl | rfl | rfl := hm <;> decide
    simp only [hc method hnot]
    simp only [commands, List.mem_cons, List.not_mem_nil, or_false] at hm
    obtain rfl | rfl | rfl | rfl := hm <;> cases hh
    · exact answers_command rfl rfl
    · exact answers_command rfl rfl
    · exact answers_command rfl rfl
    · exact answers_command rfl rfl

/-- **An answer tells how its process ended, unless that is a query that failed
without a word.** -/
theorem answer_iff (host : Host) {method : String} (hm : method ∈ queries ++ commands) {handler : Handler}
    (hh : handlers host method = some handler) (id : String) (params : QJsonObject) (env : List Line → Line → Outcome)
    (h : List Line) :
    ∃ line, ((handler id params).run env h).2 = [line] ∧
      (Truthful method (env h line) ((handler id params).run env h).1 ↔ ¬ (method ∈ queries ∧ Silent (env h line))) := by
  obtain ⟨line, response, hp, hr⟩ := answers host hm hh id params
  refine ⟨line, ?_, ?_⟩
  · rw [hp]
    rfl
  · rw [hp]
    exact hr (env h line)

/-- The PDOs of slave 3 of a master, where the CLI ends so. -/
def asked (o : Outcome) : QJsonObject := ((pdos "7" (ofList [("position", .int 3)])).run (fun _ _ => o) []).1

/-- Exit code 1 and a blank line on the standard error. -/
theorem silent_pdos : ¬ Truthful "pdos" (.exited 1 "" "\n") (asked (.exited 1 "" "\n")) := by
  have hok : IsOk (asked (.exited 1 "" "\n")) := by decide +kernel
  intro h
  obtain ⟨stdOut, stdErr, he⟩ := h.ok.1 hok
  cases he

theorem answer_iff_pdos : ∃ line,
    ((pdos "7" []).run (fun _ _ => .exited 1 "" "No such slave") []).2 = [line] ∧
      (Truthful "pdos" (.exited 1 "" "No such slave") ((pdos "7" []).run (fun _ _ => .exited 1 "" "No such slave") []).1 ↔
        ¬ ("pdos" ∈ queries ∧ Silent (.exited 1 "" "No such slave"))) :=
  answer_iff bareHost (by decide) rfl "7" [] (fun _ _ => .exited 1 "" "No such slave") []

end NekoEcat.L2.CliAnswers
