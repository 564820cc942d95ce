import NekoEcat.L4Gui.Delivery

/-!
# Success is signalled before it is acknowledged

`send` hands failures to the handler that waits for success, so each handler
has to tell them apart. Four of them test for `"error"`; the others report
success whatever they are given.

* `reports_iff`: which handlers report success of a failed request.
* `told_step`: what a handler has to say is said, or still to be said by a
  suspended call.
* `success_acknowledged_iff`: a run signals success only for acknowledged
  requests exactly as long as no handler that misreports a failure is told of
  one.
* `rejected_start_running`: a rejected `freeRunStart` is shown as running.
-/
namespace NekoEcat.L4.Success
open NekoEcat.Trace NekoEcat.QJson NekoEcat.L4.EcatClient NekoEcat.L4.Delivery

/-- The signals that say a command was carried out. The signals that hand the
daemon's object on are not among them. -/
def successSignal : Signal → Bool
  | .commandSucceeded _ => true
  | .freeRunChanged running _ => running
  | .foeReadResult .. => true
  | .foeWriteResult .. => true
  | .soeWriteResult .. => true
  | .eoeIpConfigured .. => true
  | .backendModeChanged .. => true
  | .redundancyCommandResult _ success _ => success
  | _ => false

/-- The methods whose handler reports success of a request that failed for
this reason. -/
def misreports (r : Rpc) (cause : Cause) : Bool :=
  match r with
  | .download .. | .setState .. | .setAllStates _ => cause == .connectionLost
  | .rescan | .applyStartupSdos _ | .freeRunStart | .freeRunStop | .rtTestStart _ | .rtTestStop
  | .dcConfigure _ | .dcActivate _ | .dcDeactivate | .alEventClear | .setAdapter _ | .setBackendMode _
  | .getBackendMode | .foeRead .. | .foeWrite .. | .soeWrite .. | .eoeConfigureIp .. => cause != .ok
  | _ => false

/-- The handler's body has a success signal for this result. -/
def Reports (inv : Invocation Rpc) : Prop :=
  ∃ sig, successSignal sig = true ∧ Act.emit sig ∈ inv.handler.body inv.result

/-- Success was signalled only for requests the daemon answered `ok: true`. -/
def Acknowledged (s : State Rpc) : Prop :=
  ∀ inv sig, (some inv, sig) ∈ s.emitted → successSignal sig = true → inv.cause = .ok

/-! ## What the handlers make of a failure -/

/-- A handler that emits one signal, which says nothing of success. -/
theorem not_reports_single {inv : Invocation Rpc} {sig : Signal}
    (h : inv.handler.body inv.result = [.emit sig]) (hs : successSignal sig = false) : ¬ Reports inv := by
  rintro ⟨sig', hs', hm⟩
  rw [h] at hm
  obtain rfl := Act.emit.inj (List.mem_singleton.1 hm)
  rw [hs] at hs'
  cases hs'

/-- A failed result has neither the key `running` nor the key `success`. -/
theorem failed_result {inv : Invocation Rpc} (hd : Delivered inv) (hc : inv.cause ≠ .ok) :
    toBool (value inv.result "running") = false ∧ toBool (value inv.result "success") = false ∧
      contains inv.result "error" = (inv.cause != .connectionLost) := by
  unfold Delivered at hd
  split at hd
  · rename_i hok
    exact absurd hok hc
  · rename_i hlost
    rw [hd, hlost]
    exact ⟨rfl, rfl, contains_lostResult⟩
  · rename_i hlost
    obtain ⟨message, code, hr⟩ := hd
    rw [hr, contains_errorResult]
    have hv : ∀ k, k ≠ "error" → k ≠ "errorMessage" → k ≠ "errorCode" → value (errorResult message code) k = .null := by
      intro k h1 h2 h3
      simp only [errorResult, ofList, List.foldl_cons, List.foldl_nil, value_insert, if_neg h1, if_neg h2, if_neg h3]
      rfl
    rw [hv "running" (by decide) (by decide) (by decide), hv "success" (by decide) (by decide) (by decide)]
    exact ⟨rfl, rfl, by simpa using hlost⟩

/-- A handler that tests for `"error"` before it reports success. -/
theorem reports_unlessError {inv : Invocation Rpc} (hd : Delivered inv) (hc : inv.cause ≠ .ok) {sig : Signal}
    {acts : List (Act Rpc)} (h : inv.handler.body inv.result = unlessError inv.result (.emit sig :: acts))
    (hs : successSignal sig = true) : Reports inv ↔ (inv.cause == .connectionLost) = true := by
  have he := (failed_result hd hc).2.2
  unfold Reports
  rw [h, unlessError, he]
  by_cases hl : inv.cause = .connectionLost
  · rw [hl]
    exact iff_of_true ⟨sig, hs, List.mem_cons_self⟩ rfl
  · have hb : (inv.cause == .connectionLost) = false := beq_eq_false_iff_ne.2 hl
    rw [bne, hb]
    refine iff_of_false ?_ (by simp)
    rintro ⟨sig', -, hm⟩
    cases hm

/-- **Which handlers report success of a failed request.** -/
theorem reports_iff {inv : Invocation Rpc} (hd : Delivered inv) (hc : inv.cause ≠ .ok) :
    Reports inv ↔ misreports inv.handler inv.cause = true := by
  obtain ⟨hrun, hsucc, -⟩ := failed_result hd hc
  have hok : (inv.cause != .ok) = true := by simpa using hc
  have htests := fun {sig : Signal} {acts : List (Act Rpc)} => @reports_unlessError inv hd hc sig acts
  have hsingle := @not_reports_single inv
  obtain ⟨key, cause, handler, result⟩ := inv
  cases handler with
  -- they test
  | download | setState | setAllStates => exact htests rfl rfl
  | upload =>
    refine iff_of_false ?_ (by simp [misreports])
    rintro ⟨sig, hs, hm⟩
    simp only [Rpc.body, unlessError] at hm
    split at hm
    · cases hm
    · obtain rfl := Act.emit.inj (List.mem_singleton.1 hm)
      cases hs
  -- the first signal says success
  | rescan | freeRunStart | alEventClear | setAdapter | setBackendMode | getBackendMode | foeRead | foeWrite
  | soeWrite | eoeConfigureIp => exact iff_of_true ⟨_, rfl, .head _⟩ hok
  -- the second
  | applyStartupSdos | rtTestStart | rtTestStop | dcConfigure | dcActivate | dcDeactivate =>
    exact iff_of_true ⟨.commandSucceeded _, rfl, .tail _ (.head _)⟩ hok
  -- the third
  | freeRunStop => exact iff_of_true ⟨.commandSucceeded _, rfl, .tail _ (.tail _ (.head _))⟩ hok
  | freeRunStatus =>
    refine iff_of_false ?_ (by simp [misreports])
    rintro ⟨sig, hs, hm⟩
    simp only [Rpc.body, hrun, List.mem_cons, Act.emit.injEq, List.not_mem_nil, or_false] at hm
    rcases hm with rfl | rfl <;> cases hs
  | redundancyEnable | redundancyDisable | redundancyFailover | redundancyFailback =>
    exact iff_of_false (hsingle rfl hsucc) (by simp [misreports])
  | _ => exact iff_of_false (hsingle rfl rfl) (by simp [misreports])

/-! ## What is left to say -/

section
variable {H : Type} (body : H → QJsonObject → List (Act H))

/-- The signal was emitted by the invocation, or its call still will. -/
def Says (s : State H) (inv : Invocation H) (sig : Signal) : Prop :=
  (some inv, sig) ∈ s.emitted ∨ ∃ todo, Frame.run (some inv) todo ∈ s.stack ∧ Instr.emit sig ∈ todo

/-- Every handler that was called says what its body makes of the result. -/
def Told (s : State H) : Prop :=
  ∀ inv ∈ s.log, ∀ sig, Act.emit sig ∈ body inv.handler inv.result → Says s inv sig

/-- A call adds frames to the stack and says nothing itself. -/
theorem send_frames (s : State H) (method : String) (params : QJsonObject) (handler : H) :
    (∃ pre, (send s method params handler).stack = pre ++ s.stack) ∧
      (send s method params handler).emitted = s.emitted := by
  unfold send
  split
  · exact ⟨⟨[], rfl⟩, rfl⟩
  · exact ⟨⟨[_], rfl⟩, rfl⟩

theorem call_frames (s : State H) (op : Op H) :
    (∃ pre, (call s op).stack = pre ++ s.stack) ∧ (call s op).emitted = s.emitted := by
  cases op with
  | send method params handler => exact send_frames s method params handler
  | line document =>
    cases document with
    | none => exact ⟨⟨[_], rfl⟩, rfl⟩
    | some object =>
      simp only [call, handleLine]
      split <;> exact ⟨⟨[_], rfl⟩, rfl⟩
  | setMasterTarget target =>
    simp only [call, setMasterTarget]
    exact ⟨⟨[], rfl⟩, trivial⟩
  | setRequestTimeout ms => exact ⟨⟨[], rfl⟩, rfl⟩
  | _ => exact ⟨⟨[_], rfl⟩, rfl⟩

/-- An instruction leaves the frames under it and what follows it, and a
signal that is its own is emitted. -/
theorem execInstr_frames (s : State H) (caller : Option (Invocation H)) (instr : Instr H) (rest : List (Instr H))
    (stack : List (Frame H)) (i : Nat) (hs : s.stack = .run caller (instr :: rest) :: stack) :
    (∃ pre todo, (execInstr body s caller instr rest stack i).stack = pre ++ .run caller (todo ++ rest) :: stack) ∧
    (∀ e ∈ s.emitted, e ∈ (execInstr body s caller instr rest stack i).emitted) ∧
    (∀ sig, instr = .emit sig → (caller, sig) ∈ (execInstr body s caller instr rest stack i).emitted) := by
  have hsame : ∃ pre todo, s.stack = pre ++ .run caller (todo ++ rest) :: stack := ⟨[], [instr], hs⟩
  cases instr with
  | emit sig =>
    refine ⟨⟨[.slots], [], rfl⟩, ?_, ?_⟩
    · intro e he
      exact List.mem_append_left _ he
    · intro sig' hsig
      obtain rfl := Instr.emit.inj hsig
      exact List.mem_append_right _ List.mem_cons_self
  | setConnectionState state =>
    simp only [execInstr]
    split
    · exact ⟨⟨[], [], rfl⟩, fun _ he => he, fun _ h => by cases h⟩
    · exact ⟨⟨[.slots], [], rfl⟩, fun _ he => List.mem_append_left _ he, fun _ h => by cases h⟩
  | send method params handler =>
    obtain ⟨⟨pre, hp⟩, he⟩ := send_frames { s with stack := .run caller ([] ++ rest) :: stack } method params handler
    refine ⟨⟨pre, [], hp⟩, ?_, fun _ h => by cases h⟩
    intro e hm
    show e ∈ (send _ method params handler).emitted
    rw [he]
    exact hm
  | invoke inv => exact ⟨⟨[_], [], rfl⟩, fun _ he => he, fun _ h => by cases h⟩
  | sweep timedOut =>
    simp only [execInstr]
    split
    · exact ⟨⟨[], _, rfl⟩, fun _ he => he, fun _ h => by cases h⟩
    · split
      · exact ⟨⟨[], [], rfl⟩, fun _ he => he, fun _ h => by cases h⟩
      · exact ⟨hsame, fun _ he => he, fun _ h => by cases h⟩
  | swap => exact ⟨⟨[], [_], rfl⟩, fun _ he => he, fun _ h => by cases h⟩
  | flush pending =>
    simp only [execInstr]
    split
    · exact ⟨⟨[_], [_], rfl⟩, fun _ he => he, fun _ h => by cases h⟩
    · split
      · exact ⟨⟨[], [], rfl⟩, fun _ he => he, fun _ h => by cases h⟩
      · exact ⟨hsame, fun _ he => he, fun _ h => by cases h⟩

variable {body}

/-- What was said or left to say stays so over a step. -/
theorem says_step {s : State H} {inv : Invocation H} {sig : Signal} (h : Says s inv sig) (l : Lbl H) :
    Says (step body s l) inv sig := by
  have hgrow : ∀ s' : State H, (∃ pre, s'.stack = pre ++ s.stack) → s'.emitted = s.emitted → Says s' inv sig := by
    rintro s' ⟨pre, hp⟩ he
    rcases h with h | ⟨todo, hf, hm⟩
    · exact .inl (by rw [he]; exact h)
    · exact .inr ⟨todo, by rw [hp]; exact List.mem_append_right _ hf, hm⟩
  cases l with
  | call op =>
    obtain ⟨hp, he⟩ := call_frames s op
    simp only [step]
    split
    · exact hgrow _ hp he
    · exact hgrow _ hp he
    · exact h
  | ret =>
    simp only [step]
    split
    · rename_i stack hs
      rcases h with h | ⟨todo, hf, hm⟩
      · exact .inl h
      · rw [hs] at hf
        rcases List.mem_cons.1 hf with hf | hf
        · cases hf
        · exact .inr ⟨todo, hf, hm⟩
    · exact h
  | tick i =>
    simp only [step]
    split
    · rename_i caller stack hs
      rcases h with h | ⟨todo, hf, hm⟩
      · exact .inl h
      · rw [hs] at hf
        rcases List.mem_cons.1 hf with hf | hf
        · obtain ⟨-, rfl⟩ := Frame.run.inj hf
          cases hm
        · exact .inr ⟨todo, hf, hm⟩
    · rename_i caller instr rest stack hs
      obtain ⟨⟨pre, todo', hst⟩, hem, hsig⟩ := execInstr_frames body s caller instr rest stack i hs
      rcases h with h | ⟨todo, hf, hm⟩
      · exact .inl (hem _ h)
      · rw [hs] at hf
        rcases List.mem_cons.1 hf with hf | hf
        · obtain ⟨rfl, rfl⟩ := Frame.run.inj hf
          rcases List.mem_cons.1 hm with hm | hm
          · exact .inl (hsig sig hm.symm)
          · exact .inr ⟨todo' ++ rest, by rw [hst]; simp, List.mem_append_right _ hm⟩
        · exact .inr ⟨todo, by rw [hst]; simp [hf], hm⟩
    · exact h
  | time now => exact h

/-- A handler that is called has its body on the stack. -/
theorem execInstr_log (s : State H) (caller : Option (Invocation H)) (instr : Instr H) (rest : List (Instr H))
    (stack : List (Frame H)) (i : Nat) :
    (execInstr body s caller instr rest stack i).log = s.log ∨
    ∃ inv, (execInstr body s caller instr rest stack i).log = s.log ++ [inv] ∧
      .run (some inv) ((body inv.handler inv.result).map Act.instr) ∈
        (execInstr body s caller instr rest stack i).stack := by
  cases instr with
  | invoke inv => exact .inr ⟨inv, rfl, List.mem_cons_self⟩
  | flush pending =>
    simp only [execInstr]
    split
    · exact .inr ⟨_, rfl, List.mem_cons_self⟩
    · split <;> exact .inl rfl
  | send method params handler => exact .inl (send_log _ method params handler)
  | setConnectionState state =>
    simp only [execInstr]
    split <;> exact .inl rfl
  | sweep timedOut =>
    simp only [execInstr]
    split
    · exact .inl rfl
    · split <;> exact .inl rfl
  | emit sig => exact .inl rfl
  | swap => exact .inl rfl

variable (body) in
theorem log_step (s : State H) (l : Lbl H) :
    (step body s l).log = s.log ∨
    ∃ inv, (step body s l).log = s.log ++ [inv] ∧
      .run (some inv) ((body inv.handler inv.result).map Act.instr) ∈ (step body s l).stack := by
  cases l with
  | call op =>
    simp only [step]
    split
    · exact .inl (call_log s op)
    · exact .inl (call_log s op)
    · exact .inl rfl
  | ret => simp only [step]; split <;> exact .inl rfl
  | tick i =>
    simp only [step]
    split
    · exact .inl rfl
    · exact execInstr_log s _ _ _ _ i
    · exact .inl rfl
  | time now => exact .inl rfl

/-- **What a handler has to say** is said or left to say, after every step. -/
theorem told_step {s : State H} (h : Told body s) (l : Lbl H) : Told body (step body s l) := by
  intro inv hi sig hsig
  rcases log_step body s l with hl | ⟨inv', hl, hframe⟩
  · rw [hl] at hi
    exact says_step (h inv hi sig hsig) l
  · rw [hl] at hi
    rcases List.mem_append.1 hi with hi | hi
    · exact says_step (h inv hi sig hsig) l
    · obtain rfl := List.mem_singleton.1 hi
      exact .inr ⟨_, hframe, List.mem_map.2 ⟨_, hsig, rfl⟩⟩

variable (body) in
theorem run_told (now : Int) (σ : Nat → Lbl H) (t : Nat) : Told body (trace (step body) (initial now) σ t) := by
  have h0 : Told body (initial now) := by
    intro inv hi
    cases hi
  exact trace_inv (step body) (initial now) σ (I := Told body) h0 (fun _ l h => told_step h l) t

end

/-! ## Success signals -/

/-- **When success is signalled only after the acknowledgement, exactly.** As
long as no handler that misreports a failure was told of one; and while no
call is suspended only then. -/
theorem success_acknowledged_iff (now : Int) (σ : Nat → Lbl Rpc) (t : Nat) :
    let s := trace (step Rpc.body) (initial now) σ t
    ((∀ inv ∈ s.log, misreports inv.handler inv.cause = false) → Acknowledged s) ∧
    (s.stack = [] → (Acknowledged s ↔ ∀ inv ∈ s.log, misreports inv.handler inv.cause = false)) := by
  intro s
  have hp : Prov Rpc.body s := run_prov now σ t
  have hack : (∀ inv ∈ s.log, misreports inv.handler inv.cause = false) → Acknowledged s := by
    intro hm inv sig he hs
    obtain ⟨hi, hb⟩ := hp.emitted inv sig he
    by_contra hc
    have hr := (reports_iff (hp.log inv hi) hc).1 ⟨sig, hs, hb⟩
    rw [hm inv hi] at hr
    cases hr
  refine ⟨hack, ?_⟩
  intro hst
  refine ⟨?_, hack⟩
  intro ha inv hi
  by_contra hm
  have hm' : misreports inv.handler inv.cause = true := by simpa using hm
  have hc : inv.cause ≠ .ok := by
    intro hok
    rw [hok] at hm'
    cases hh : inv.handler <;> rw [hh] at hm' <;> cases hm'
  obtain ⟨sig, hs, hb⟩ := (reports_iff (hp.log inv hi) hc).2 hm'
  rcases run_told Rpc.body now σ t inv hi sig hb with he | ⟨todo, hf, -⟩
  · exact hc (ha inv sig he hs)
  · have hf' : Frame.run (some inv) todo ∈ s.stack := hf
    rw [hst] at hf'
    cases hf'

/-- A connected client asks for Free Run; the daemon rejects it. -/
def rejectedStart : List (Lbl Rpc) :=
  [.call .socketConnected, .tick 0, .ret, .tick 0, .ret, .tick 0, .ret, .tick 0, .call Rpc.freeRunStart.op,
   .call (.line (some (ofList [("id", .string "1"), ("ok", .bool false),
     ("error", .object (ofList [("code", .int (-1)), ("message", .string "Free Run configuration failed")]))]))),
   .tick 0, .ret, .tick 0, .tick 0]

/-- The states of Free Run that were shown, with the cause of the invocation
each comes from. -/
def shownRunning (s : State Rpc) : List (Option Cause × Bool) :=
  s.emitted.filterMap fun e =>
    match e.2 with
    | .freeRunChanged running _ => some (e.1.map (·.cause), running)
    | _ => none

/-- **A rejected start is shown as running.** -/
theorem rejected_start_running :
    shownRunning (trace (step Rpc.body) (initial 0) (sched rejectedStart .ret) 14) = [(some .rejected, true)] ∧
      ¬ Acknowledged (trace (step Rpc.body) (initial 0) (sched rejectedStart .ret) 14) := by
  have hshown : shownRunning (trace (step Rpc.body) (initial 0) (sched rejectedStart .ret) 14) =
      [(some .rejected, true)] := by
    decide +kernel
  refine ⟨hshown, ?_⟩
  intro ha
  have hmem : (some Cause.rejected, true) ∈
      shownRunning (trace (step Rpc.body) (initial 0) (sched rejectedStart .ret) 14) := by
    rw [hshown]
    exact List.mem_singleton.2 rfl
  obtain ⟨⟨caller, sig⟩, he, hsig⟩ := List.mem_filterMap.1 hmem
  cases sig with
  | freeRunChanged running status =>
    obtain ⟨hcause, hrun⟩ := Prod.mk.inj (Option.some.inj hsig)
    cases caller with
    | none => cases hcause
    | some inv =>
      have hok := ha inv _ he hrun
      have hrej : inv.cause = .rejected := Option.some.inj hcause
      rw [hrej] at hok
      cases hok
  | _ => cases hsig

end NekoEcat.L4.Success
