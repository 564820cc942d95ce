import NekoEcat.L4Gui.Rpc
import NekoEcat.Core.Trace

/-!
# What a handler is told, and what it reports

Where the results handed to handlers come from, and which invocation a signal
comes from. Four paths tell a handler that its request failed. Three hand it
an object with the key `"error"`; the flush of the disconnected slot hands it
`{"code": -1, "message": "Connection lost"}`, which handlers that test for
`"error"` take for success.

* `prov_step`: results and signals have one of the known origins, always.
* `uniform_iff`: failures are delivered uniformly exactly as long as the
  disconnected slot finds no handler to call.
* `download_reported_lost`: a download reported as complete by the loss of
  the connection.
-/
namespace NekoEcat.L4.Delivery
open NekoEcat.Trace NekoEcat.QJson NekoEcat.L4.EcatClient

section
variable {H : Type}

/-- The result has the shape its cause makes. -/
def Delivered (inv : Invocation H) : Prop :=
  match inv.cause with
  | .ok => True
  | .connectionLost => inv.result = lostResult
  | _ => ∃ message code, inv.result = errorResult message code

variable (body : H → QJsonObject → List (Act H))

/-- Where an instruction comes from: a call of the client, which calls a
handler with the result of its cause and leaves the loss of the connection to
the flush, or the body of a handler that was called. -/
def InstrFrom (log : List (Invocation H)) (caller : Option (Invocation H)) (instr : Instr H) : Prop :=
  match caller with
  | none => ∀ inv, instr = .invoke inv → Delivered inv ∧ inv.cause ≠ .connectionLost
  | some inv => inv ∈ log ∧ ∃ act ∈ body inv.handler inv.result, instr = act.instr

structure Prov (s : State H) : Prop where
  log : ∀ inv ∈ s.log, Delivered inv
  emitted : ∀ inv sig, (some inv, sig) ∈ s.emitted →
    inv ∈ s.log ∧ Act.emit sig ∈ body inv.handler inv.result
  stack : ∀ caller todo, Frame.run caller todo ∈ s.stack → ∀ instr ∈ todo, InstrFrom body s.log caller instr

/-! ## Frames -/

theorem InstrFrom.mono {log log' : List (Invocation H)} (hl : log ⊆ log') {caller : Option (Invocation H)}
    {instr : Instr H} (h : InstrFrom body log caller instr) : InstrFrom body log' caller instr := by
  cases caller with
  | none => exact h
  | some inv => exact ⟨hl h.1, h.2⟩

/-- Handlers only emit and send. -/
theorem InstrFrom.caller_none {log : List (Invocation H)} {caller : Option (Invocation H)} {instr : Instr H}
    (h : InstrFrom body log caller instr) (he : ∀ sig, instr ≠ .emit sig)
    (hs : ∀ method params handler, instr ≠ .send method params handler) : caller = none := by
  cases caller with
  | none => rfl
  | some inv =>
    obtain ⟨-, act, -, hact⟩ := h
    cases act with
    | emit sig => exact absurd hact (he sig)
    | send method params handler => exact absurd hact (hs method params handler)

theorem not_invoke {log : List (Invocation H)} {instr : Instr H} (h : ∀ inv, instr ≠ .invoke inv) :
    InstrFrom body log none instr :=
  fun inv he => absurd he (h inv)

theorem delivered_error (k : Key) {cause : Cause} (hc : cause = .rejected ∨ cause = .timeout ∨ cause = .notConnected)
    (handler : H) (message : String) (code : Int) :
    Delivered ⟨k, cause, handler, errorResult message code⟩ ∧ cause ≠ .connectionLost := by
  rcases hc with rfl | rfl | rfl <;> exact ⟨⟨message, code, rfl⟩, by decide⟩

variable {body}

/-- A call that pushes instructions. -/
theorem push_prov {s : State H} (h : Prov body s) {todo : List (Instr H)}
    (ht : ∀ instr ∈ todo, InstrFrom body s.log none instr) : Prov body (push s todo) := by
  refine ⟨h.log, h.emitted, ?_⟩
  intro caller todo' hf
  rcases List.mem_cons.1 hf with he | hf
  · obtain ⟨rfl, rfl⟩ := Frame.run.inj he
    exact ht
  · exact h.stack caller todo' hf

/-- A step that touches neither the stack nor the ghosts. -/
theorem Prov.congr {s s' : State H} (h : Prov body s) (hl : s'.log = s.log) (he : s'.emitted = s.emitted)
    (hs : s'.stack = s.stack) : Prov body s' := by
  refine ⟨?_, ?_, ?_⟩
  · rw [hl]; exact h.log
  · rw [hl, he]; exact h.emitted
  · rw [hl, hs]; exact h.stack

theorem invokeTaken_from {s : State H} {log : List (Invocation H)} {id : String} {cause : Cause}
    {result : QJsonObject} (hd : ∀ handler, Delivered (⟨.accepted id, cause, handler, result⟩ : Invocation H) ∧
      cause ≠ .connectionLost) :
    ∀ instr ∈ invokeTaken s id cause result, InstrFrom body log none instr := by
  intro instr hi
  unfold invokeTaken at hi
  split at hi
  · obtain rfl := List.mem_singleton.1 hi
    intro inv he
    obtain rfl := Instr.invoke.inj he
    exact hd _
  · cases hi

theorem send_prov {s : State H} (h : Prov body s) (method : String) (params : QJsonObject) (handler : H) :
    Prov body (send s method params handler) := by
  unfold send
  split
  · exact h.congr rfl rfl rfl
  · have h' : Prov body { s with refused := s.refused + 1 } := h.congr rfl rfl rfl
    apply push_prov h'
    intro instr hi
    rcases List.mem_cons.1 hi with rfl | hi
    · exact not_invoke body fun inv => by simp
    · obtain rfl := List.mem_singleton.1 hi
      intro inv he
      obtain rfl := Instr.invoke.inj he
      exact delivered_error _ (.inr (.inr rfl)) _ _ _

theorem take_prov {s : State H} (h : Prov body s) (id : String) : Prov body (take s id) :=
  h.congr rfl rfl rfl

theorem handleLine_prov {s : State H} (h : Prov body s) (document : Option QJsonObject) :
    Prov body (handleLine s document) := by
  cases document with
  | none =>
    apply push_prov h
    intro instr hi
    obtain rfl := List.mem_singleton.1 hi
    exact not_invoke body fun inv => by simp
  | some object =>
    simp only [handleLine]
    split
    · refine push_prov (take_prov h _) (invokeTaken_from fun handler => ⟨?_, by decide⟩)
      trivial
    · apply push_prov (take_prov h _)
      intro instr hi
      rcases List.mem_cons.1 hi with rfl | hi
      · exact not_invoke body fun inv => by simp
      · exact invokeTaken_from (fun _ => delivered_error _ (.inl rfl) _ _ _) instr hi

theorem call_prov {s : State H} (h : Prov body s) (op : Op H) : Prov body (call s op) := by
  have hpush : ∀ todo : List (Instr H), (∀ instr ∈ todo, ∀ inv, instr ≠ .invoke inv) → Prov body (push s todo) :=
    fun todo ht => push_prov h fun instr hi => not_invoke body (ht instr hi)
  cases op with
  | send method params handler => exact send_prov h method params handler
  | line document => exact handleLine_prov h document
  | sweep => exact hpush _ (by simp)
  | socketConnected => exact hpush _ (by simp)
  | socketDisconnected => exact hpush _ (by simp)
  | setConnectionState state => exact hpush _ (by simp)
  | setMasterTarget target =>
    simp only [call, setMasterTarget]
    exact h.congr rfl rfl rfl
  | setRequestTimeout ms => exact h.congr rfl rfl rfl

/-! ## Instructions -/

/-- The instruction on top is replaced by others of the same caller. -/
theorem next_prov {s : State H} (h : Prov body s) {caller : Option (Invocation H)} {instr : Instr H}
    {rest : List (Instr H)} {stack : List (Frame H)} (hs : s.stack = .run caller (instr :: rest) :: stack)
    {todo : List (Instr H)} (ht : ∀ i ∈ todo, InstrFrom body s.log caller i) :
    Prov body { s with stack := .run caller (todo ++ rest) :: stack } := by
  refine ⟨h.log, h.emitted, ?_⟩
  intro caller' todo' hf i hi
  have hold := h.stack
  rw [hs] at hold
  rcases List.mem_cons.1 hf with he | hf
  · obtain ⟨rfl, rfl⟩ := Frame.run.inj he
    rcases List.mem_append.1 hi with hi | hi
    · exact ht i hi
    · exact hold caller' _ List.mem_cons_self i (List.mem_cons_of_mem _ hi)
  · exact hold caller' todo' (List.mem_cons_of_mem _ hf) i hi

theorem emit_prov {s : State H} (h : Prov body s) {caller : Option (Invocation H)} {sig : Signal}
    (hc : ∀ inv, caller = some inv → inv ∈ s.log ∧ Act.emit sig ∈ body inv.handler inv.result) :
    Prov body (emitSignal s caller sig) := by
  refine ⟨h.log, ?_, ?_⟩
  · intro inv sig' he
    rcases List.mem_append.1 he with he | he
    · exact h.emitted inv sig' he
    · obtain ⟨rfl, rfl⟩ := Prod.mk.inj (List.mem_singleton.1 he)
      exact hc inv rfl
  · intro caller' todo hf
    rcases List.mem_cons.1 hf with hf | hf
    · cases hf
    · exact h.stack caller' todo hf

theorem invoke_prov {s : State H} (h : Prov body s) {inv : Invocation H} (hd : Delivered inv) :
    Prov body (invoke body s inv) := by
  have hlog : s.log ⊆ s.log ++ [inv] := List.subset_append_left ..
  refine ⟨?_, ?_, ?_⟩
  · intro inv' hi
    rcases List.mem_append.1 hi with hi | hi
    · exact h.log inv' hi
    · obtain rfl := List.mem_singleton.1 hi
      exact hd
  · intro inv' sig he
    obtain ⟨h1, h2⟩ := h.emitted inv' sig he
    exact ⟨hlog h1, h2⟩
  · intro caller todo hf i hi
    rcases List.mem_cons.1 hf with he | hf
    · obtain ⟨rfl, rfl⟩ := Frame.run.inj he
      obtain ⟨act, ha, rfl⟩ := List.mem_map.1 hi
      exact ⟨List.mem_append_right _ (List.mem_singleton.2 rfl), act, ha, rfl⟩
    · exact (h.stack caller todo hf i hi).mono body hlog

theorem execInstr_prov {s : State H} (h : Prov body s) {caller : Option (Invocation H)} {instr : Instr H}
    {rest : List (Instr H)} {stack : List (Frame H)} (hs : s.stack = .run caller (instr :: rest) :: stack)
    (i : Nat) : Prov body (execInstr body s caller instr rest stack i) := by
  have hfrom : InstrFrom body s.log caller instr :=
    h.stack caller (instr :: rest) (by rw [hs]; exact List.mem_cons_self) instr List.mem_cons_self
  have hnext := fun (todo : List (Instr H)) (ht : ∀ i ∈ todo, InstrFrom body s.log caller i) =>
    next_prov h hs ht
  have hnil : Prov body { s with stack := .run caller ([] ++ rest) :: stack } := hnext [] fun _ hi => by cases hi
  cases instr with
  | emit sig =>
    apply emit_prov hnil
    intro inv hc
    subst hc
    obtain ⟨hl, act, ha, he⟩ := hfrom
    cases act with
    | emit sig' =>
      obtain rfl := Instr.emit.inj he
      exact ⟨hl, ha⟩
    | send method params handler => cases he
  | setConnectionState state =>
    obtain rfl := hfrom.caller_none body (by simp) (by simp)
    simp only [execInstr]
    split
    · exact hnil
    · refine emit_prov ?_ fun inv hc => by cases hc
      exact hnil.congr rfl rfl rfl
  | send method params handler => exact send_prov hnil method params handler
  | invoke inv =>
    obtain rfl := hfrom.caller_none body (by simp) (by simp)
    exact invoke_prov hnil (hfrom inv rfl).1
  | sweep timedOut =>
    obtain rfl := hfrom.caller_none body (by simp) (by simp)
    simp only [execInstr]
    split
    · refine take_prov (hnext _ ?_) _
      intro instr hi
      rcases List.mem_append.1 hi with hi | hi
      · rcases List.mem_cons.1 hi with rfl | hi
        · exact not_invoke body fun inv => by simp
        · exact invokeTaken_from (fun _ => delivered_error _ (.inr (.inl rfl)) _ _ _) instr hi
      · obtain rfl := List.mem_singleton.1 hi
        exact not_invoke body fun inv => by simp
    · split
      · exact hnil
      · exact h
  | swap =>
    obtain rfl := hfrom.caller_none body (by simp) (by simp)
    refine Prov.congr (hnext [.flush s.handlers] ?_) rfl rfl rfl
    intro instr hi
    obtain rfl := List.mem_singleton.1 hi
    exact not_invoke body fun inv => by simp
  | flush pending =>
    obtain rfl := hfrom.caller_none body (by simp) (by simp)
    simp only [execInstr]
    split
    · refine invoke_prov (hnext _ ?_) rfl
      intro instr hi
      obtain rfl := List.mem_singleton.1 hi
      exact not_invoke body fun inv => by simp
    · split
      · exact hnil
      · exact h

/-- **Where results and signals come from**: every step keeps it. -/
theorem prov_step {s : State H} (h : Prov body s) (l : Lbl H) : Prov body (step body s l) := by
  have hpop : ∀ frame stack, s.stack = frame :: stack → Prov body { s with stack := stack } := by
    intro frame stack hs
    refine ⟨h.log, h.emitted, ?_⟩
    intro caller todo hf
    exact h.stack caller todo (by rw [hs]; exact List.mem_cons_of_mem _ hf)
  cases l with
  | call op =>
    simp only [step]
    split
    · exact call_prov h op
    · exact call_prov h op
    · exact h
  | ret =>
    simp only [step]
    split
    · rename_i stack hs
      exact hpop _ stack hs
    · exact h
  | tick i =>
    simp only [step]
    split
    · rename_i caller stack hs
      exact hpop _ stack hs
    · rename_i hs
      exact execInstr_prov h hs i
    · exact h
  | time now => exact h.congr rfl rfl rfl

theorem prov_initial (now : Int) : Prov body (initial now) := by
  constructor <;> simp [initial]

theorem run_prov (now : Int) (σ : Nat → Lbl H) (t : Nat) : Prov body (trace (step body) (initial now) σ t) :=
  trace_inv (step body) (initial now) σ (prov_initial now) (fun _ l h => prov_step h l) t

/-! ## The flush of the disconnected slot -/

/-- The disconnected slot is about to call a handler it swapped out. -/
def flushCalls (s : State H) : Lbl H → Bool
  | .tick i =>
    match s.stack with
    | .run _ (.flush pending :: _) :: _ => decide (i < pending.length)
    | _ => false
  | _ => false

theorem send_log (s : State H) (method : String) (params : QJsonObject) (handler : H) :
    (send s method params handler).log = s.log := by
  unfold send; split <;> rfl

theorem call_log (s : State H) (op : Op H) : (call s op).log = s.log := by
  cases op with
  | send method params handler => exact send_log s method params handler
  | line document =>
    cases document with
    | none => rfl
    | some object => simp only [call, handleLine]; split <;> rfl
  | setMasterTarget target => simp only [call, setMasterTarget]
  | _ => rfl

/-- The next invocation is one of a lost connection exactly in that step. -/
theorem step_log {s : State H} (h : Prov body s) (l : Lbl H) :
    (flushCalls s l = true ∧ ∃ inv, inv.cause = .connectionLost ∧ (step body s l).log = s.log ++ [inv]) ∨
    (flushCalls s l = false ∧ ((step body s l).log = s.log ∨
      ∃ inv, inv.cause ≠ .connectionLost ∧ (step body s l).log = s.log ++ [inv])) := by
  cases l with
  | call op =>
    refine .inr ⟨rfl, .inl ?_⟩
    simp only [step]
    split
    · exact call_log s op
    · exact call_log s op
    · rfl
  | ret => refine .inr ⟨rfl, .inl ?_⟩; simp only [step]; split <;> rfl
  | time now => exact .inr ⟨rfl, .inl rfl⟩
  | tick i =>
    cases hs : s.stack with
    | nil => exact .inr ⟨by simp only [flushCalls, hs], .inl (by simp only [step, hs])⟩
    | cons frame stack =>
      cases frame with
      | slots => exact .inr ⟨by simp only [flushCalls, hs], .inl (by simp only [step, hs])⟩
      | run caller todo =>
        cases todo with
        | nil => exact .inr ⟨by simp only [flushCalls, hs], .inl (by simp only [step, hs])⟩
        | cons instr rest =>
          have hfrom : InstrFrom body s.log caller instr :=
            h.stack caller (instr :: rest) (by rw [hs]; exact List.mem_cons_self) instr List.mem_cons_self
          simp only [step, flushCalls, hs]
          cases instr with
          | emit sig => exact .inr ⟨rfl, .inl rfl⟩
          | setConnectionState state =>
            refine .inr ⟨rfl, .inl ?_⟩
            simp only [execInstr]
            split <;> rfl
          | send method params handler => exact .inr ⟨rfl, .inl (send_log _ method params handler)⟩
          | invoke inv =>
            obtain rfl := hfrom.caller_none body (by simp) (by simp)
            exact .inr ⟨rfl, .inr ⟨inv, (hfrom inv rfl).2, rfl⟩⟩
          | sweep timedOut =>
            refine .inr ⟨rfl, .inl ?_⟩
            simp only [execInstr]
            split
            · rfl
            · split <;> rfl
          | swap => exact .inr ⟨rfl, .inl rfl⟩
          | flush pending =>
            by_cases hi : i < pending.length
            · refine .inl ⟨by simp [hi],
                ⟨.accepted pending[i].1, .connectionLost, pending[i].2, lostResult⟩, rfl, ?_⟩
              simp only [execInstr, List.getElem?_eq_getElem hi]
              rfl
            · refine .inr ⟨by simp [hi], .inl ?_⟩
              simp only [execInstr, List.getElem?_eq_none (Nat.le_of_not_lt hi)]
              split <;> rfl

/-- No handler was called for a lost connection as long as the flush found
none. -/
theorem lost_iff (now : Int) (σ : Nat → Lbl H) (t : Nat) :
    (∀ inv ∈ (trace (step body) (initial now) σ t).log, inv.cause ≠ .connectionLost) ↔
      ∀ m, m < t → flushCalls (trace (step body) (initial now) σ m) (σ m) = false := by
  induction t with
  | zero => simp [initial]
  | succ t ih =>
    have hsplit : (∀ m, m < t + 1 → flushCalls (trace (step body) (initial now) σ m) (σ m) = false) ↔
        (∀ m, m < t → flushCalls (trace (step body) (initial now) σ m) (σ m) = false) ∧
          flushCalls (trace (step body) (initial now) σ t) (σ t) = false := by
      constructor
      · intro h
        exact ⟨fun m hm => h m (Nat.lt_succ_of_lt hm), h t (Nat.lt_succ_self t)⟩
      · intro ⟨h1, h2⟩ m hm
        rcases Nat.lt_succ_iff_lt_or_eq.1 hm with hm | rfl
        · exact h1 m hm
        · exact h2
    rw [hsplit, ← ih, trace_succ]
    rcases step_log (run_prov now σ t) (σ t) with ⟨hf, inv, hc, hl⟩ | ⟨hf, hl | ⟨inv, hc, hl⟩⟩
    · rw [hl, hf]
      simp [hc]
    · rw [hl, hf]
      simp
    · rw [hl, hf]
      simp [or_imp, forall_and, hc]

end

/-! ## Uniform failures -/

theorem contains_errorResult (message : String) (code : Int) :
    contains (errorResult message code) "error" = true := by
  refine contains_insert_of_contains _ _ (contains_insert_of_contains _ _ ?_)
  exact contains_insert_self _ _ _

theorem contains_lostResult : contains lostResult "error" = false := by decide

/-- The handlers that test their result for `"error"`. -/
def testsError : Rpc → Bool
  | .upload .. => true
  | .download .. => true
  | .setState .. => true
  | .setAllStates _ => true
  | _ => false

/-- They do nothing with a result that has it. -/
theorem body_of_error {r : Rpc} (hr : testsError r = true) {result : QJsonObject}
    (h : contains result "error" = true) : r.body result = [] := by
  cases r with
  | upload position index subIndex => exact if_pos h
  | download position index subIndex value type => exact if_pos h
  | setState position state => exact if_pos h
  | setAllStates state => exact if_pos h
  | _ => cases hr

/-- Every handler told of a failure was handed an object with the key
`"error"`, and a handler that tests for it reported something only for a
request the daemon acknowledged. -/
def Uniform (s : State Rpc) : Prop :=
  (∀ inv ∈ s.log, inv.cause ≠ .ok → contains inv.result "error" = true) ∧
  ∀ inv sig, (some inv, sig) ∈ s.emitted → testsError inv.handler = true → inv.cause = .ok

theorem uniform_of_prov {s : State Rpc} (h : Prov Rpc.body s) :
    Uniform s ↔ ∀ inv ∈ s.log, inv.cause ≠ .connectionLost := by
  constructor
  · intro hu inv hi hc
    have hd := h.log inv hi
    have he := hu.1 inv hi (by rw [hc]; decide)
    rw [Delivered, hc] at hd
    rw [hd, contains_lostResult] at he
    cases he
  · intro hl
    have herr : ∀ inv ∈ s.log, inv.cause ≠ .ok → contains inv.result "error" = true := by
      intro inv hi hc
      have hd := h.log inv hi
      have hne := hl inv hi
      unfold Delivered at hd
      split at hd
      · rename_i hok; exact absurd hok hc
      · rename_i hlost; exact absurd hlost hne
      · obtain ⟨message, code, hr⟩ := hd
        rw [hr]
        exact contains_errorResult message code
    refine ⟨herr, ?_⟩
    intro inv sig he ht
    obtain ⟨hi, hb⟩ := h.emitted inv sig he
    by_contra hc
    rw [body_of_error ht (herr inv hi hc)] at hb
    cases hb

/-- **When failures are delivered uniformly, exactly.** In every run, at every
moment: until then the disconnected slot has found no handler to call. -/
theorem uniform_iff (now : Int) (σ : Nat → Lbl Rpc) (t : Nat) :
    Uniform (trace (step Rpc.body) (initial now) σ t) ↔
      ∀ m, m < t → flushCalls (trace (step Rpc.body) (initial now) σ m) (σ m) = false :=
  (uniform_of_prov (run_prov now σ t)).trans (lost_iff now σ t)

/-! ## A download reported by the loss of the connection -/

/-- A client that is connected downloads an SDO; the connection drops. -/
def dropDuringDownload : List (Lbl Rpc) :=
  [.call .socketConnected, .tick 0, .ret, .tick 0, .ret, .tick 0, .ret, .tick 0,
   .call (Rpc.download 1 "0x6040" "0x00" "6" "uint16").op,
   .call .socketDisconnected, .tick 0, .ret, .tick 0, .tick 0, .tick 0]

/-- The messages of `commandSucceeded`, with the cause of the invocation each
comes from. -/
def succeeded (s : State Rpc) : List (Option Cause × String) :=
  s.emitted.filterMap fun e =>
    match e.2 with
    | .commandSucceeded message => some (e.1.map (·.cause), message)
    | _ => none

/-- **The lost download is reported as complete.** -/
theorem download_reported_lost :
    succeeded (trace (step Rpc.body) (initial 0) (sched dropDuringDownload .ret) 15) =
        [(some .connectionLost, "SDO download complete #1: 0x6040:0x00")] ∧
      ¬ Uniform (trace (step Rpc.body) (initial 0) (sched dropDuringDownload .ret) 15) := by
  have hlog : (trace (step Rpc.body) (initial 0) (sched dropDuringDownload .ret) 15).log.all
      (fun inv => inv.cause == .ok || contains inv.result "error") = false := by
    decide +kernel
  refine ⟨by decide +kernel, ?_⟩
  intro hu
  have hall : (trace (step Rpc.body) (initial 0) (sched dropDuringDownload .ret) 15).log.all
      (fun inv => inv.cause == .ok || contains inv.result "error") = true := by
    apply List.all_eq_true.2
    intro inv hi
    by_cases hc : inv.cause = .ok
    · simp [hc]
    · simp [hu.1 inv hi hc]
  rw [hall] at hlog
  cases hlog

end NekoEcat.L4.Delivery
