import NekoEcat.L4Gui.EcatClient
import NekoEcat.Core.Trace
import Mathlib.Data.List.Perm.Basic

/-!
# Request handlers run exactly once

A request's handler is a token: it waits in `handlers_`, or a suspended call
has taken it out and will call it, or it has been called. Every step moves the
token or leaves it, whatever foreign code does in between; a send makes one.

* `call_inv`, `execInstr_inv`: no call and no instruction loses or doubles a
  token.
* `inv_step`: nor does a step.
* `handlers_run_exactly_once`: what it says of every run.
-/
namespace NekoEcat.L4.ExactlyOnce
open NekoEcat.Trace NekoEcat.QJson NekoEcat.L4.EcatClient

section
variable {H : Type}

/-- How often the request's handler was called. -/
def invocations (s : State H) (k : Key) : Nat := s.log.countP fun inv => inv.key == k

/-- The request's entries in `handlers_`. -/
def waiting (hs : List (String × H)) : Key → Nat
  | .accepted id => hs.countP fun e => e.1 == id
  | .refused _ => 0

/-- The calls of the request's handler an instruction stands for. -/
def heldInstr (k : Key) : Instr H → Nat
  | .invoke inv => if inv.key = k then 1 else 0
  | .flush pending => waiting pending k
  | _ => 0

def heldTodo (k : Key) (todo : List (Instr H)) : Nat := (todo.map (heldInstr k)).sum

def heldFrame (k : Key) : Frame H → Nat
  | .slots => 0
  | .run _ todo => heldTodo k todo

/-- The calls of the request's handler that suspended calls still have to
make. -/
def held (stack : List (Frame H)) (k : Key) : Nat := (stack.map (heldFrame k)).sum

def total (s : State H) (k : Key) : Nat := invocations s k + waiting s.handlers k + held s.stack k

/-- The request was made: accepted under that id, or refused. -/
def Issued (s : State H) : Key → Prop
  | .accepted id => ∃ n, 1 ≤ n ∧ n < s.nextId ∧ id = number n
  | .refused n => n < s.refused

structure Inv (s : State H) : Prop where
  pos : 1 ≤ s.nextId
  one : ∀ k, Issued s k → total s k = 1
  none : ∀ k, ¬ Issued s k → total s k = 0
  keys : s.handlers.map (·.1) = s.requestTimestamps.map (·.1)

theorem number_inj {n m : Nat} (h : number n = number m) : n = m := by
  have hd := congrArg (Nat.ofDigitChars 10 · 0) (String.ofList_injective h)
  simpa only [Nat.ofDigitChars_ten_toDigits] using hd

/-! ## Counting -/

@[simp] theorem heldTodo_nil (k : Key) : heldTodo (H := H) k [] = 0 := rfl

@[simp] theorem heldTodo_cons (k : Key) (instr : Instr H) (todo : List (Instr H)) :
    heldTodo k (instr :: todo) = heldInstr k instr + heldTodo k todo := by
  simp [heldTodo]

@[simp] theorem heldTodo_append (k : Key) (l₁ l₂ : List (Instr H)) :
    heldTodo k (l₁ ++ l₂) = heldTodo k l₁ + heldTodo k l₂ := by
  simp [heldTodo]

/-- The body of a handler holds no other handler. -/
@[simp] theorem heldTodo_instr (k : Key) (acts : List (Act H)) : heldTodo k (acts.map Act.instr) = 0 := by
  induction acts with
  | nil => rfl
  | cons a acts ih =>
    rw [List.map_cons, heldTodo_cons, ih]
    cases a <;> rfl

@[simp] theorem held_slots (stack : List (Frame H)) (k : Key) : held (.slots :: stack) k = held stack k := by
  simp [held, heldFrame]

@[simp] theorem held_run (caller : Option (Invocation H)) (todo : List (Instr H)) (stack : List (Frame H))
    (k : Key) : held (.run caller todo :: stack) k = heldTodo k todo + held stack k := by
  simp [held, heldFrame]

@[simp] theorem waiting_nil (k : Key) : waiting ([] : List (String × H)) k = 0 := by
  cases k <;> rfl

theorem waiting_remove (hs : List (String × H)) (id : String) (k : Key) :
    waiting (hashRemove hs id) k = if k = .accepted id then 0 else waiting hs k := by
  cases k with
  | refused n => simp [waiting]
  | accepted id' =>
    simp only [waiting, hashRemove, List.countP_filter, Key.accepted.injEq]
    split
    · rename_i h
      subst h
      apply List.countP_eq_zero.2
      intro e _
      simp
    · rename_i h
      apply List.countP_congr
      intro e _
      simp only [Bool.and_eq_true, beq_iff_eq, bne_iff_ne, ne_eq, and_iff_left_iff_imp]
      intro he
      rw [he]; exact h

theorem waiting_insert (hs : List (String × H)) (id : String) (h : H) (k : Key) :
    waiting (hashInsert hs id h) k = if k = .accepted id then 1 else waiting hs k := by
  cases k with
  | refused n => simp [waiting]
  | accepted id' =>
    have hr := waiting_remove hs id (.accepted id')
    simp only [waiting, hashInsert, List.countP_cons, Key.accepted.injEq, beq_iff_eq] at hr ⊢
    rw [hr]
    by_cases he : id = id'
    · simp [he]
    · simp [he, Ne.symm he]

/-- The handler that waits for an id, if one does. -/
theorem waiting_lookup {hs : List (String × H)} {id : String} (h : waiting hs (.accepted id) ≤ 1) :
    waiting hs (.accepted id) = if (hs.lookup id).isSome then 1 else 0 := by
  induction hs with
  | nil => rfl
  | cons e hs ih =>
    obtain ⟨id', x⟩ := e
    simp only [waiting, List.countP_cons, List.lookup_cons] at h ih ⊢
    by_cases he : id' = id
    · subst he
      simp at h ⊢
      simpa using h
    · have he' : (id == id') = false := by simpa using fun hc => he hc.symm
      simp only [he', beq_iff_eq, he, if_false, Nat.add_zero] at h ⊢
      exact ih h

/-- Taking a handler out moves its token into the call that takes it. -/
theorem waiting_take (s : State H) {id : String} (h : waiting s.handlers (.accepted id) ≤ 1) (cause : Cause)
    (result : QJsonObject) (k : Key) :
    waiting (take s id).handlers k + heldTodo k (invokeTaken s id cause result) = waiting s.handlers k := by
  have hw := waiting_lookup h
  simp only [take, waiting_remove, invokeTaken]
  cases hl : s.handlers.lookup id with
  | none =>
    simp only [hl, Option.isSome_none, Bool.false_eq_true, if_false] at hw
    split
    · rename_i hk; subst hk; simp [hw]
    · simp
  | some handler =>
    simp only [hl, Option.isSome_some, if_true] at hw
    simp only [heldTodo_cons, heldTodo_nil, heldInstr]
    split
    · rename_i hk; subst hk; simp [hw]
    · rename_i hk
      simp [Ne.symm hk]

/-- The loop over the swapped handlers takes them one by one. -/
theorem waiting_erase {pending : List (String × H)} {i : Nat} {id : String} {handler : H}
    (h : pending[i]? = some (id, handler)) (k : Key) :
    (if Key.accepted id = k then 1 else 0) + waiting (pending.eraseIdx i) k = waiting pending k := by
  obtain ⟨hi, he⟩ := List.getElem?_eq_some_iff.1 h
  cases k with
  | refused n => simp [waiting]
  | accepted id' =>
    have hp := (List.getElem_cons_eraseIdx_perm hi).countP_eq fun e => e.1 == id'
    simp only [waiting, ← hp, List.countP_cons, he, beq_iff_eq, Key.accepted.injEq]
    omega

/-! ## Calls -/

theorem Inv.total_le {s : State H} (h : Inv s) (k : Key) : total s k ≤ 1 := by
  by_cases hk : Issued s k
  · exact Nat.le_of_eq (h.one k hk)
  · rw [h.none k hk]; exact Nat.zero_le _

theorem Inv.waiting_le {s : State H} (h : Inv s) (k : Key) : waiting s.handlers k ≤ 1 := by
  have ht := h.total_le k
  unfold total at ht
  omega

/-- A step that makes no request and keeps every token keeps the invariant. -/
theorem Inv.of_total {s s' : State H} (h : Inv s) (hn : s'.nextId = s.nextId) (hr : s'.refused = s.refused)
    (ht : ∀ k, total s' k = total s k) (hk : s'.handlers.map (·.1) = s'.requestTimestamps.map (·.1)) :
    Inv s' := by
  have hi : ∀ k, Issued s' k ↔ Issued s k := by
    intro k
    cases k <;> simp only [Issued, hn, hr]
  refine ⟨by rw [hn]; exact h.pos, ?_, ?_, hk⟩
  · intro k hk'
    rw [ht k]; exact h.one k ((hi k).1 hk')
  · intro k hk'
    rw [ht k]; exact h.none k fun hc => hk' ((hi k).2 hc)

/-- A step that touches no token. -/
theorem Inv.congr {s s' : State H} (h : Inv s) (hn : s'.nextId = s.nextId) (hr : s'.refused = s.refused)
    (hl : s'.log = s.log) (hh : s'.handlers = s.handlers) (ht : s'.requestTimestamps = s.requestTimestamps)
    (hs : s'.stack = s.stack) : Inv s' := by
  refine h.of_total hn hr ?_ (by rw [hh, ht]; exact h.keys)
  intro k
  simp only [total, invocations, hl, hh, hs]

theorem keys_remove {α β : Type} {l₁ : List (String × α)} {l₂ : List (String × β)}
    (h : l₁.map (·.1) = l₂.map (·.1)) (id : String) :
    (hashRemove l₁ id).map (·.1) = (hashRemove l₂ id).map (·.1) := by
  have hm : ∀ {γ : Type} (l : List (String × γ)),
      (hashRemove l id).map (·.1) = (l.map (·.1)).filter fun k => k != id := by
    intro γ l
    rw [List.filter_map]; rfl
  rw [hm, hm, h]

theorem push_total (s : State H) (todo : List (Instr H)) (k : Key) :
    total (push s todo) k = total s k + heldTodo k todo := by
  simp only [total, push, held_run, invocations]
  omega

/-- A call that only pushes instructions which hold no handler. -/
theorem push_inv {s : State H} (h : Inv s) {todo : List (Instr H)} (ht : ∀ k, heldTodo k todo = 0) :
    Inv (push s todo) :=
  h.of_total rfl rfl (fun k => by rw [push_total, ht k, Nat.add_zero]) h.keys

/-- A call that takes the handler of `id` out to call it. -/
theorem take_inv {s : State H} (h : Inv s) (id : String) {todo : List (Instr H)} {cause : Cause}
    {result : QJsonObject} (ht : ∀ k, heldTodo k todo = heldTodo k (invokeTaken s id cause result)) :
    Inv (push (take s id) todo) := by
  refine h.of_total rfl rfl ?_ (keys_remove h.keys id)
  intro k
  have hw := waiting_take s (h.waiting_le (.accepted id)) cause result k
  rw [push_total, ht k]
  simp only [total, take, invocations] at hw ⊢
  omega

theorem handleLine_inv {s : State H} (h : Inv s) (document : Option QJsonObject) :
    Inv (handleLine s document) := by
  cases document with
  | none => exact push_inv h fun k => rfl
  | some object =>
    simp only [handleLine]
    split
    · exact take_inv h _ fun k => rfl
    · exact take_inv h _ fun k => (heldTodo_cons ..).trans (Nat.zero_add _)

/-- A step that makes one request, with a token of its own. -/
theorem Inv.add_token {s s' : State H} (h : Inv s) (k₀ : Key) (hpos : 1 ≤ s'.nextId) (hf : ¬ Issued s k₀)
    (hi : ∀ k, Issued s' k ↔ k = k₀ ∨ Issued s k)
    (ht : ∀ k, total s' k = if k = k₀ then total s k + 1 else total s k)
    (hk : s'.handlers.map (·.1) = s'.requestTimestamps.map (·.1)) : Inv s' := by
  refine ⟨hpos, ?_, ?_, hk⟩
  · intro k hk'
    rw [ht]
    by_cases he : k = k₀
    · subst he
      rw [if_pos rfl, h.none k hf]
    · rw [if_neg he]
      exact h.one k (((hi k).1 hk').resolve_left he)
  · intro k hk'
    have hn := mt (hi k).2 hk'
    rw [not_or] at hn
    rw [ht, if_neg hn.1, h.none k hn.2]

/-- An accepted request gets an id no token has; a refused one a new number. -/
theorem send_inv {s : State H} (h : Inv s) (method : String) (params : QJsonObject) (handler : H) :
    Inv (send s method params handler) := by
  unfold send
  split
  · have hf : ¬ Issued s (.accepted (number s.nextId)) := by
      intro ⟨n, _, hn, he⟩
      exact absurd (number_inj he) (Nat.ne_of_gt hn)
    refine h.add_token (.accepted (number s.nextId)) (Nat.le_succ_of_le h.pos) hf ?_ ?_
      (congrArg (number s.nextId :: ·) (keys_remove h.keys _))
    · intro k
      cases k with
      | refused n => simp [Issued]
      | accepted id =>
        simp only [Issued, Key.accepted.injEq]
        constructor
        · intro ⟨n, h1, h2, he⟩
          by_cases hlast : n = s.nextId
          · exact .inl (hlast ▸ he)
          · exact .inr ⟨n, h1, by omega, he⟩
        · intro ho
          rcases ho with he | ⟨n, h1, h2, he⟩
          · exact ⟨s.nextId, h.pos, Nat.lt_succ_self _, he⟩
          · exact ⟨n, h1, Nat.lt_succ_of_lt h2, he⟩
    · intro k
      have h0 := h.none _ hf
      simp only [total, invocations, waiting_insert] at h0 ⊢
      by_cases he : k = .accepted (number s.nextId)
      · subst he
        simp only [if_true]
        omega
      · simp only [he, if_false]
  · refine h.add_token (.refused s.refused) h.pos (Nat.lt_irrefl _) ?_ ?_ h.keys
    · intro k
      cases k with
      | accepted id => simp [Issued, push]
      | refused n =>
        simp only [Issued, push, Key.refused.injEq]
        omega
    · intro k
      rw [push_total]
      simp only [total, invocations, heldTodo_cons, heldTodo_nil, heldInstr, eq_comm (a := k)]
      split <;> omega

theorem call_inv {s : State H} (h : Inv s) (op : Op H) : Inv (call s op) := by
  cases op with
  | send method params handler => exact send_inv h method params handler
  | line document => exact handleLine_inv h document
  | sweep => exact push_inv h fun k => rfl
  | socketConnected => exact push_inv h fun k => rfl
  | socketDisconnected => exact push_inv h fun k => rfl
  | setConnectionState state => exact push_inv h fun k => rfl
  | setMasterTarget target =>
    simp only [call, setMasterTarget]
    exact h.congr rfl rfl rfl rfl rfl rfl
  | setRequestTimeout ms => exact h.congr rfl rfl rfl rfl rfl rfl

/-! ## Instructions -/

variable (body : H → QJsonObject → List (Act H))

/-- The instruction on top is replaced by others that hold the same handlers. -/
theorem next_inv {s : State H} (h : Inv s) {caller : Option (Invocation H)} {instr : Instr H}
    {rest : List (Instr H)} {stack : List (Frame H)} (hs : s.stack = .run caller (instr :: rest) :: stack)
    {todo : List (Instr H)} (ht : ∀ k, heldTodo k todo = heldInstr k instr) :
    Inv { s with stack := .run caller (todo ++ rest) :: stack } := by
  refine h.of_total rfl rfl ?_ h.keys
  intro k
  simp only [total, invocations, hs, held_run, heldTodo_append, heldTodo_cons, ht k]

theorem emit_inv {s : State H} (h : Inv s) (caller : Option (Invocation H)) (sig : Signal) :
    Inv (emitSignal s caller sig) :=
  h.of_total rfl rfl (fun k => by simp only [total, emitSignal, invocations, held_slots]) h.keys

/-- The call of a handler: the token moves from the instruction to the log. -/
theorem invoke_inv {s : State H} (h : Inv s) {caller : Option (Invocation H)} {instr : Instr H}
    {rest : List (Instr H)} {stack : List (Frame H)} (hs : s.stack = .run caller (instr :: rest) :: stack)
    {todo : List (Instr H)} {inv : Invocation H}
    (ht : ∀ k, (if inv.key = k then 1 else 0) + heldTodo k todo = heldInstr k instr) :
    Inv (invoke body { s with stack := .run caller (todo ++ rest) :: stack } inv) := by
  refine h.of_total rfl rfl ?_ h.keys
  intro k
  have hk := ht k
  simp only [total, invoke, invocations, hs, held_run, heldTodo_append, heldTodo_cons, heldTodo_instr,
    List.countP_append, List.countP_singleton, beq_iff_eq]
  omega

theorem execInstr_inv {s : State H} (h : Inv s) {caller : Option (Invocation H)} {instr : Instr H}
    {rest : List (Instr H)} {stack : List (Frame H)} (hs : s.stack = .run caller (instr :: rest) :: stack)
    (i : Nat) : Inv (execInstr body s caller instr rest stack i) := by
  cases instr with
  | emit sig => exact emit_inv (next_inv h hs fun k => rfl) caller sig
  | setConnectionState state =>
    have hn : Inv { s with stack := .run caller ([] ++ rest) :: stack } := next_inv h hs fun k => rfl
    simp only [execInstr]
    split
    · exact hn
    · refine emit_inv ?_ caller _
      exact hn.congr rfl rfl rfl rfl rfl rfl
  | send method params handler => exact send_inv (next_inv h hs fun k => rfl) method params handler
  | invoke inv => exact invoke_inv body h hs fun k => by rw [heldTodo_nil, heldInstr, Nat.add_zero]
  | sweep timedOut =>
    simp only [execInstr]
    split
    · rename_i id _
      refine h.of_total rfl rfl ?_ (keys_remove h.keys id)
      intro k
      have hw := waiting_take s (h.waiting_le (.accepted id)) .timeout
        (errorResult ("Request " ++ id ++ " timed out after " ++ toString s.requestTimeoutMs ++ "ms") (-1)) k
      simp only [total, take, invocations, hs, held_run, heldTodo_append, heldTodo_cons, heldTodo_nil,
        heldInstr] at hw ⊢
      omega
    · split
      · exact next_inv h hs fun k => rfl
      · exact h
  | swap =>
    refine h.of_total rfl rfl ?_ rfl
    intro k
    simp only [execInstr, total, invocations, hs, held_run, heldTodo_append, heldTodo_cons, heldTodo_nil, heldInstr,
      waiting_nil]
    omega
  | flush pending =>
    simp only [execInstr]
    split
    · rename_i id handler hi
      apply invoke_inv body h hs
      intro k
      rw [heldTodo_cons, heldTodo_nil, Nat.add_zero]
      exact waiting_erase hi k
    · split
      · rename_i hp
        apply next_inv h hs
        intro k
        rw [List.isEmpty_iff.1 hp]
        simp [heldInstr]
      · exact h

theorem inv_step {s : State H} (h : Inv s) (l : Lbl H) : Inv (step body s l) := by
  cases l with
  | call op =>
    simp only [step]
    split
    · exact call_inv h op
    · exact call_inv h op
    · exact h
  | ret =>
    simp only [step]
    split
    · rename_i stack hs
      exact h.of_total rfl rfl (fun k => by simp only [total, invocations, hs, held_slots]) h.keys
    · exact h
  | tick i =>
    simp only [step]
    split
    · rename_i caller stack hs
      exact h.of_total rfl rfl
        (fun k => by simp only [total, invocations, hs, held_run, heldTodo_nil, Nat.zero_add]) h.keys
    · rename_i hs
      exact execInstr_inv body h hs i
    · exact h
  | time now => exact h.congr rfl rfl rfl rfl rfl rfl

theorem inv_initial (now : Int) : Inv (initial (H := H) now) := by
  refine ⟨Nat.le_refl _, ?_, ?_, rfl⟩
  · intro k hk
    cases k with
    | accepted id =>
      obtain ⟨n, h1, h2, -⟩ := hk
      exact absurd h1 (Nat.not_le.2 h2)
    | refused n => exact absurd hk (Nat.not_lt_zero n)
  · intro k _
    simp [total, invocations, initial, held]

/-! ## Runs -/

theorem run_inv (now : Int) (σ : Nat → Lbl H) (t : Nat) : Inv (trace (step body) (initial now) σ t) :=
  trace_inv (step body) (initial now) σ (inv_initial now) (fun _ l h => inv_step body h l) t

/-- Whether the id is in `handlers_`. -/
def pending (s : State H) (id : String) : Prop := id ∈ s.handlers.map (·.1)

instance (s : State H) (id : String) : Decidable (pending s id) :=
  inferInstanceAs (Decidable (_ ∈ _))

/-- A token that waits is an id in `handlers_`. -/
theorem waiting_eq {s : State H} (h : Inv s) (id : String) :
    waiting s.handlers (.accepted id) = if pending s id then 1 else 0 := by
  have hle := h.waiting_le (.accepted id)
  have hpos : 0 < waiting s.handlers (.accepted id) ↔ pending s id := by
    simp [waiting, pending, List.countP_pos_iff]
  split
  · rename_i hp
    have := hpos.2 hp
    omega
  · rename_i hp
    have := mt hpos.1 hp
    omega

/-- A send numbers a request as refused only with a call that holds its
handler on top of the stack. -/
theorem send_refused {s : State H} {method : String} {params : QJsonObject} {handler : H}
    (h : (send s method params handler).refused ≠ s.refused) :
    (send s method params handler).refused = s.refused + 1 ∧
    ∃ todo stack, (send s method params handler).stack = .run none todo :: stack ∧
      heldTodo (.refused s.refused) todo = 1 := by
  unfold send at h ⊢
  split
  · rename_i hc
    rw [if_pos hc] at h
    exact absurd rfl h
  · exact ⟨rfl, _, s.stack, rfl, by simp [heldInstr]⟩

theorem handleLine_refused (s : State H) (document : Option QJsonObject) :
    (handleLine s document).refused = s.refused := by
  cases document with
  | none => rfl
  | some object => simp only [handleLine]; split <;> rfl

/-- Only a send refuses a request. -/
theorem refused_step {s : State H} {l : Lbl H} (h : (step body s l).refused ≠ s.refused) :
    (step body s l).refused = s.refused + 1 ∧
    ∃ todo stack, (step body s l).stack = .run none todo :: stack ∧ heldTodo (.refused s.refused) todo = 1 := by
  have hcall : ∀ op : Op H, (call s op).refused ≠ s.refused → (call s op).refused = s.refused + 1 ∧
      ∃ todo stack, (call s op).stack = .run none todo :: stack ∧ heldTodo (.refused s.refused) todo = 1 := by
    intro op hop
    cases op with
    | send method params handler => exact send_refused hop
    | line document => exact absurd (handleLine_refused s document) hop
    | setMasterTarget target => simp [call, setMasterTarget] at hop
    | _ => exact absurd rfl hop
  cases l with
  | call op =>
    simp only [step] at h ⊢
    split at h
    · exact hcall op h
    · exact hcall op h
    · exact absurd rfl h
  | ret => simp only [step] at h; split at h <;> exact absurd rfl h
  | tick i =>
    simp only [step] at h ⊢
    split at h
    · exact absurd rfl h
    · rename_i caller instr rest stack hs
      cases instr with
      | send method params handler => exact send_refused h
      | setConnectionState state => simp only [execInstr] at h; split at h <;> exact absurd rfl h
      | sweep timedOut =>
        simp only [execInstr] at h
        split at h
        · exact absurd rfl h
        · split at h <;> exact absurd rfl h
      | flush pending =>
        simp only [execInstr] at h
        split at h
        · exact absurd rfl h
        · split at h <;> exact absurd rfl h
      | _ => exact absurd rfl h
    · exact absurd rfl h
  | time now => exact absurd rfl h

/-- A refused request was not answered before, and is once the stack is back
to what it was under the call of send. -/
theorem refused_inside_send (now : Int) (σ : Nat → Lbl H) {t₀ : Nat}
    (h : (trace (step body) (initial now) σ (t₀ + 1)).refused ≠ (trace (step body) (initial now) σ t₀).refused) :
    let s₀ := trace (step body) (initial now) σ t₀
    let k := Key.refused s₀.refused
    invocations s₀ k = 0 ∧
    ∃ frame stack, (trace (step body) (initial now) σ (t₀ + 1)).stack = frame :: stack ∧
      ∀ t, t₀ < t → (trace (step body) (initial now) σ t).stack = stack →
        invocations (trace (step body) (initial now) σ t) k = 1 := by
  intro s₀ k
  have h0 := run_inv body now σ t₀
  have hnew : ¬ Issued s₀ k := Nat.lt_irrefl _
  have hz : total s₀ k = 0 := h0.none k hnew
  obtain ⟨hr, todo, stack, hs, hheld⟩ := refused_step body h
  have hone : ∀ t, t₀ < t → total (trace (step body) (initial now) σ t) k = 1 := by
    intro t ht
    refine (run_inv body now σ t).one k ?_
    refine trace_stays (step body) (initial now) σ (P := fun s => s₀.refused < s.refused) ?_ ht ?_
    · intro s l hlt
      by_cases he : (step body s l).refused = s.refused
      · rw [he]; exact hlt
      · rw [(refused_step body he).1]; exact Nat.lt_succ_of_lt hlt
    · rw [trace_succ, hr]; exact Nat.lt_succ_self _
  -- the frames under the call hold no other token of the request
  have hunder : held stack k = 0 := by
    have h1 := hone (t₀ + 1) (Nat.lt_succ_self _)
    rw [total, trace_succ, hs, held_run, hheld] at h1
    omega
  refine ⟨by unfold total at hz; omega, _, stack, hs, ?_⟩
  intro t ht hst
  have h1 := hone t ht
  rw [total, hst, hunder] at h1
  exact h1

/-- **Request handlers run exactly once.** In every state of every run, for
every handler type and body: a request accepted under id `n` has been called,
is in `handlers_`, or is held by a suspended call that will call it, exactly
one of these and exactly once; between two operations nothing is held. A
request refused because the client was not connected has been called exactly
once when send returns. `handlers_` and `requestTimestamps_` hold the same
ids. -/
theorem handlers_run_exactly_once (now : Int) (σ : Nat → Lbl H) (t : Nat) :
    let s := trace (step body) (initial now) σ t
    (∀ n, 1 ≤ n → n < s.nextId →
      invocations s (.accepted (number n)) + (if pending s (number n) then 1 else 0) +
        held s.stack (.accepted (number n)) = 1) ∧
    (s.stack = [] → ∀ n, 1 ≤ n → n < s.nextId →
      invocations s (.accepted (number n)) + (if pending s (number n) then 1 else 0) = 1) ∧
    (∀ id, pending s id ↔ id ∈ s.requestTimestamps.map (·.1)) ∧
    (∀ t₀, t₀ < t → (trace (step body) (initial now) σ (t₀ + 1)).refused ≠
        (trace (step body) (initial now) σ t₀).refused →
      invocations (trace (step body) (initial now) σ t₀)
        (.refused (trace (step body) (initial now) σ t₀).refused) = 0 ∧
      ∃ frame stack, (trace (step body) (initial now) σ (t₀ + 1)).stack = frame :: stack ∧
        (s.stack = stack →
          invocations s (.refused (trace (step body) (initial now) σ t₀).refused) = 1)) := by
  intro s
  have h := run_inv body now σ t
  have hone : ∀ n, 1 ≤ n → n < s.nextId →
      invocations s (.accepted (number n)) + (if pending s (number n) then 1 else 0) +
        held s.stack (.accepted (number n)) = 1 := by
    intro n h1 h2
    rw [← waiting_eq h]
    exact h.one (.accepted (number n)) ⟨n, h1, h2, rfl⟩
  refine ⟨hone, ?_, ?_, ?_⟩
  · intro hs n h1 h2
    have := hone n h1 h2
    rwa [hs, held, List.map_nil, List.sum_nil, Nat.add_zero] at this
  · intro id
    rw [pending, h.keys]
  · intro t₀ ht hr
    obtain ⟨hz, frame, stack, hs, hret⟩ := refused_inside_send body now σ hr
    exact ⟨hz, frame, stack, hs, hret t ht⟩

end

/-- A handler that does nothing. -/
def silent : Unit → QJsonObject → List (Act Unit) := fun _ _ => []

/-- Two requests time out; the slot of the first one's message drops the
connection, whose flush calls the second handler in the middle of the sweep. -/
def sweepDropsConnection : List (Lbl Unit) :=
  [.call .socketConnected, .tick 0, .ret, .tick 0, .ret, .tick 0, .ret, .tick 0,
   .call (.send "scan" [] ()), .call (.send "master" [] ()), .time 20000, .call .sweep, .tick 0, .tick 0,
   .call .socketDisconnected, .tick 0, .ret, .tick 0, .tick 0, .tick 0, .tick 0, .tick 0, .ret, .tick 0, .ret,
   .tick 0, .ret, .tick 0, .tick 0, .tick 0, .tick 0, .ret, .tick 0, .tick 0]

theorem sweepDropsConnection_run :
    (trace (step silent) (initial 0) (sched sweepDropsConnection .ret) 34).stack.isEmpty = true ∧
      (trace (step silent) (initial 0) (sched sweepDropsConnection .ret) 34).nextId = 3 := by
  decide +kernel

theorem handlers_run_exactly_once_sweep :
    let s := trace (step silent) (initial 0) (sched sweepDropsConnection .ret) 34
    invocations s (.accepted (number 1)) + (if pending s (number 1) then 1 else 0) = 1 ∧
      invocations s (.accepted (number 2)) + (if pending s (number 2) then 1 else 0) = 1 := by
  obtain ⟨hs, hn⟩ := sweepDropsConnection_run
  obtain ⟨-, h, -⟩ := handlers_run_exactly_once silent 0 (sched sweepDropsConnection .ret) 34
  have h' := h (List.isEmpty_iff.1 hs)
  rw [hn] at h'
  exact ⟨h' 1 (by decide) (by decide), h' 2 (by decide) (by decide)⟩

end NekoEcat.L4.ExactlyOnce
