import NekoEcat.Core.Trace
import NekoEcat.L4Gui.AsyncOperation

/-!
# Priorities of asynchronous operations

`processQueue` starts the first operation of the highest priority. `execute`
does not look at the queue: with a slot free it starts its own operation. A
slot is free while others are queued only between the end of an operation,
which frees it, and the end of the loop that serves the queue, so only code
connected to a signal can get ahead of the queue.

* `starts_step`: what a step adds to the starts.
* `jump_suspended`: `execute` gets ahead of the queue only while a call of the
  manager is suspended.
* `priority_iff`: all starts are fair exactly as long as it never does.
* `low_before_critical`: a slot connected to `operationCompleted` gets ahead of a
  critical operation.
-/
namespace NekoEcat.L4.AsyncPriority
open NekoEcat.Trace NekoEcat.L4.AsyncOperation

/-- No live operation in the queue has a higher priority, and none of the same
priority was queued earlier. -/
def Fair (st : Start) : Prop := (∀ p ∈ st.before, p < st.priority) ∧ ∀ p ∈ st.after, p ≤ st.priority

/-- `execute` is called with a slot free while a live operation of at least the
same priority is queued. -/
def Jumps (s : State) : Lbl → Prop
  | .execute priority _ =>
    s.runningCount < s.maxConcurrent ∧ ∃ p ∈ priorities s.operations s.queue, priority.toNat ≤ p
  | _ => False

/-! ## Starts -/

theorem cancel_starts (s : State) (id : Nat) : (cancel s id).starts = s.starts := by
  unfold cancel
  split
  · rfl
  · split <;> rfl

theorem onOperationFinished_starts (s : State) (id : Nat) (result : OperationResult) :
    (onOperationFinished s id result).starts = s.starts := by
  unfold onOperationFinished
  split <;> rfl

theorem deliver_starts (s : State) (id : Nat) : (deliver s id).starts = s.starts := by
  unfold deliver
  split
  · rfl
  · exact onOperationFinished_starts _ _ _

/-- What `execute` starts: its own operation, with all that is queued before
it. -/
theorem execute_starts (s : State) (priority : OperationPriority) (timeoutMs : Int) :
    (execute s priority timeoutMs).starts =
      s.starts ++
        if s.runningCount < s.maxConcurrent then
          [⟨s.nextId, priority.toNat, priorities s.operations s.queue, []⟩]
        else [] := by
  obtain ⟨timers, he⟩ := execute_eq s priority timeoutMs
  rw [he]
  show (startOrQueue s priority timeoutMs).starts = _
  unfold startOrQueue
  split
  · rfl
  · exact (List.append_nil _).symm

/-- What the loop starts is fair. -/
theorem processQueue_starts (s : State) :
    (processQueue s).starts = s.starts ∨ ∃ st, (processQueue s).starts = s.starts ++ [st] ∧ Fair st := by
  unfold processQueue
  split
  · split
    · exact .inl rfl
    · rename_i best hpick
      dsimp only
      split
      · exact .inl rfl
      · right
        obtain ⟨⟨before, after, hq, hi, hbef, haft⟩, -⟩ := pick_picked hpick
        refine ⟨_, rfl, ?_⟩
        rw [Nat.zero_add] at hi
        have hlen : (before ++ [best.id]).length = best.index + 1 := by
          rw [hi, List.length_append, List.length_singleton]
        refine ⟨?_, ?_⟩
        · show ∀ p ∈ priorities s.operations (s.queue.take best.index), p < best.priority
          rw [hq, hi, List.take_left]
          exact hbef
        · show ∀ p ∈ priorities s.operations (s.queue.drop (best.index + 1)), p ≤ best.priority
          rw [hq, List.append_cons before best.id after, ← hlen, List.drop_left]
          exact haft
  · exact .inl rfl

/-- **A step starts fairly, or gets ahead of the queue.** -/
theorem starts_step (s : State) (l : Lbl) :
    (Jumps s l → ∃ st ∈ (step s l).starts, ¬ Fair st) ∧
    (¬ Jumps s l → ∀ st ∈ (step s l).starts, st ∈ s.starts ∨ Fair st) ∧
    (∀ st ∈ s.starts, st ∈ (step s l).starts) := by
  have hkeep : ∀ s' : State, s'.starts = s.starts →
      (¬ Jumps s l → ∀ st ∈ s'.starts, st ∈ s.starts ∨ Fair st) ∧ ∀ st ∈ s.starts, st ∈ s'.starts := by
    intro s' h
    rw [h]
    exact ⟨fun _ st hst => .inl hst, fun st hst => hst⟩
  cases l with
  | execute priority timeoutMs =>
    simp only [step]
    rw [execute_starts]
    by_cases hrun : s.runningCount < s.maxConcurrent
    · rw [if_pos hrun]
      refine ⟨?_, ?_, fun st hst => List.mem_append_left _ hst⟩
      · rintro ⟨-, p, hp, hle⟩
        refine ⟨_, List.mem_append_right _ List.mem_cons_self, ?_⟩
        intro hfair
        have := hfair.1 p hp
        simp only at this
        omega
      · intro hno st hst
        rcases List.mem_append.1 hst with hst | hst
        · exact .inl hst
        · right
          rw [List.mem_singleton.1 hst]
          refine ⟨?_, fun p hp => by cases hp⟩
          intro p hp
          exact Nat.lt_of_not_le fun hle => hno ⟨hrun, p, hp, hle⟩
    · rw [if_neg hrun, List.append_nil]
      exact ⟨fun h => absurd h.1 hrun, fun _ st hst => .inl hst, fun st hst => hst⟩
  | cancel id => exact ⟨False.elim, hkeep _ (cancel_starts s id)⟩
  | timeout id =>
    simp only [step]
    refine ⟨False.elim, ?_⟩
    split
    · exact hkeep _ (cancel_starts _ id)
    · exact hkeep _ rfl
  | cancelAll => exact ⟨False.elim, hkeep _ rfl⟩
  | deliver id =>
    simp only [step]
    refine ⟨False.elim, ?_⟩
    split
    · exact hkeep _ (deliver_starts s id)
    · exact hkeep _ rfl
  | work id outcome flag => exact ⟨False.elim, hkeep _ rfl⟩
  | ret =>
    simp only [step]
    refine ⟨False.elim, ?_⟩
    split <;> exact hkeep _ rfl
  | tick =>
    simp only [step]
    refine ⟨False.elim, ?_⟩
    split
    · exact hkeep _ rfl
    · rcases processQueue_starts s with h | ⟨st, h, hfair⟩
      · exact hkeep _ h
      · rw [h]
        refine ⟨?_, fun st hst => List.mem_append_left _ hst⟩
        intro _ st' hst
        rcases List.mem_append.1 hst with hst | hst
        · exact .inl hst
        · exact .inr (List.mem_singleton.1 hst ▸ hfair)
    · exact hkeep _ rfl

/-! ## Getting ahead -/

/-- Nobody waits, no slot is free, or a suspended call will serve the queue. -/
def Served (s : State) : Prop :=
  s.queue = [] ∨ s.maxConcurrent ≤ s.runningCount ∨ ∃ f ∈ s.stack, f ≠ .slots

theorem served_cancel {s : State} (h : Served s) (id : Nat) : Served (cancel s id) := by
  unfold cancel
  split
  · exact h
  · split
    · rcases h with h | h
      · exact .inl (by simp [h])
      · exact .inr h
    · exact h
    · exact h

theorem served_execute {s : State} (h : Served s) (priority : OperationPriority) (timeoutMs : Int) :
    Served (execute s priority timeoutMs) := by
  obtain ⟨timers, he⟩ := execute_eq s priority timeoutMs
  rw [he]
  show Served (startOrQueue s priority timeoutMs)
  unfold startOrQueue
  split
  · -- a slot was free, so the queue was empty or a call is suspended
    rcases h with h | h | h
    · exact .inl h
    · omega
    · exact .inr (.inr h)
  · rename_i hrun
    have hle : s.maxConcurrent ≤ s.runningCount := by omega
    exact .inr (.inl hle)

theorem served_deliver {s : State} (h : Served s) (id : Nat) : Served (deliver s id) := by
  unfold deliver
  split
  · exact h
  · unfold onOperationFinished
    split
    · exact h
    · exact .inr (.inr ⟨.finished id, by simp, by simp⟩)

theorem served_processQueue {s : State} {stack : List Frame} (hs : s.stack = .process :: stack) :
    Served (processQueue s) := by
  unfold processQueue
  split
  · split
    · exact .inl rfl
    · dsimp only
      split
      · exact .inr (.inr ⟨.process, by simp [hs], by simp⟩)
      · exact .inr (.inr ⟨.process, by simp [start, hs], by simp⟩)
  · rename_i hn
    by_cases hq : s.queue = []
    · exact .inl hq
    · have hle : s.maxConcurrent ≤ s.runningCount := by
        by_contra hlt
        exact hn ⟨by omega, hq⟩
      exact .inr (.inl hle)

theorem served_step {s : State} (h : Served s) (l : Lbl) : Served (step s l) := by
  cases l with
  | execute priority timeoutMs => exact served_execute h priority timeoutMs
  | cancel id => exact served_cancel h id
  | timeout id =>
    simp only [step]
    split
    · exact served_cancel (s := { s with timers := s.timers.filter (· != id) }) h id
    · exact h
  | cancelAll => exact .inl rfl
  | deliver id =>
    simp only [step]
    split
    · exact served_deliver h id
    · exact h
  | work id outcome flag => exact h
  | ret =>
    simp only [step]
    split
    · rename_i stack hs
      rcases h with h | h | ⟨f, hf, hne⟩
      · exact .inl h
      · exact .inr (.inl h)
      · rw [hs] at hf
        rcases List.mem_cons.1 hf with rfl | hf
        · exact absurd rfl hne
        · exact .inr (.inr ⟨f, hf, hne⟩)
    · exact h
  | tick =>
    simp only [step]
    split
    · exact .inr (.inr ⟨.process, by simp [retain], by simp⟩)
    · rename_i stack hs
      exact served_processQueue hs
    · exact h

theorem run_served (maxConcurrent : Int) (σ : Nat → Lbl) (t : Nat) :
    Served (trace step (initial maxConcurrent) σ t) :=
  trace_inv step (initial maxConcurrent) σ (I := Served) (.inl rfl) (fun _ l h => served_step h l) t

/-- **`execute` gets ahead of the queue only while a call of the manager is
suspended**: from code connected to one of its signals. -/
theorem jump_suspended (maxConcurrent : Int) (σ : Nat → Lbl) (t : Nat)
    (h : Jumps (trace step (initial maxConcurrent) σ t) (σ t)) :
    ∃ f ∈ (trace step (initial maxConcurrent) σ t).stack, f ≠ .slots := by
  cases hl : σ t with
  | execute priority timeoutMs =>
    rw [hl] at h
    obtain ⟨hrun, p, hp, -⟩ := h
    rcases run_served maxConcurrent σ t with hq | hle | hf
    · rw [hq] at hp
      cases hp
    · omega
    · exact hf
  | _ => rw [hl] at h; cases h

/-- **When starts follow the priorities, exactly.** All operations started in a
run are started fairly iff no call of `execute` finds a slot free while a live
operation of at least its own priority is queued. -/
theorem priority_iff (maxConcurrent : Int) (σ : Nat → Lbl) (t : Nat) :
    (∀ st ∈ (trace step (initial maxConcurrent) σ t).starts, Fair st) ↔
      ∀ m < t, ¬ Jumps (trace step (initial maxConcurrent) σ m) (σ m) := by
  constructor
  · intro hfair m hm hj
    obtain ⟨st, hst, hun⟩ := (starts_step _ (σ m)).1 hj
    have hkeep : st ∈ (trace step (initial maxConcurrent) σ t).starts :=
      trace_stays step (initial maxConcurrent) σ (P := fun s => st ∈ s.starts)
        (fun s l h => (starts_step s l).2.2 st h) (m := m + 1) hm hst
    exact hun (hfair st hkeep)
  · intro h
    exact trace_inv_guarded step (initial maxConcurrent) σ (I := fun s => ∀ st ∈ s.starts, Fair st)
      (G := fun s l => ¬ Jumps s l) (fun st hst => by cases hst)
      (fun s l hs hj st hst => ((starts_step s l).2.1 hj st hst).elim (hs st) id) t h

/-- One slot. A critical operation waits for it; when it is freed, the code
connected to `operationCompleted` starts a low one. -/
def overtaking : List Lbl :=
  [.execute .normal 30000, .execute .critical 30000, .work 0 (.ok []) false, .deliver 0, .execute .low 30000]

/-- **A low operation is started while a critical one waits.** -/
theorem low_before_critical :
    (trace step (initial 1) (sched overtaking .ret) 5).starts = [⟨0, 1, [], []⟩, ⟨2, 0, [3], []⟩] ∧
    ¬ ∀ st ∈ (trace step (initial 1) (sched overtaking .ret) 5).starts, Fair st := by
  have h : (trace step (initial 1) (sched overtaking .ret) 5).starts = [⟨0, 1, [], []⟩, ⟨2, 0, [3], []⟩] := by
    decide +kernel
  refine ⟨h, ?_⟩
  rw [h]
  intro hfair
  have := (hfair ⟨2, 0, [3], []⟩ (by simp)).1 3 (by simp)
  simp only at this
  omega

end NekoEcat.L4.AsyncPriority
