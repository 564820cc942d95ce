import NekoEcat.Core.Assoc
import NekoEcat.L4Gui.Reconnect

/-!
# Missed heartbeats

The handler of the heartbeat's `ping` takes whatever it is given for a pong:
it clears `pendingPing_` and sets `consecutiveFailures_` to 0 also when it is
told that the request timed out, was rejected or lost its connection.

* `foldl_take`, `flush_eq`: what the sweep and a lost connection leave of the
  count.
* `beat_check`: what a check does to it.
* `failures_step`: which steps set it back to 0.
-/
namespace NekoEcat.L4.Heartbeat
open NekoEcat.Trace NekoEcat.L4.Connection NekoEcat.L4.Reconnect
open NekoEcat.L4.EcatClient (ConnectionState)

/-- The timers of the heartbeat and the ghosts beside them. -/
structure Pulse where
  checks : List (Nat × Nat)
  connection : Nat
  checked : Nat
  elapsed : Nat
  heartbeatTimer : Option Nat

/-- What the heartbeat counts, and what its handler runs on. -/
structure Beat where
  consecutiveFailures : Nat
  pendingPing : Bool
  handlers : List (Nat × Handler)
  pulse : Pulse

def beat (s : State) : Beat :=
  ⟨s.consecutiveFailures, s.pendingPing, s.handlers,
    ⟨s.checks, s.connection, s.checked, s.elapsed, s.heartbeatTimer⟩⟩

def Beat.run (b : Beat) : Handler → Beat
  | .heartbeat => { b with pendingPing := false, consecutiveFailures := 0 }
  | .other => b

/-- `handlers_.take(id)` and the call of what was taken. -/
def Beat.take (b : Beat) (id : Nat) : Beat :=
  match b.handlers.lookup id with
  | some handler => { b with handlers := b.handlers.filter fun h => h.1 != id }.run handler
  | none => { b with handlers := b.handlers.filter fun h => h.1 != id }

def Beat.flush (b : Beat) : Beat := (b.handlers.map (·.2)).foldl Beat.run { b with handlers := [] }

/-! ## Handlers -/

theorem run_eq (b : Beat) (h : Handler) :
    (b.run h).handlers = b.handlers ∧ (b.run h).pulse = b.pulse ∧
    (b.run h).consecutiveFailures = (if h = .heartbeat then 0 else b.consecutiveFailures) ∧
    (b.run h).pendingPing = (if h = .heartbeat then false else b.pendingPing) := by
  cases h <;> exact ⟨rfl, rfl, rfl, rfl⟩

/-- Running handlers clears the count if a heartbeat's is among them. -/
theorem foldl_run (hs : List Handler) (b : Beat) :
    (hs.foldl Beat.run b).pulse = b.pulse ∧
    (hs.foldl Beat.run b).consecutiveFailures = (if .heartbeat ∈ hs then 0 else b.consecutiveFailures) := by
  induction hs generalizing b with
  | nil => exact ⟨rfl, rfl⟩
  | cons h hs ih =>
    obtain ⟨hp, hf⟩ := ih (b.run h)
    obtain ⟨-, h2, h3, -⟩ := run_eq b h
    rw [List.foldl_cons, hp, hf, h2, h3]
    refine ⟨rfl, ?_⟩
    cases h <;> simp

theorem flush_eq (b : Beat) :
    b.flush.pulse = b.pulse ∧
    b.flush.consecutiveFailures = (if .heartbeat ∈ b.handlers.map (·.2) then 0 else b.consecutiveFailures) :=
  foldl_run _ { b with handlers := [] }

theorem take_eq (b : Beat) (id : Nat) :
    (b.take id).handlers = b.handlers.filter (fun h => h.1 != id) ∧ (b.take id).pulse = b.pulse ∧
    (b.take id).consecutiveFailures =
      (if b.handlers.lookup id = some .heartbeat then 0 else b.consecutiveFailures) ∧
    (b.take id).pendingPing = (if b.handlers.lookup id = some .heartbeat then false else b.pendingPing) := by
  unfold Beat.take
  split
  · rename_i handler h
    obtain ⟨h1, h2, h3, h4⟩ := run_eq { b with handlers := b.handlers.filter fun h => h.1 != id } handler
    rw [h1, h2, h3, h4, h]
    simp
  · rename_i h
    rw [h]
    exact ⟨rfl, rfl, rfl, rfl⟩

/-- Taking requests out clears the count if a heartbeat's handler is taken. -/
theorem foldl_take (ids : List Nat) (b : Beat) :
    (ids.foldl Beat.take b).pulse = b.pulse ∧
    ((∃ id ∈ ids, b.handlers.lookup id = some .heartbeat) → (ids.foldl Beat.take b).consecutiveFailures = 0) ∧
    ((∀ id ∈ ids, b.handlers.lookup id ≠ some .heartbeat) →
      (ids.foldl Beat.take b).consecutiveFailures = b.consecutiveFailures ∧
      (ids.foldl Beat.take b).pendingPing = b.pendingPing) := by
  induction ids generalizing b with
  | nil =>
    refine ⟨rfl, ?_, fun _ => ⟨rfl, rfl⟩⟩
    rintro ⟨id, hm, -⟩
    cases hm
  | cons a ids ih =>
    obtain ⟨hp, hz, hk⟩ := ih (b.take a)
    obtain ⟨t1, t2, t3, t4⟩ := take_eq b a
    have hlook : ∀ id, (b.take a).handlers.lookup id = if id = a then none else b.handlers.lookup id := by
      intro id
      rw [t1]
      exact Assoc.lookup_remove b.handlers a id
    rw [List.foldl_cons, hp, t2]
    refine ⟨rfl, ?_, ?_⟩
    · rintro ⟨id, hm, hl⟩
      by_cases hrest : ∃ id ∈ ids, (b.take a).handlers.lookup id = some .heartbeat
      · exact hz hrest
      · -- the heartbeat's handler is the one taken first
        have hnone : ∀ id ∈ ids, (b.take a).handlers.lookup id ≠ some .heartbeat := fun id hm' hl' =>
          hrest ⟨id, hm', hl'⟩
        have ha : b.handlers.lookup a = some .heartbeat := by
          by_cases he : id = a
          · rw [← he, hl]
          · rcases List.mem_cons.1 hm with hm | hm
            · exact absurd hm he
            · exact absurd (by rw [hlook, if_neg he, hl]) (hnone id hm)
        rw [(hk hnone).1, t3, if_pos ha]
    · intro hno
      have ha := hno a List.mem_cons_self
      have hnone : ∀ id ∈ ids, (b.take a).handlers.lookup id ≠ some .heartbeat := by
        intro id hm hl
        rw [hlook] at hl
        split at hl
        · cases hl
        · exact hno id (List.mem_cons_of_mem a hm) hl
      obtain ⟨h1, h2⟩ := hk hnone
      rw [h1, h2, t3, t4, if_neg ha, if_neg ha]
      exact ⟨rfl, rfl⟩

/-! ## What the slots do to the beat -/

@[simp] theorem beat_emitSignal (s : State) (sig : Signal) : beat (emitSignal s sig) = beat s := rfl

@[simp] theorem beat_setConnectionState (s : State) (state : ConnectionState) :
    beat (setConnectionState s state) = beat s := by
  unfold setConnectionState
  split <;> rfl

@[simp] theorem beat_scheduleReconnect (s : State) : beat (scheduleReconnect s) = beat s := by
  unfold scheduleReconnect
  split
  · rfl
  · split <;> rfl

@[simp] theorem beat_failOrSchedule (s : State) : beat (failOrSchedule s) = beat s := by
  unfold failOrSchedule
  split
  · rfl
  · exact beat_scheduleReconnect s

@[simp] theorem beat_runHandler (s : State) (h : Handler) : beat (runHandler s h) = (beat s).run h := by
  cases h <;> rfl

@[simp] theorem beat_takeAndRun (s : State) (id : Nat) : beat (takeAndRun s id) = (beat s).take id := by
  unfold takeAndRun Beat.take
  cases h : s.handlers.lookup id with
  | none => simp only [beat, h]; rfl
  | some handler =>
    simp only [beat, h]
    exact beat_runHandler (take s id) handler

theorem beat_foldl {α : Type} {f : State → α → State} {g : Beat → α → Beat} (h : ∀ s a, beat (f s a) = g (beat s) a)
    (as : List α) (s : State) : beat (as.foldl f s) = as.foldl g (beat s) := by
  induction as generalizing s with
  | nil => rfl
  | cons a as ih => rw [List.foldl_cons, List.foldl_cons, ih, h]

@[simp] theorem beat_sweepTimedOutRequests (s : State) :
    beat (sweepTimedOutRequests s) = (timedOut s).foldl Beat.take (beat s) :=
  beat_foldl (f := evict) (fun _ id => beat_takeAndRun _ id) _ s

@[simp] theorem beat_flush (s : State) : beat (flush s) = (beat s).flush :=
  beat_foldl beat_runHandler _ { s with handlers := [], requestTimestamps := [] }

@[simp] theorem beat_disconnectedSlot (s : State) : beat (disconnectedSlot s) = (beat s).flush := by
  have h (u : State) : beat (scheduleReconnect
      { emitSignal (emitSignal u .disconnected) .connectionLost with requestSweepTimer := none }) = beat u :=
    beat_scheduleReconnect _
  unfold disconnectedSlot
  rw [h, beat_flush, beat_setConnectionState]

theorem beat_abort (s : State) : beat (abort s) = if s.socket = .unconnected then beat s else (beat s).flush := by
  unfold abort
  cases hs : s.socket with
  | unconnected => simp
  | connecting | connected => exact beat_disconnectedSlot _

@[simp] theorem beat_errorSlot (s : State) (error : SocketError) : beat (errorSlot s error) = beat s := by
  unfold errorSlot
  cases h : attempting { s with connectTimeoutTimer := none } with
  | false =>
    simp only [h, Bool.false_and]
    rfl
  | true =>
    simp only [h, Bool.true_and, if_true, beat_failOrSchedule, beat_setConnectionState, beat_emitSignal]
    split <;> rfl

@[simp] theorem beat_socketConnectToHost (s : State) : beat (socketConnectToHost s) = beat s := by
  unfold socketConnectToHost
  cases hs : s.socket with
  | unconnected => rfl
  | connecting | connected => exact beat_errorSlot _ _

@[simp] theorem beat_setupConnectTimeout (s : State) : beat (setupConnectTimeout s) = beat s := rfl

theorem beat_connectToDaemon (s : State) : beat (connectToDaemon s) = beat s := by
  unfold connectToDaemon
  split
  · rfl
  · simp

theorem beat_connectToHost (s : State) (address : String) (port : UInt16) :
    beat (connectToHost s address port) = beat s := by
  unfold connectToHost
  split
  · rfl
  · simp only [beat_socketConnectToHost, beat_setupConnectTimeout, beat_setConnectionState]
    rfl

theorem beat_attemptReconnect (s : State) : beat (attemptReconnect s) = beat s := by
  unfold attemptReconnect
  split
  · rfl
  · split
    · rfl
    · split
      · rfl
      · have h := beat_socketConnectToHost (setupConnectTimeout (setConnectionState
          (emitSignal s (.reconnecting (s.connectFailures + 1) s.reconnectIntervalMs)) .reconnecting))
        rw [beat_setupConnectTimeout, beat_setConnectionState, beat_emitSignal] at h
        exact h

theorem beat_rearm (s : State) : beat (rearm s) = beat s := by
  unfold rearm
  split
  · exact beat_scheduleReconnect _
  · rfl

theorem beat_connectTimeout (s : State) :
    beat (connectTimeout s) = if attempting s = true then beat (abort s) else beat s := by
  unfold connectTimeout
  split
  · have h := beat_setConnectionState (abort s) .disconnected
    rw [beat_failOrSchedule, beat_emitSignal]
    exact h
  · rfl

theorem beat_heartbeatTick (s : State) (hc : s.connectionState = .connected) (hp : s.pendingPing = false) :
    beat (heartbeatTick s) =
      { beat s with
        pendingPing := true
        handlers := (s.nextId, .heartbeat) :: s.handlers
        pulse := { (beat s).pulse with checks := s.checks ++ [(s.elapsed + 3500, s.connection)] } } := by
  unfold heartbeatTick
  rw [if_neg (not_not.2 hc), if_neg (by rw [hp]; decide)]
  simp only [send, if_pos hc]
  rfl

/-- A tick that sends nothing. -/
theorem heartbeatTick_idle (s : State) (h : s.connectionState ≠ .connected ∨ s.pendingPing = true) :
    heartbeatTick s = s := by
  unfold heartbeatTick
  split
  · rfl
  · rename_i hc
    rw [if_pos (h.resolve_left hc)]

/-- A check that finds its ping unanswered. -/
theorem beat_check (s : State) (hc : s.connectionState = .connected) (hp : s.pendingPing = true) :
    beat (check s) =
      if kMaxConsecutiveFailures ≤ s.consecutiveFailures + 1 ∧ s.socket ≠ .unconnected then
        { beat s with pendingPing := false, consecutiveFailures := s.consecutiveFailures + 1 }.flush
      else { beat s with pendingPing := false, consecutiveFailures := s.consecutiveFailures + 1 } := by
  unfold check
  rw [if_neg (not_not.2 hc), if_pos hp]
  dsimp only
  by_cases h3 : kMaxConsecutiveFailures ≤ s.consecutiveFailures + 1
  · have hsock : (setConnectionState
        { s with pendingPing := false, consecutiveFailures := s.consecutiveFailures + 1 } .disconnected).socket =
          s.socket := by
      unfold setConnectionState
      split <;> rfl
    rw [if_pos h3, beat_scheduleReconnect, beat_abort, hsock, beat_setConnectionState]
    by_cases hs : s.socket = .unconnected
    · rw [if_pos hs, if_neg fun h => h.2 hs]
      rfl
    · rw [if_neg hs, if_pos ⟨h3, hs⟩]
      rfl
  · rw [if_neg h3, if_neg fun h => h3 h.1]
    rfl

/-- A check that finds nothing to count. -/
theorem check_idle (s : State) (h : s.connectionState ≠ .connected ∨ s.pendingPing = false) : check s = s := by
  unfold check
  split
  · rfl
  · rename_i hc
    rw [if_neg (by rw [h.resolve_left hc]; decide)]

/-! ## What sets the count back -/

/-- The steps that may set the count back: a pong, a new connection,
`enableAutoReconnect`. -/
def Excused (s : State) : Lbl → Prop
  | .response id ok _ => s.socket = .connected ∧ ok = true ∧ s.handlers.lookup id = some .heartbeat
  | .socketConnected => s.socket = .connecting
  | .enableAutoReconnect _ => True
  | _ => False

/-- The sweep fires and a ping has timed out. -/
def EvictsPing (s : State) (l : Lbl) : Prop :=
  l = .sweep ∧ Fires s .sweep ∧ ∃ id ∈ timedOut s, s.handlers.lookup id = some .heartbeat

def PingPending (s : State) : Prop := .heartbeat ∈ s.handlers.map (·.2)

/-- The step tells the handler of a ping of a failure: a response that is not
`ok: true`, the sweep, or the flush of a lost or aborted connection. -/
def FailsPing (s : State) (l : Lbl) : Prop :=
  match l with
  | .response id ok _ => s.socket = .connected ∧ ok = false ∧ s.handlers.lookup id = some .heartbeat
  | .sweep => EvictsPing s .sweep
  | .socketDisconnected => s.socket = .connected ∧ PingPending s
  | .connectTimeout =>
    Fires s .connectTimeout ∧ attempting s = true ∧ s.socket ≠ .unconnected ∧ PingPending s
  | .check i =>
    Fires s (.check i) ∧ (s.connectionState = .connected ∧ s.pendingPing = true) ∧
      (kMaxConsecutiveFailures ≤ s.consecutiveFailures + 1 ∧ s.socket ≠ .unconnected) ∧ PingPending s
  | _ => False

theorem failures_of_beat {s s' : State} (h : beat s' = beat s) : s'.consecutiveFailures = s.consecutiveFailures :=
  congrArg Beat.consecutiveFailures h

/-- A flush clears the count if a ping is pending. -/
theorem failures_flush {s s' : State} (h : beat s' = (beat s).flush) :
    s'.consecutiveFailures = if .heartbeat ∈ s.handlers.map (·.2) then 0 else s.consecutiveFailures :=
  (congrArg Beat.consecutiveFailures h).trans (flush_eq (beat s)).2

theorem beat_handleLine (s : State) (id : Nat) (ok : Bool) (message : String) :
    beat (handleLine s id ok message) = (beat s).take id := by
  unfold handleLine
  cases ok <;> exact beat_takeAndRun _ id

theorem idle_of_not {s : State} {b : Bool} (h : ¬ (s.connectionState = .connected ∧ s.pendingPing = b)) :
    s.connectionState ≠ .connected ∨ s.pendingPing = !b := by
  by_cases hc : s.connectionState = .connected
  · right
    have hb : s.pendingPing ≠ b := fun hb => h ⟨hc, hb⟩
    cases hp : s.pendingPing <;> cases b <;> first | rfl | exact absurd hp hb
  · exact .inl hc

/-- What a check leaves of the count. -/
theorem failures_check (s : State) :
    (check s).consecutiveFailures =
      if s.connectionState = .connected ∧ s.pendingPing = true then
        if (kMaxConsecutiveFailures ≤ s.consecutiveFailures + 1 ∧ s.socket ≠ .unconnected) ∧
            .heartbeat ∈ s.handlers.map (·.2) then 0
        else s.consecutiveFailures + 1
      else s.consecutiveFailures := by
  by_cases h : s.connectionState = .connected ∧ s.pendingPing = true
  · rw [if_pos h]
    have hb := congrArg Beat.consecutiveFailures (beat_check s h.1 h.2)
    refine hb.trans ?_
    by_cases h3 : kMaxConsecutiveFailures ≤ s.consecutiveFailures + 1 ∧ s.socket ≠ .unconnected
    · rw [if_pos h3, (flush_eq _).2]
      refine if_congr ⟨fun hm => ⟨h3, hm⟩, fun hm => hm.2⟩ rfl rfl
    · rw [if_neg h3, if_neg fun hh => h3 hh.1]
  · rw [if_neg h, check_idle _ (idle_of_not h)]

/-- **What sets the count back to 0**: a failure told to the handler of a
ping, or one of the three steps that may. -/
theorem failures_step (s : State) (l : Lbl) :
    (FailsPing s l → (step s l).consecutiveFailures = 0) ∧
    (¬ FailsPing s l → ¬ Excused s l → s.consecutiveFailures ≤ (step s l).consecutiveFailures) := by
  have hsame : ∀ s' : State, beat s' = beat s → s.consecutiveFailures ≤ s'.consecutiveFailures := fun s' h =>
    Nat.le_of_eq (failures_of_beat h).symm
  cases l with
  | connectToDaemon => exact ⟨False.elim, fun _ _ => hsame _ (beat_connectToDaemon s)⟩
  | connectToHost address port => exact ⟨False.elim, fun _ _ => hsame _ (beat_connectToHost s address port)⟩
  | enableAutoReconnect enable => exact ⟨False.elim, fun _ h => absurd trivial h⟩
  | setRequestTimeout ms => exact ⟨False.elim, fun _ _ => Nat.le_refl _⟩
  | time ms now => exact ⟨False.elim, fun _ _ => Nat.le_refl _⟩
  | send =>
    refine ⟨False.elim, fun _ _ => ?_⟩
    simp only [step, send]
    split <;> exact Nat.le_refl _
  | socketConnected =>
    refine ⟨False.elim, fun _ h => ?_⟩
    simp only [step, if_neg (show ¬ s.socket = .connecting from h)]
    exact Nat.le_refl _
  | socketError error =>
    refine ⟨False.elim, fun _ _ => ?_⟩
    simp only [step]
    split
    · exact Nat.le_refl _
    · exact hsame _ (beat_errorSlot { s with socket := .unconnected } error)
    · exact hsame _ (beat_errorSlot s error)
  | socketDisconnected =>
    simp only [step, FailsPing, PingPending]
    by_cases hs : s.socket = .connected
    · rw [if_pos hs, failures_flush (s := s) (beat_disconnectedSlot { s with socket := .unconnected })]
      refine ⟨fun h => if_pos h.2, fun h _ => ?_⟩
      exact Nat.le_of_eq (if_neg fun hm => h ⟨hs, hm⟩).symm
    · rw [if_neg hs]
      exact ⟨fun h => absurd h.1 hs, fun _ _ => Nat.le_refl _⟩
  | response id ok message =>
    simp only [step, FailsPing, Excused]
    by_cases hs : s.socket = .connected
    · have hf : (handleLine s id ok message).consecutiveFailures =
          if s.handlers.lookup id = some .heartbeat then 0 else s.consecutiveFailures :=
        (congrArg Beat.consecutiveFailures (beat_handleLine s id ok message)).trans (take_eq (beat s) id).2.2.1
      rw [if_pos hs, hf]
      refine ⟨fun h => if_pos h.2.2, fun h h' => Nat.le_of_eq (if_neg ?_).symm⟩
      intro hl
      cases ok with
      | true => exact h' ⟨hs, rfl, hl⟩
      | false => exact h ⟨hs, rfl, hl⟩
    · rw [if_neg hs]
      exact ⟨fun h => absurd h.1 hs, fun _ _ => Nat.le_refl _⟩
  | connectTimeout =>
    rcases step_timer s (l := .connectTimeout) rfl with ⟨d, hd, hle, he⟩ | ⟨hn, he⟩ <;> rw [he]
    · have hb := beat_connectTimeout { s with connectTimeoutTimer := none }
      have hab := beat_abort { s with connectTimeoutTimer := none }
      by_cases ha : attempting s = true
      · by_cases hs : s.socket = .unconnected
        · refine ⟨fun h => absurd hs h.2.2.1, fun _ _ => hsame _ ?_⟩
          exact hb.trans ((if_pos ha).trans (hab.trans (if_pos hs)))
        · rw [fire, failures_flush (s := s) (hb.trans ((if_pos ha).trans (hab.trans (if_neg hs))))]
          refine ⟨fun h => if_pos h.2.2.2, fun h _ => Nat.le_of_eq (if_neg ?_).symm⟩
          exact fun hm => h ⟨⟨d, hd, hle⟩, ha, hs, hm⟩
      · exact ⟨fun h => absurd h.2.1 ha, fun _ _ => hsame _ (hb.trans (if_neg ha))⟩
    · exact ⟨fun h => absurd h.1 hn, fun _ _ => Nat.le_refl _⟩
  | reconnectTimeout =>
    refine ⟨False.elim, fun _ _ => ?_⟩
    rcases step_timer s (l := .reconnectTimeout) rfl with ⟨d, -, -, he⟩ | ⟨-, he⟩
    · rw [he]
      exact hsame _ (beat_attemptReconnect { s with reconnectTimer := none })
    · exact Nat.le_of_eq (congrArg State.consecutiveFailures he).symm
  | rearm i =>
    refine ⟨False.elim, fun _ _ => ?_⟩
    rcases step_timer s (l := .rearm i) rfl with ⟨d, -, -, he⟩ | ⟨-, he⟩
    · rw [he]
      exact hsame _ (beat_rearm { s with rearms := s.rearms.eraseIdx i })
    · exact Nat.le_of_eq (congrArg State.consecutiveFailures he).symm
  | heartbeatTick =>
    refine ⟨False.elim, fun _ _ => ?_⟩
    rcases step_timer s (l := .heartbeatTick) rfl with ⟨d, -, -, he⟩ | ⟨-, he⟩
    · rw [he]
      by_cases h : s.connectionState = .connected ∧ s.pendingPing = false
      · have hb := beat_heartbeatTick { s with heartbeatTimer := some (next d 5000 s.elapsed) } h.1 h.2
        exact Nat.le_of_eq (congrArg Beat.consecutiveFailures hb).symm
      · have hi := heartbeatTick_idle { s with heartbeatTimer := some (next d 5000 s.elapsed) } (idle_of_not h)
        exact Nat.le_of_eq (congrArg State.consecutiveFailures hi).symm
    · exact Nat.le_of_eq (congrArg State.consecutiveFailures he).symm
  | check i =>
    rcases step_timer s (l := .check i) rfl with ⟨d, hd, hle, he⟩ | ⟨hn, he⟩ <;> rw [he]
    · rw [fire, failures_check]
      by_cases hc : s.connectionState = .connected ∧ s.pendingPing = true
      · by_cases h3 : (kMaxConsecutiveFailures ≤ s.consecutiveFailures + 1 ∧ s.socket ≠ .unconnected) ∧ PingPending s
        · refine ⟨fun _ => (if_pos hc).trans (if_pos h3), fun h _ => ?_⟩
          exact absurd ⟨⟨d, hd, hle⟩, hc, h3⟩ h
        · refine ⟨fun h => absurd h.2.2 h3, fun _ _ => ?_⟩
          exact Nat.le_trans (Nat.le_succ _) (Nat.le_of_eq ((if_pos hc).trans (if_neg h3)).symm)
      · exact ⟨fun h => absurd h.2.1 hc, fun _ _ => Nat.le_of_eq (if_neg hc).symm⟩
    · exact ⟨fun h => absurd h.1 hn, fun _ _ => Nat.le_refl _⟩
  | sweep =>
    rcases step_timer s (l := .sweep) rfl with ⟨d, hd, hle, he⟩ | ⟨hn, he⟩ <;> rw [he]
    · have hb := congrArg Beat.consecutiveFailures
        (beat_sweepTimedOutRequests { s with requestSweepTimer := some (next d 2000 s.elapsed) })
      obtain ⟨-, hz, hk⟩ := foldl_take (timedOut s) (beat s)
      refine ⟨fun h => hb.trans (hz h.2.2), fun h _ => Nat.le_of_eq (hb.trans (hk ?_).1).symm⟩
      exact fun id hm hl => h ⟨rfl, ⟨d, hd, hle⟩, id, hm, hl⟩
    · exact ⟨fun h => absurd h.2.1 hn, fun _ _ => Nat.le_refl _⟩

end NekoEcat.L4.Heartbeat
