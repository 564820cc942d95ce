import NekoEcat.Core.Trace
import NekoEcat.L4Gui.Connection

/-!
# Attempts to connect

The link of the client (its socket, its connection state, the count of failed
attempts and the socket's calls of `connectToHost`) goes through few kinds of
steps, whatever the timers do, until an attempt is made while another one is
in progress.

* `step_link`: the kinds of steps.
* `step_overlaps`: a second attempt dials a connecting socket.
* `reconnect_discipline_iff`: attempts are disciplined in a run exactly when no
  step of it makes a second attempt.
* `hanging_attempt_dialled`: an attempt that hangs is dialled over.
-/
namespace NekoEcat.L4.Reconnect
open NekoEcat.Trace NekoEcat.L4.Connection
open NekoEcat.L4.EcatClient (ConnectionState)

structure Link where
  socket : SocketState
  connectionState : ConnectionState
  connectFailures : Nat
  dials : List Dial

def link (s : State) : Link := ⟨s.socket, s.connectionState, s.connectFailures, s.dials⟩

/-- The connection state says what the socket does. -/
def Sync (k : Link) : Prop :=
  match k.socket with
  | .unconnected => k.connectionState = .disconnected
  | .connecting => k.connectionState = .connecting ∨ k.connectionState = .reconnecting
  | .connected => k.connectionState = .connected

/-- The steps of a link. -/
inductive LinkStep : Link → Link → Prop
  | stay (k : Link) : LinkStep k k
  | reset (k : Link) : LinkStep k { k with connectFailures := 0 }
  | dial {k : Link} {state : ConnectionState} {d : Dial} (hs : k.socket = .unconnected)
      (hc : state = .connecting ∨ state = .reconnecting) (hd : d.found = .unconnected) :
      LinkStep k ⟨.connecting, state, k.connectFailures, k.dials ++ [d]⟩
  | established {k : Link} (hs : k.socket = .connecting) : LinkStep k ⟨.connected, .connected, 0, k.dials⟩
  | failed {k : Link} (hs : k.socket = .connecting) :
      LinkStep k ⟨.unconnected, .disconnected, k.connectFailures + 1, k.dials⟩
  | lost {k : Link} (hs : k.socket = .connected) : LinkStep k ⟨.unconnected, .disconnected, k.connectFailures, k.dials⟩

/-- An attempt that ends without a connection is counted once, and nothing
else is counted. -/
def Counted (k k' : Link) : Prop :=
  if k.socket = .connecting ∧ k'.socket = .unconnected then k'.connectFailures = k.connectFailures + 1
  else k'.connectFailures ≤ k.connectFailures

/-- A second attempt while one is in progress: a call while `Reconnecting`, or
the reconnect timer. -/
def Overlaps (s : State) : Lbl → Prop
  | .connectToDaemon | .connectToHost .. => s.connectionState = .reconnecting
  | .reconnectTimeout =>
    Fires s .reconnectTimeout ∧ s.autoReconnectEnabled = true ∧ s.connectFailures < kMaxConnectAttempts ∧
      attempting s = true
  | _ => False

/-! ## Links -/

theorem sync_step {k k' : Link} (h : Sync k) (hs : LinkStep k k') : Sync k' := by
  cases hs with
  | stay => exact h
  | reset => exact h
  | dial _ hc _ => exact hc
  | established => rfl
  | failed => rfl
  | lost => rfl

theorem counted_step {k k' : Link} (hs : LinkStep k k') : Counted k k' := by
  cases hs with
  | stay | reset =>
    unfold Counted
    split
    · rename_i h
      rw [h.1] at h
      exact absurd h.2 (by simp)
    · simp
  | dial => simp [Counted]
  | established => simp [Counted]
  | failed hs => simp [Counted, hs]
  | lost hs => simp [Counted, hs]

theorem dials_linkStep {k k' : Link} (hs : LinkStep k k') (h : ∀ d ∈ k.dials, d.found = .unconnected) :
    ∀ d ∈ k'.dials, d.found = .unconnected := by
  cases hs with
  | dial _ _ hd =>
    intro d hm
    rcases List.mem_append.1 hm with hm | hm
    · exact h d hm
    · rw [List.mem_singleton.1 hm]
      exact hd
  | _ => exact h

/-! ## What the slots do to the link -/

@[simp] theorem link_emitSignal (s : State) (sig : Signal) : link (emitSignal s sig) = link s := rfl

@[simp] theorem link_setConnectionState (s : State) (state : ConnectionState) :
    link (setConnectionState s state) = { link s with connectionState := state } := by
  unfold setConnectionState
  split
  · rename_i h
    rw [← h]
    rfl
  · rfl

@[simp] theorem link_scheduleReconnect (s : State) : link (scheduleReconnect s) = link s := by
  unfold scheduleReconnect
  split
  · rfl
  · split <;> rfl

@[simp] theorem link_runHandler (s : State) (h : Handler) : link (runHandler s h) = link s := by
  cases h <;> rfl

@[simp] theorem link_takeAndRun (s : State) (id : Nat) : link (takeAndRun s id) = link s := by
  unfold takeAndRun
  split
  · exact link_runHandler _ _
  · rfl

@[simp] theorem link_send (s : State) (h : Handler) : link (send s h) = link s := by
  unfold send
  split
  · rfl
  · exact link_runHandler _ _

@[simp] theorem link_handleLine (s : State) (id : Nat) (ok : Bool) (message : String) :
    link (handleLine s id ok message) = link s := by
  unfold handleLine
  cases ok <;> exact link_takeAndRun _ _

/-- A fold of slots that leave the link alone. -/
theorem link_foldl {α : Type} (f : State → α → State) (h : ∀ s a, link (f s a) = link s) (as : List α) (s : State) :
    link (as.foldl f s) = link s := by
  induction as generalizing s with
  | nil => rfl
  | cons a as ih => rw [List.foldl_cons, ih, h]

@[simp] theorem link_sweepTimedOutRequests (s : State) : link (sweepTimedOutRequests s) = link s :=
  link_foldl evict (fun _ _ => link_takeAndRun _ _) _ s

@[simp] theorem link_flush (s : State) : link (flush s) = link s :=
  link_foldl runHandler link_runHandler _ { s with handlers := [], requestTimestamps := [] }

@[simp] theorem link_failOrSchedule (s : State) : link (failOrSchedule s) = link s := by
  unfold failOrSchedule
  split
  · rfl
  · exact link_scheduleReconnect s

theorem link_disconnectedSlot (s : State) :
    link (disconnectedSlot s) = { link s with connectionState := .disconnected } := by
  have h (u : State) : link (scheduleReconnect
      { emitSignal (emitSignal u .disconnected) .connectionLost with requestSweepTimer := none }) = link u :=
    link_scheduleReconnect _
  unfold disconnectedSlot
  rw [h, link_flush, link_setConnectionState]

theorem link_connectedSlot (s : State) :
    link (connectedSlot s) = ⟨s.socket, .connected, 0, s.dials⟩ := by
  have h := link_setConnectionState { s with connectTimeoutTimer := none } .connected
  unfold connectedSlot
  simp only [link, Link.mk.injEq] at h ⊢
  split <;> simp [setupAutoReconnect, emitSignal, h]

/-- `abort` leaves the socket unconnected. -/
theorem link_abort (s : State) :
    link (abort s) =
      if s.socket = .unconnected then link s
      else { link s with socket := .unconnected, connectionState := .disconnected } := by
  unfold abort
  cases hs : s.socket with
  | unconnected => simp
  | connecting | connected => exact link_disconnectedSlot _

/-- An error counts exactly while `connectionState_` says that an attempt is
being made. -/
theorem link_errorSlot (s : State) (error : SocketError) :
    link (errorSlot s error) =
      if attempting s = true then
        { link s with connectionState := .disconnected, connectFailures := s.connectFailures + 1 }
      else link s := by
  unfold errorSlot
  cases h : attempting s with
  | false =>
    have h' : attempting { s with connectTimeoutTimer := none } = false := h
    simp only [h', Bool.false_and]
    rfl
  | true =>
    have h' : attempting { s with connectTimeoutTimer := none } = true := h
    have hne : (s.connectionState != ConnectionState.disconnected) = true := by
      unfold attempting at h
      cases hc : s.connectionState <;> rw [hc] at h <;> first | rfl | cases h
    simp only [h', hne, Bool.and_self, if_true, link_failOrSchedule, link_setConnectionState, link_emitSignal]
    rfl

/-- The socket is dialled, or complains. -/
theorem link_socketConnectToHost (s : State) (hs : s.socket = .unconnected) :
    link (socketConnectToHost s) =
      ⟨.connecting, s.connectionState, s.connectFailures, s.dials ++ [⟨.unconnected, s.host, s.port⟩]⟩ := by
  unfold socketConnectToHost
  rw [hs]
  rfl

theorem dials_socketConnectToHost (s : State) :
    (socketConnectToHost s).dials = s.dials ++ [⟨s.socket, s.host, s.port⟩] := by
  unfold socketConnectToHost
  cases hs : s.socket with
  | unconnected => rfl
  | connecting | connected =>
    have h := congrArg Link.dials (link_errorSlot { s with dials := s.dials ++ [⟨s.socket, s.host, s.port⟩] }
      (.other "Trying to connect while connection is in progress"))
    rw [hs] at h
    refine h.trans ?_
    split <;> rfl

/-! ## The kinds of steps -/

/-- The end of every entry point, on an unconnected socket. -/
theorem link_entry {s : State} (hs : s.socket = .unconnected) (state : ConnectionState) :
    ∃ d : Dial, d.found = .unconnected ∧
      link (socketConnectToHost (setupConnectTimeout (setConnectionState s state))) =
        ⟨.connecting, state, s.connectFailures, s.dials ++ [d]⟩ := by
  have h := link_setConnectionState s state
  simp only [link, Link.mk.injEq] at h
  obtain ⟨h1, h2, h3, h4⟩ := h
  refine ⟨⟨.unconnected, (setConnectionState s state).host, (setConnectionState s state).port⟩, rfl, ?_⟩
  rw [link_socketConnectToHost (setupConnectTimeout (setConnectionState s state)) (h1.trans hs)]
  simp only [setupConnectTimeout, h2, h3, h4]

theorem dials_entry (s : State) (state : ConnectionState) :
    ∃ d : Dial, d.found = s.socket ∧
      (socketConnectToHost (setupConnectTimeout (setConnectionState s state))).dials = s.dials ++ [d] := by
  have h := link_setConnectionState s state
  simp only [link, Link.mk.injEq] at h
  obtain ⟨h1, -, -, h4⟩ := h
  refine ⟨⟨(setConnectionState s state).socket, (setConnectionState s state).host, (setConnectionState s state).port⟩,
    h1, ?_⟩
  rw [dials_socketConnectToHost]
  simp only [setupConnectTimeout, h4]

/-- An entry point that does not return at once was called while reconnecting
or while nothing is in progress. -/
theorem attempting_of_entry {s : State} (hc : ¬ (s.connectionState = .connected ∨ s.connectionState = .connecting))
    (hr : s.connectionState ≠ .reconnecting) : attempting s = false := by
  unfold attempting
  cases hst : s.connectionState with
  | reconnecting => exact absurd hst hr
  | connecting => exact absurd (.inr hst) hc
  | connected | disconnected => rfl

/-- A state that is neither connected nor attempting is disconnected. -/
theorem disconnected_of {s : State} (hc : s.connectionState ≠ .connected) (ha : attempting s = false) :
    s.connectionState = .disconnected := by
  unfold attempting at ha
  cases h : s.connectionState with
  | disconnected => rfl
  | connected => exact absurd h hc
  | connecting | reconnecting => rw [h] at ha; cases ha

theorem sync_attempting {s : State} (h : Sync (link s)) : attempting s = true ↔ s.socket = .connecting := by
  unfold Sync link at h
  unfold attempting
  cases hs : s.socket with
  | unconnected | connected => simp only [hs] at h; rw [h]; decide
  | connecting =>
    simp only [hs] at h
    rcases h with h | h <;> rw [h] <;> decide

theorem sync_disconnected {s : State} (h : Sync (link s)) (hc : s.connectionState = .disconnected) :
    s.socket = .unconnected := by
  unfold Sync link at h
  cases hs : s.socket with
  | unconnected => rfl
  | connected => simp only [hs, hc] at h; cases h
  | connecting => simp only [hs, hc] at h; rcases h with h | h <;> cases h

theorem sync_connected {s : State} (h : Sync (link s)) (hc : s.connectionState = .connected) :
    s.socket = .connected := by
  unfold Sync link at h
  cases hs : s.socket with
  | connected => rfl
  | unconnected => simp only [hs, hc] at h; cases h
  | connecting => simp only [hs, hc] at h; rcases h with h | h <;> cases h

/-- An entry point called while nothing is in progress dials. -/
theorem entry_step {s u : State} (hl : link u = link s) (h : Sync (link s)) (hc : s.connectionState ≠ .connected)
    (ha : attempting s = false) {state : ConnectionState} (hst : state = .connecting ∨ state = .reconnecting) :
    LinkStep (link s) (link (socketConnectToHost (setupConnectTimeout (setConnectionState u state)))) := by
  have hu := sync_disconnected h (disconnected_of hc ha)
  simp only [link, Link.mk.injEq] at hl
  obtain ⟨h1, -, h3, h4⟩ := hl
  obtain ⟨d, hd, he⟩ := link_entry (h1.trans hu) state
  rw [he, h3, h4]
  exact .dial (k := link s) hu hst hd

theorem connectTimeout_step {s : State} (h : Sync (link s)) : LinkStep (link s) (link (connectTimeout s)) := by
  unfold connectTimeout
  split
  · rename_i ha
    have hs := (sync_attempting h).1 ha
    have hab := link_abort s
    rw [if_neg (by rw [hs]; decide)] at hab
    have hset := link_setConnectionState (abort s) .disconnected
    rw [hab] at hset
    simp only [link, Link.mk.injEq] at hset
    obtain ⟨h1, h2, h3, h4⟩ := hset
    simp only [link_failOrSchedule, link_emitSignal]
    simp only [link, h1, h2, h3, h4]
    exact .failed (k := link s) hs
  · exact .stay _

theorem check_step {s : State} (h : Sync (link s)) : LinkStep (link s) (link (check s)) := by
  unfold check
  split
  · exact .stay _
  · rename_i hc
    have hs := sync_connected h (not_not.1 hc)
    split
    · dsimp only
      split
      · rw [link_scheduleReconnect, link_abort]
        have hset := fun (s : State) => link_setConnectionState s .disconnected
        simp only [link, Link.mk.injEq] at hset
        obtain ⟨h1, -, h3, h4⟩ := hset { s with pendingPing := false, consecutiveFailures := s.consecutiveFailures + 1 }
        rw [if_neg (by rw [h1, hs]; decide)]
        simp only [link, h3, h4]
        exact .lost (k := link s) hs
      · exact .stay _
    · exact .stay _

theorem heartbeatTick_link (s : State) : link (heartbeatTick s) = link s := by
  unfold heartbeatTick
  split
  · rfl
  · split
    · rfl
    · exact link_send _ _

theorem rearm_link (s : State) : link (rearm s) = link s := by
  unfold rearm
  split
  · exact link_scheduleReconnect _
  · rfl

theorem attemptReconnect_step {s : State} (h : Sync (link s))
    (ho : ¬ (s.autoReconnectEnabled = true ∧ s.connectFailures < kMaxConnectAttempts ∧ attempting s = true)) :
    LinkStep (link s) (link (attemptReconnect s)) := by
  unfold attemptReconnect
  split
  · exact .stay _
  · rename_i hauto
    split
    · exact .stay _
    · rename_i hc
      split
      · exact .stay _
      · rename_i hf
        have ha : attempting s = false := by
          by_contra ht
          exact ho ⟨by simpa using hauto, Nat.lt_of_not_le hf, by simpa using ht⟩
        exact entry_step (u := emitSignal s _) rfl h hc ha (.inr rfl)

/-- **The kinds of steps** of a link whose state says what its socket does. -/
theorem step_link {s : State} (h : Sync (link s)) {l : Lbl} (ho : ¬ Overlaps s l) :
    LinkStep (link s) (link (step s l)) := by
  have hfires {l : Lbl} (hl : isTimer l = true) := timer_rule (s := s) (P := fun u => LinkStep (link s) (link u)) hl (.stay _)
  cases l with
  | connectToDaemon =>
    simp only [step, connectToDaemon]
    split
    · exact .stay _
    · rename_i hc
      exact entry_step rfl h (fun hcon => hc (.inl hcon)) (attempting_of_entry hc ho) (.inl rfl)
  | connectToHost address port =>
    simp only [step, connectToHost]
    split
    · exact .stay _
    · rename_i hc
      exact entry_step (u := { s with host := address, port := port }) rfl h (fun hcon => hc (.inl hcon))
        (attempting_of_entry hc ho) (.inl rfl)
  | enableAutoReconnect enable =>
    simp only [step, enableAutoReconnect]
    split
    · exact .reset (link s)
    · split <;> exact .stay _
  | setRequestTimeout ms => exact .stay _
  | send => rw [step, link_send]; exact .stay _
  | socketConnected =>
    simp only [step]
    split
    · rename_i hs
      rw [link_connectedSlot]
      exact .established (k := link s) hs
    · exact .stay _
  | socketError error =>
    simp only [step]
    have hatt := sync_attempting h
    split
    · exact .stay _
    · rename_i hs
      have he : link (errorSlot { s with socket := .unconnected } error) =
          ⟨.unconnected, .disconnected, s.connectFailures + 1, s.dials⟩ :=
        (link_errorSlot _ error).trans (if_pos (hatt.2 hs))
      rw [he]
      exact .failed (k := link s) hs
    · rename_i hs
      rw [link_errorSlot, if_neg (by rw [hatt, hs]; decide)]
      exact .stay _
  | socketDisconnected =>
    simp only [step]
    split
    · rename_i hs
      rw [link_disconnectedSlot]
      exact .lost (k := link s) hs
    · exact .stay _
  | response id ok message =>
    simp only [step]
    split
    · rw [link_handleLine]; exact .stay _
    · exact .stay _
  | time ms now => exact .stay _
  | connectTimeout =>
    refine hfires rfl fun d _ _ => ?_
    exact connectTimeout_step (s := { s with connectTimeoutTimer := none }) h
  | reconnectTimeout =>
    refine hfires rfl fun d hd hle => ?_
    refine attemptReconnect_step (s := { s with reconnectTimer := none }) h ?_
    intro hb
    exact ho ⟨⟨d, hd, hle⟩, hb⟩
  | rearm i =>
    refine hfires rfl fun d _ _ => ?_
    rw [fire, rearm_link]
    exact .stay _
  | heartbeatTick =>
    refine hfires rfl fun d _ _ => ?_
    rw [fire, heartbeatTick_link]
    exact .stay _
  | check i =>
    refine hfires rfl fun d _ _ => ?_
    exact check_step (s := { s with checks := s.checks.eraseIdx i, checked := _ }) h
  | sweep =>
    refine hfires rfl fun d _ _ => ?_
    rw [fire, link_sweepTimedOutRequests]
    exact .stay _

/-! ## Overlapping attempts -/

/-- **A second attempt dials a socket that is connecting.** -/
theorem step_overlaps {s : State} (h : Sync (link s)) {l : Lbl} (ho : Overlaps s l) :
    ∃ d : Dial, d.found = .connecting ∧ d ∈ (step s l).dials := by
  have hmem : ∀ s' : State, s'.socket = s.socket → attempting s = true → ∀ state,
      ∃ d : Dial, d.found = .connecting ∧
        d ∈ (socketConnectToHost (setupConnectTimeout (setConnectionState s' state))).dials := by
    intro s' hs' ha state
    obtain ⟨d, hd, he⟩ := dials_entry s' state
    refine ⟨d, by rw [hd, hs']; exact (sync_attempting h).1 ha, ?_⟩
    rw [he]
    exact List.mem_append_right _ List.mem_cons_self
  have hentry : s.connectionState = .reconnecting →
      attempting s = true ∧ ¬ (s.connectionState = .connected ∨ s.connectionState = .connecting) := by
    intro hst
    unfold attempting
    rw [hst]
    decide
  cases l with
  | connectToDaemon =>
    obtain ⟨ha, hne⟩ := hentry ho
    simp only [step, connectToDaemon, if_neg hne]
    exact hmem s rfl ha .connecting
  | connectToHost address port =>
    obtain ⟨ha, hne⟩ := hentry ho
    simp only [step, connectToHost, if_neg hne]
    exact hmem { s with host := address, port := port } rfl ha .connecting
  | reconnectTimeout =>
    obtain ⟨⟨d, hd, hle⟩, hauto, hf, ha⟩ := ho
    have hc : s.connectionState ≠ .connected := by
      intro hc
      unfold attempting at ha
      rw [hc] at ha
      cases ha
    have hon : ¬ ((!s.autoReconnectEnabled) = true) := by
      rw [hauto]
      decide
    have hd' : s.reconnectTimer = some d := hd
    simp only [step, due, hd', if_pos hle, fire, attemptReconnect, if_neg hon, if_neg hc, if_neg (Nat.not_le.2 hf)]
    exact hmem (emitSignal { s with reconnectTimer := none } _) rfl ha .reconnecting
  | _ => cases ho

/-! ## Runs -/

/-- The discipline of the first `t` steps of a run: only unconnected sockets
are dialled, failed attempts are counted once each, and the connection state
says whether an attempt is in progress. -/
structure Disciplined (run : Nat → State) (t : Nat) : Prop where
  dials : ∀ m ≤ t, ∀ d ∈ (run m).dials, d.found = .unconnected
  counted : ∀ m < t, Counted (link (run m)) (link (run (m + 1)))
  state : ∀ m ≤ t, attempting (run m) = true ↔ (run m).socket = .connecting

/-- The state says what the socket does, and only unconnected sockets have
been dialled. -/
def Orderly (s : State) : Prop := Sync (link s) ∧ ∀ d ∈ s.dials, d.found = .unconnected

theorem orderly_step {s : State} (h : Orderly s) {l : Lbl} (ho : ¬ Overlaps s l) : Orderly (step s l) :=
  ⟨sync_step h.1 (step_link h.1 ho), dials_linkStep (step_link h.1 ho) h.2⟩

theorem orderly_initial (now : Int) : Orderly (initial now) := by
  refine ⟨rfl, ?_⟩
  intro d hd
  cases hd

/-- As long as no attempt overlaps another, the run is orderly. -/
theorem run_orderly (now : Int) (σ : Nat → Lbl) (t : Nat)
    (h : ∀ m < t, ¬ Overlaps (trace step (initial now) σ m) (σ m)) : Orderly (trace step (initial now) σ t) :=
  trace_inv_guarded step (initial now) σ (G := fun s l => ¬ Overlaps s l) (orderly_initial now)
    (fun _ _ hs ho => orderly_step hs ho) t h

/-- **When attempts to connect are disciplined, exactly.** In the steps of a
run in which no attempt is made while another one is in progress. -/
theorem reconnect_discipline_iff (now : Int) (σ : Nat → Lbl) (t : Nat) :
    Disciplined (trace step (initial now) σ) t ↔
      ∀ m < t, ¬ Overlaps (trace step (initial now) σ m) (σ m) := by
  constructor
  · intro hd m
    induction m using Nat.strongRecOn with
    | ind m ih =>
      intro hm ho
      -- no earlier step overlaps, so the state before this one is orderly
      have hord := run_orderly now σ m fun j hj => ih j hj (Nat.lt_trans hj hm)
      obtain ⟨d, hfound, hmem⟩ := step_overlaps hord.1 ho
      have hun := hd.dials (m + 1) hm d hmem
      rw [hfound] at hun
      cases hun
  · intro h
    have hord : ∀ m ≤ t, Orderly (trace step (initial now) σ m) := fun m hm =>
      run_orderly now σ m fun j hj => h j (Nat.lt_of_lt_of_le hj hm)
    refine ⟨?_, ?_, ?_⟩
    · intro m hm
      exact (hord m hm).2
    · intro m hm
      exact counted_step (step_link (hord m (Nat.le_of_lt hm)).1 (h m hm))
    · intro m hm
      exact sync_attempting (hord m hm).1

/-- A connection is made and lost; the attempt to make it again hangs, and
after the 5 s re-arm the reconnect timer fires. -/
def hangingAttempt : List Lbl :=
  [.connectToDaemon, .socketConnected, .socketDisconnected, .time 2000 2000, .reconnectTimeout, .time 5000 7000, .rearm 0,
   .time 4000 11000, .reconnectTimeout]

/-- **The hanging attempt is dialled over**, counted although it goes on, and
the state says that nothing is in progress. -/
theorem hanging_attempt_dialled :
    (trace step (initial 0) (sched hangingAttempt .send) 9).dials.map (·.found) = [.unconnected, .unconnected, .connecting] ∧
    (trace step (initial 0) (sched hangingAttempt .send) 9).socket = .connecting ∧
    (trace step (initial 0) (sched hangingAttempt .send) 9).connectionState = .disconnected ∧
    (trace step (initial 0) (sched hangingAttempt .send) 9).connectFailures = 1 ∧
    ¬ Disciplined (trace step (initial 0) (sched hangingAttempt .send)) 9 := by
  have hdials : (trace step (initial 0) (sched hangingAttempt .send) 9).dials.map (·.found) =
      [.unconnected, .unconnected, .connecting] := by
    decide +kernel
  refine ⟨hdials, by decide +kernel, by decide +kernel, by decide +kernel, ?_⟩
  intro h
  have hmem : SocketState.connecting ∈
      (trace step (initial 0) (sched hangingAttempt .send) 9).dials.map (·.found) := by
    rw [hdials]
    decide
  obtain ⟨d, hd, hfound⟩ := List.mem_map.1 hmem
  have hun := h.dials 9 (Nat.le_refl 9) d hd
  rw [hfound] at hun
  cases hun

end NekoEcat.L4.Reconnect
