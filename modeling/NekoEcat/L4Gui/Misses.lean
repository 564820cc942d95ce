import NekoEcat.L4Gui.Heartbeat

/-!
# Three misses on a silent connection

On a connection that stays open and silent the checks count, and the third
one aborts the socket, as long as the sweep evicts no ping. Timers are assumed
to fire in the order they are due (`InOrder`): that is what tells the check of
an earlier connection from those of this one.

* `counting_step`: the count is the number of checks that fired.
* `checksFrom_step`: what is left of the checks of earlier connections.
* `misses_counted_iff`: the count is set back only by what may, exactly as long
  as no failure is told to a ping; and silence is counted.
* `dead_daemon_unnoticed`: with the default request timeout the sweep evicts
  the first ping before the third check.
-/
namespace NekoEcat.L4.Misses
open NekoEcat.Trace NekoEcat.L4.Connection NekoEcat.L4.Reconnect NekoEcat.L4.Heartbeat

/-! ## A silent connection -/

/-- When the active timers are due. -/
def deadlines (s : State) : List Nat :=
  s.connectTimeoutTimer.toList ++ s.reconnectTimer.toList ++ s.requestSweepTimer.toList ++ s.heartbeatTimer.toList ++
    s.rearms ++ s.checks.map (·.1)

/-- A timer fires before those that are due later. -/
def InOrder (s : State) (l : Lbl) : Prop :=
  ∀ d ∈ due s l, d ≤ s.elapsed → ∀ d' ∈ deadlines s, d ≤ d'

/-- Neither an answer nor the end of the connection, nor a change of
auto-reconnect. -/
def silent : Lbl → Bool
  | .response .. | .socketDisconnected | .enableAutoReconnect _ => false
  | _ => true

/-- A connection made at time `e` that has been silent since: the count is
the number of checks, the check of a pending ping is the only one there is,
and otherwise those that are left are of earlier connections. -/
structure Counting (e : Nat) (s : State) : Prop where
  socket : s.socket = .connected
  state : s.connectionState = .connected
  count : s.consecutiveFailures = s.checked
  few : s.checked < kMaxConsecutiveFailures
  pending : s.pendingPing = true → ∃ d, s.checks = [(d, s.connection)]
  stale : s.pendingPing = false → ∀ c ∈ s.checks, c.2 < s.connection ∧ c.1 ≤ e + 3500
  timer : ∀ d, s.heartbeatTimer = some d → e + 5000 ≤ d

theorem counting_congr {e : Nat} {s s' : State} (h : Counting e s)
    (hf : s'.consecutiveFailures = s.consecutiveFailures) (hp : s'.pendingPing = s.pendingPing)
    (hpulse : (beat s').pulse = (beat s).pulse) (hl : link s' = link s) : Counting e s' := by
  simp only [beat, Pulse.mk.injEq] at hpulse
  obtain ⟨h1, h2, h3, -, h5⟩ := hpulse
  simp only [link, Link.mk.injEq] at hl
  refine ⟨hl.1.trans h.socket, hl.2.1.trans h.state, ?_, ?_, ?_, ?_, ?_⟩
  · rw [hf, h3, h.count]
  · rw [h3]
    exact h.few
  · rw [hp, h1, h2]
    exact h.pending
  · rw [hp, h1, h2]
    exact h.stale
  · rw [h5]
    exact h.timer

theorem counting_of_beat {e : Nat} {s s' : State} (h : Counting e s) (hb : beat s' = beat s) (hl : link s' = link s) :
    Counting e s' :=
  counting_congr h (congrArg Beat.consecutiveFailures hb) (congrArg Beat.pendingPing hb) (congrArg Beat.pulse hb) hl

theorem not_attempting {s : State} (hc : s.connectionState = .connected) : attempting s = false := by
  unfold attempting
  rw [hc]
  rfl

/-- A tick sends a ping, when no check is left to fire, or does nothing. -/
theorem counting_tick {e d : Nat} {s : State} (h : Counting e s) (hd : s.heartbeatTimer = some d) (hle : d ≤ s.elapsed)
    (ho : InOrder s .heartbeatTick) : Counting e (fire s d .heartbeatTick) := by
  have hnext : e + 5000 ≤ next d 5000 s.elapsed := by
    have := h.timer d hd
    unfold next
    split <;> omega
  have htimer : ∀ d', some (next d 5000 s.elapsed) = some d' → e + 5000 ≤ d' := by
    intro d' hd'
    rw [← Option.some.inj hd']
    exact hnext
  cases hp : s.pendingPing with
  | true =>
    have hi := heartbeatTick_idle { s with heartbeatTimer := some (next d 5000 s.elapsed) } (.inr hp)
    rw [fire, hi]
    exact ⟨h.socket, h.state, h.count, h.few, h.pending, h.stale, htimer⟩
  | false =>
    -- a check of an earlier connection would have been due before this tick
    have hnil : s.checks = [] := by
      by_contra hne
      obtain ⟨c, hc⟩ := List.exists_mem_of_ne_nil _ hne
      have hdue := ho d hd hle c.1 (by
        unfold deadlines
        exact List.mem_append_right _ (List.mem_map.2 ⟨c, hc, rfl⟩))
      have := (h.stale hp c hc).2
      have := h.timer d hd
      omega
    have hb := beat_heartbeatTick { s with heartbeatTimer := some (next d 5000 s.elapsed) } h.state hp
    have hl := heartbeatTick_link { s with heartbeatTimer := some (next d 5000 s.elapsed) }
    have hcount : (fire s d .heartbeatTick).consecutiveFailures = s.consecutiveFailures :=
      congrArg Beat.consecutiveFailures hb
    have hpend : (fire s d .heartbeatTick).pendingPing = true := congrArg Beat.pendingPing hb
    have hchecks : (fire s d .heartbeatTick).checks = s.checks ++ [(s.elapsed + 3500, s.connection)] :=
      congrArg (fun b => b.pulse.checks) hb
    have hconn : (fire s d .heartbeatTick).connection = s.connection := congrArg (fun b => b.pulse.connection) hb
    have hchecked : (fire s d .heartbeatTick).checked = s.checked := congrArg (fun b => b.pulse.checked) hb
    have htick : (fire s d .heartbeatTick).heartbeatTimer = some (next d 5000 s.elapsed) :=
      congrArg (fun b => b.pulse.heartbeatTimer) hb
    refine ⟨(congrArg Link.socket hl).trans h.socket, (congrArg Link.connectionState hl).trans h.state, ?_, ?_, ?_, ?_, ?_⟩
    · rw [hcount, hchecked, h.count]
    · rw [hchecked]
      exact h.few
    · intro _
      exact ⟨s.elapsed + 3500, by rw [hchecks, hconn, hnil, List.nil_append]⟩
    · intro hf
      rw [hpend] at hf
      cases hf
    · intro d' hd'
      exact htimer d' (htick.symm.trans hd')

/-- The third miss aborts the socket; the others leave the link alone. -/
theorem link_check {s : State} (hc : s.connectionState = .connected) (hp : s.pendingPing = true) :
    (kMaxConsecutiveFailures ≤ s.consecutiveFailures + 1 → (check s).socket = .unconnected) ∧
    (¬ kMaxConsecutiveFailures ≤ s.consecutiveFailures + 1 → link (check s) = link s) := by
  unfold check
  rw [if_neg (not_not.2 hc), if_pos hp]
  dsimp only
  constructor
  · intro h3
    rw [if_pos h3]
    have hl := link_scheduleReconnect (abort (setConnectionState
      { s with pendingPing := false, consecutiveFailures := s.consecutiveFailures + 1 } .disconnected))
    have ha := link_abort (setConnectionState
      { s with pendingPing := false, consecutiveFailures := s.consecutiveFailures + 1 } .disconnected)
    refine (congrArg Link.socket (hl.trans ha)).trans ?_
    split
    · assumption
    · rfl
  · intro h3
    rw [if_neg h3]
    rfl

/-- A check of this connection finds its ping pending and no other check. -/
theorem own_check {e i : Nat} {s : State} (h : Counting e s) {c : Nat × Nat} (hi : s.checks[i]? = some c)
    (hc : c.2 = s.connection) : s.pendingPing = true ∧ s.checks.eraseIdx i = [] := by
  have hp : s.pendingPing = true := by
    by_contra hp
    have := (h.stale (by simpa using hp) c (List.mem_of_getElem? hi)).1
    omega
  obtain ⟨d, hd⟩ := h.pending hp
  have hi0 : i = 0 := by
    rw [hd] at hi
    obtain ⟨hlt, -⟩ := List.getElem?_eq_some_iff.1 hi
    simpa using hlt
  rw [hd, hi0]
  exact ⟨hp, rfl⟩

/-- What the check of this connection does: it counts, and the third aborts
the socket. -/
theorem fire_own {e d i : Nat} {s : State} (h : Counting e s) {c : Nat × Nat} (hi : s.checks[i]? = some c)
    (hc : c.2 = s.connection) :
    (s.checked + 1 < kMaxConsecutiveFailures → Counting e (fire s d (.check i)) ∧
      (fire s d (.check i)).consecutiveFailures = s.checked + 1) ∧
    (¬ s.checked + 1 < kMaxConsecutiveFailures → (fire s d (.check i)).socket = .unconnected) := by
  obtain ⟨hp, hnil⟩ := own_check h hi hc
  have hown : (s.checks[i]?.any fun c => c.2 == s.connection) = true := by
    rw [hi]
    simpa using hc
  have hfire : fire s d (.check i) = check { s with checks := [], checked := s.checked + 1 } := by
    simp only [fire, hown, hnil, if_true]
  have hb := beat_check { s with checks := [], checked := s.checked + 1 } h.state hp
  obtain ⟨hthird, hsame⟩ := link_check (s := { s with checks := [], checked := s.checked + 1 }) h.state hp
  have hcount := h.count
  rw [hfire]
  constructor
  · intro hlt
    have hn : ¬ kMaxConsecutiveFailures ≤ s.consecutiveFailures + 1 := by omega
    have hb' := hb.trans (if_neg fun h => hn h.1)
    have hf : (check { s with checks := [], checked := s.checked + 1 }).consecutiveFailures =
        s.consecutiveFailures + 1 := congrArg Beat.consecutiveFailures hb'
    have hchecks : (check { s with checks := [], checked := s.checked + 1 }).checks = [] :=
      congrArg (fun b => b.pulse.checks) hb'
    have hchecked : (check { s with checks := [], checked := s.checked + 1 }).checked = s.checked + 1 :=
      congrArg (fun b => b.pulse.checked) hb'
    have hpend : (check { s with checks := [], checked := s.checked + 1 }).pendingPing = false :=
      congrArg Beat.pendingPing hb'
    have htick : (check { s with checks := [], checked := s.checked + 1 }).heartbeatTimer = s.heartbeatTimer :=
      congrArg (fun b => b.pulse.heartbeatTimer) hb'
    have hl := hsame hn
    refine ⟨⟨(congrArg Link.socket hl).trans h.socket, (congrArg Link.connectionState hl).trans h.state, ?_, ?_, ?_, ?_, ?_⟩, ?_⟩
    · rw [hf, hchecked, hcount]
    · rw [hchecked]
      exact hlt
    · intro ht
      rw [hpend] at ht
      cases ht
    · intro _ c hcm
      rw [hchecks] at hcm
      cases hcm
    · rw [htick]
      exact h.timer
    · rw [hf, hcount]
  · intro hge
    exact hthird (by
      show kMaxConsecutiveFailures ≤ s.consecutiveFailures + 1
      omega)

/-- A check of an earlier connection does nothing. -/
theorem fire_stale {e d i : Nat} {s : State} (h : Counting e s) {c : Nat × Nat} (hi : s.checks[i]? = some c)
    (hc : c.2 ≠ s.connection) : Counting e (fire s d (.check i)) := by
  have hp : s.pendingPing = false := by
    by_contra hp
    obtain ⟨d', hd'⟩ := h.pending (by simpa using hp)
    rw [hd'] at hi
    have hm := List.mem_singleton.1 (List.mem_of_getElem? hi)
    exact hc (by rw [hm])
  have hown : (s.checks[i]?.any fun c => c.2 == s.connection) = false := by
    rw [hi]
    simpa using hc
  have hfire : fire s d (.check i) = { s with checks := s.checks.eraseIdx i } := by
    simp only [fire, hown, Bool.false_eq_true, if_false]
    exact check_idle _ (.inr hp)
  rw [hfire]
  refine ⟨h.socket, h.state, h.count, h.few, ?_, ?_, h.timer⟩
  · intro ht
    rw [show s.pendingPing = true from ht] at hp
    cases hp
  · intro _ c' hm
    exact h.stale hp c' (List.mem_of_mem_eraseIdx hm)

/-- **What a silent step keeps**, unless it ends the connection. -/
theorem counting_step {e : Nat} {s : State} (h : Counting e s) {l : Lbl} (hs : silent l = true) (hk : ¬ EvictsPing s l)
    (ho : InOrder s l) (hopen : (step s l).socket = .connected) : Counting e (step s l) := by
  have hatt := not_attempting h.state
  have hfires {l : Lbl} (hl : isTimer l = true) := timer_rule (s := s) (P := Counting e) hl h
  cases l with
  | response | socketDisconnected | enableAutoReconnect => cases hs
  | connectToDaemon =>
    rw [step, connectToDaemon, if_pos (.inl h.state)]
    exact h
  | connectToHost address port =>
    rw [step, connectToHost, if_pos (.inl h.state)]
    exact h
  | setRequestTimeout ms => exact counting_of_beat h rfl rfl
  | time ms now => exact ⟨h.socket, h.state, h.count, h.few, h.pending, h.stale, h.timer⟩
  | send =>
    simp only [step, send, if_pos h.state]
    exact counting_congr h rfl rfl rfl rfl
  | socketConnected =>
    rw [step, if_neg (by rw [h.socket]; decide)]
    exact h
  | socketError error =>
    have hl : link (errorSlot s error) = link s := by
      rw [link_errorSlot, if_neg (by rw [hatt]; decide)]
    simp only [step, h.socket]
    exact counting_of_beat h (beat_errorSlot s error) hl
  | connectTimeout =>
    refine hfires rfl fun d _ _ => ?_
    have hi : connectTimeout { s with connectTimeoutTimer := none } = { s with connectTimeoutTimer := none } :=
      if_neg (by rw [show attempting { s with connectTimeoutTimer := none } = attempting s from rfl, hatt]; decide)
    rw [fire, hi]
    exact counting_of_beat h rfl rfl
  | reconnectTimeout =>
    refine hfires rfl fun d _ _ => ?_
    have hi : attemptReconnect { s with reconnectTimer := none } = { s with reconnectTimer := none } := by
      unfold attemptReconnect
      split
      · rfl
      · exact if_pos h.state
    rw [fire, hi]
    exact counting_of_beat h rfl rfl
  | rearm i =>
    refine hfires rfl fun d _ _ => ?_
    have hi : rearm { s with rearms := s.rearms.eraseIdx i } = { s with rearms := s.rearms.eraseIdx i } :=
      if_neg fun hr => hr.1 h.state
    rw [fire, hi]
    exact counting_of_beat h rfl rfl
  | heartbeatTick => exact hfires rfl fun d hd hle => counting_tick h hd hle ho
  | check i =>
    rcases step_timer s (l := .check i) rfl with ⟨d, hd, hle, he⟩ | ⟨-, he⟩
    · obtain ⟨c, hi, -⟩ := Option.map_eq_some_iff.1 hd
      rw [he] at hopen ⊢
      by_cases hc : c.2 = s.connection
      · obtain ⟨hfew, hthird⟩ := fire_own (d := d) h hi hc
        by_cases hlt : s.checked + 1 < kMaxConsecutiveFailures
        · exact (hfew hlt).1
        · rw [hthird hlt] at hopen
          cases hopen
      · exact fire_stale h hi hc
    · rw [he]
      exact h
  | sweep =>
    refine hfires rfl fun d hd hle => ?_
    have hb := beat_sweepTimedOutRequests { s with requestSweepTimer := some (next d 2000 s.elapsed) }
    obtain ⟨hp, -, hkeep⟩ := foldl_take (timedOut s) (beat s)
    obtain ⟨h1, h2⟩ := hkeep fun id hm hl => hk ⟨rfl, ⟨d, hd, hle⟩, id, hm, hl⟩
    exact counting_congr h ((congrArg Beat.consecutiveFailures hb).trans h1)
      ((congrArg Beat.pendingPing hb).trans h2) ((congrArg Beat.pulse hb).trans hp)
      (link_sweepTimedOutRequests { s with requestSweepTimer := some (next d 2000 s.elapsed) })

/-! ## The checks that are left of earlier connections -/

/-- What a new connection starts with. -/
theorem connectedSlot_eq (s : State) (ha : s.autoReconnectEnabled = true) :
    (connectedSlot s).consecutiveFailures = 0 ∧ (connectedSlot s).pendingPing = false ∧
    (beat (connectedSlot s)).pulse = ⟨s.checks, s.connection + 1, 0, s.elapsed, some (s.elapsed + 5000)⟩ := by
  have hb := beat_setConnectionState { s with connectTimeoutTimer := none } .connected
  have hauto : (setConnectionState { s with connectTimeoutTimer := none } .connected).autoReconnectEnabled = true := by
    unfold setConnectionState
    split <;> exact ha
  simp only [beat, Beat.mk.injEq, Pulse.mk.injEq] at hb
  obtain ⟨-, -, -, h4, h5, -, h7, -⟩ := hb
  unfold connectedSlot
  simp only [emitSignal, hauto, if_true, setupAutoReconnect, beat, h4, h5, h7]
  trivial

/-- A step starts at most the check of a ping it sends. -/
structure ChecksFrom (s s' : State) : Prop where
  connection : s.connection ≤ s'.connection
  elapsed : s.elapsed ≤ s'.elapsed
  checks : ∀ c ∈ s'.checks, c ∈ s.checks ∨ c = (s.elapsed + 3500, s.connection)

theorem checksFrom_of_pulse {s s' : State} (h : (beat s').pulse = (beat s).pulse) : ChecksFrom s s' := by
  simp only [beat, Pulse.mk.injEq] at h
  obtain ⟨h1, h2, -, h4, -⟩ := h
  refine ⟨Nat.le_of_eq h2.symm, Nat.le_of_eq h4.symm, ?_⟩
  intro c hc
  exact .inl (h1 ▸ hc)

theorem pulse_abort (s : State) : (beat (abort s)).pulse = (beat s).pulse := by
  rw [beat_abort]
  split
  · rfl
  · exact (flush_eq _).1

theorem pulse_connectTimeout (s : State) : (beat (connectTimeout s)).pulse = (beat s).pulse := by
  rw [beat_connectTimeout]
  split
  · exact pulse_abort s
  · rfl

theorem pulse_check (s : State) : (beat (check s)).pulse = (beat s).pulse := by
  by_cases h : s.connectionState = .connected ∧ s.pendingPing = true
  · rw [beat_check s h.1 h.2]
    split
    · exact (flush_eq _).1
    · rfl
  · rw [check_idle s (idle_of_not h)]

theorem checksFrom_step (s : State) (l : Lbl) : ChecksFrom s (step s l) := by
  have hrefl : ChecksFrom s s := checksFrom_of_pulse rfl
  have hfires {l : Lbl} (hl : isTimer l = true) := timer_rule (s := s) (P := ChecksFrom s) hl hrefl
  cases l with
  | connectToDaemon => exact checksFrom_of_pulse (congrArg Beat.pulse (beat_connectToDaemon s))
  | connectToHost address port => exact checksFrom_of_pulse (congrArg Beat.pulse (beat_connectToHost s address port))
  | enableAutoReconnect enable =>
    simp only [step, enableAutoReconnect]
    split
    · exact ⟨Nat.le_refl _, Nat.le_refl _, fun c hc => .inl hc⟩
    · split <;> exact ⟨Nat.le_refl _, Nat.le_refl _, fun c hc => .inl hc⟩
  | setRequestTimeout ms => exact checksFrom_of_pulse rfl
  | time ms now => exact ⟨Nat.le_refl _, Nat.le_add_right _ _, fun c hc => .inl hc⟩
  | send =>
    simp only [step, send]
    split <;> exact checksFrom_of_pulse rfl
  | socketConnected =>
    simp only [step]
    split
    · have hb := beat_setConnectionState { s with socket := .connected, connectTimeoutTimer := none } .connected
      simp only [beat, Beat.mk.injEq, Pulse.mk.injEq] at hb
      obtain ⟨-, -, -, h4, h5, -, h7, -⟩ := hb
      unfold connectedSlot
      dsimp only
      split <;>
      · refine ⟨?_, ?_, ?_⟩
        · simp only [setupAutoReconnect, emitSignal, h5]
          exact Nat.le_succ _
        · simp only [setupAutoReconnect, emitSignal, h7]
          exact Nat.le_refl _
        · intro c hc
          simp only [setupAutoReconnect, emitSignal, h4] at hc
          exact .inl hc
    · exact hrefl
  | socketError error =>
    simp only [step]
    split
    · exact hrefl
    · exact checksFrom_of_pulse (congrArg Beat.pulse (beat_errorSlot { s with socket := .unconnected } error))
    · exact checksFrom_of_pulse (congrArg Beat.pulse (beat_errorSlot s error))
  | socketDisconnected =>
    simp only [step]
    split
    · exact checksFrom_of_pulse
        ((congrArg Beat.pulse (beat_disconnectedSlot { s with socket := .unconnected })).trans (flush_eq (beat s)).1)
    · exact hrefl
  | response id ok message =>
    simp only [step]
    split
    · exact checksFrom_of_pulse ((congrArg Beat.pulse (beat_handleLine s id ok message)).trans (take_eq (beat s) id).2.1)
    · exact hrefl
  | connectTimeout =>
    refine hfires rfl fun d _ _ => ?_
    exact checksFrom_of_pulse (pulse_connectTimeout { s with connectTimeoutTimer := none })
  | reconnectTimeout =>
    refine hfires rfl fun d _ _ => ?_
    exact checksFrom_of_pulse (congrArg Beat.pulse (beat_attemptReconnect { s with reconnectTimer := none }))
  | rearm i =>
    refine hfires rfl fun d _ _ => ?_
    exact checksFrom_of_pulse (congrArg Beat.pulse (beat_rearm { s with rearms := s.rearms.eraseIdx i }))
  | heartbeatTick =>
    refine hfires rfl fun d _ _ => ?_
    by_cases h : s.connectionState = .connected ∧ s.pendingPing = false
    · have hb := beat_heartbeatTick { s with heartbeatTimer := some (next d 5000 s.elapsed) } h.1 h.2
      have hchecks : (fire s d .heartbeatTick).checks = s.checks ++ [(s.elapsed + 3500, s.connection)] :=
        congrArg (fun b => b.pulse.checks) hb
      refine ⟨Nat.le_of_eq (congrArg (fun b => b.pulse.connection) hb).symm,
        Nat.le_of_eq (congrArg (fun b => b.pulse.elapsed) hb).symm, ?_⟩
      intro c hc
      rw [hchecks] at hc
      rcases List.mem_append.1 hc with hc | hc
      · exact .inl hc
      · exact .inr (List.mem_singleton.1 hc)
    · have hi := heartbeatTick_idle { s with heartbeatTimer := some (next d 5000 s.elapsed) } (idle_of_not h)
      rw [fire, hi]
      exact ⟨Nat.le_refl _, Nat.le_refl _, fun c hc => .inl hc⟩
  | check i =>
    refine hfires rfl fun d _ _ => ?_
    have hp := pulse_check { s with
      checks := s.checks.eraseIdx i
      checked := if (s.checks[i]?.any fun c => c.2 == s.connection) = true then s.checked + 1 else s.checked }
    refine ⟨Nat.le_of_eq (congrArg Pulse.connection hp).symm, Nat.le_of_eq (congrArg Pulse.elapsed hp).symm, ?_⟩
    intro c hc
    rw [show (fire s d (.check i)).checks = s.checks.eraseIdx i from congrArg Pulse.checks hp] at hc
    exact .inl (List.mem_of_mem_eraseIdx hc)
  | sweep =>
    refine hfires rfl fun d _ _ => ?_
    have hb := beat_sweepTimedOutRequests { s with requestSweepTimer := some (next d 2000 s.elapsed) }
    exact checksFrom_of_pulse ((congrArg Beat.pulse hb).trans (foldl_take (timedOut s) (beat s)).1)

/-- Every check belongs to a connection there has been, and is due within
3.5 s. -/
def Tagged (s : State) : Prop := ∀ c ∈ s.checks, c.2 ≤ s.connection ∧ c.1 ≤ s.elapsed + 3500

theorem tagged_step {s : State} (h : Tagged s) (l : Lbl) : Tagged (step s l) := by
  have hf := checksFrom_step s l
  have hconn := hf.connection
  have helapsed := hf.elapsed
  intro c hc
  rcases hf.checks c hc with hc | rfl
  · obtain ⟨h1, h2⟩ := h c hc
    omega
  · exact ⟨hconn, by omega⟩

theorem run_tagged (now : Int) (σ : Nat → Lbl) (t : Nat) : Tagged (trace step (initial now) σ t) := by
  have h0 : Tagged (initial now) := by
    intro c hc
    cases hc
  exact trace_inv step (initial now) σ (I := Tagged) h0 (fun _ l h => tagged_step h l) t

/-- A connection that has just been made. -/
theorem counting_start {s : State} (h : Tagged s) (hs : s.socket = .connecting) (ha : s.autoReconnectEnabled = true) :
    Counting s.elapsed (step s .socketConnected) := by
  obtain ⟨hf, hp, hpulse⟩ := connectedSlot_eq { s with socket := .connected } ha
  simp only [beat, Pulse.mk.injEq] at hpulse
  obtain ⟨h1, h2, h3, -, h5⟩ := hpulse
  have hl := link_connectedSlot { s with socket := .connected }
  rw [step, if_pos hs]
  refine ⟨congrArg Link.socket hl, congrArg Link.connectionState hl, ?_, ?_, ?_, ?_, ?_⟩
  · rw [hf, h3]
  · rw [h3]
    decide
  · intro ht
    rw [hp] at ht
    cases ht
  · intro _ c hc
    rw [h1] at hc
    rw [h2]
    exact ⟨Nat.lt_succ_of_le (h c hc).1, (h c hc).2⟩
  · intro d hd
    rw [h5] at hd
    exact Nat.le_of_eq (Option.some.inj hd)

/-! ## Runs -/

/-- Misses are set back only by the steps that may. -/
def ResetsExcused (run : Nat → State) (σ : Nat → Lbl) (n : Nat) : Prop :=
  ∀ m < n, 0 < (run m).consecutiveFailures → (run (m + 1)).consecutiveFailures = 0 → Excused (run m) (σ m)

/-- From `k` to `t` a connection stays open and the daemon answers nothing. -/
structure Silence (run : Nat → State) (σ : Nat → Lbl) (k t : Nat) : Prop where
  later : k < t
  made : σ k = .socketConnected
  connecting : (run k).socket = .connecting
  enabled : (run k).autoReconnectEnabled = true
  stays : ∀ m, k < m → m ≤ t → (run m).socket = .connected
  silent : ∀ m, k < m → m < t → silent (σ m) = true
  inOrder : ∀ m, k < m → m < t → InOrder (run m) (σ m)

/-- If this step is the check of a ping of the connection, it adds one miss;
the third one aborts the socket. -/
def CheckCounts (s : State) (l : Lbl) : Prop :=
  ∀ i c, l = .check i → s.checks[i]? = some c → c.1 ≤ s.elapsed → c.2 = s.connection →
    s.consecutiveFailures = s.checked ∧
    if s.checked + 1 < kMaxConsecutiveFailures then
      (step s l).consecutiveFailures = s.checked + 1 ∧ (step s l).socket = .connected
    else (step s l).socket = .unconnected

/-- A silent connection whose pings are not evicted counts. -/
theorem run_counting (now : Int) (σ : Nat → Lbl) {k t : Nat} (h : Silence (trace step (initial now) σ) σ k t)
    (hk : ∀ m, k < m → m < t → ¬ EvictsPing (trace step (initial now) σ m) (σ m)) :
    Counting (trace step (initial now) σ k).elapsed (trace step (initial now) σ t) := by
  have hall : ∀ m, k + 1 ≤ m → m ≤ t →
      Counting (trace step (initial now) σ k).elapsed (trace step (initial now) σ m) := by
    intro m hm
    induction m, hm using Nat.le_induction with
    | base =>
      intro _
      rw [trace_succ, h.made]
      exact counting_start (run_tagged now σ k) h.connecting h.enabled
    | succ m hm ih =>
      intro hmt
      have hlt : m < t := hmt
      rw [trace_succ]
      exact counting_step (ih (Nat.le_of_lt hlt)) (h.silent m hm hlt) (hk m hm hlt) (h.inOrder m hm hlt)
        (h.stays (m + 1) (Nat.lt_succ_of_lt hm) hmt)
  exact hall t h.later (Nat.le_refl t)

theorem checkCounts_of_counting {e : Nat} {s : State} (h : Counting e s) (l : Lbl) : CheckCounts s l := by
  rintro i c rfl hi hle hc
  have hd : due s (.check i) = some c.1 := by
    rw [due, hi]
    rfl
  rcases step_timer s (l := .check i) rfl with ⟨d, -, -, he⟩ | ⟨hn, -⟩
  · obtain ⟨hfew, hthird⟩ := fire_own (d := d) h hi hc
    refine ⟨h.count, ?_⟩
    rw [he]
    split
    · rename_i hlt
      exact ⟨(hfew hlt).2, (hfew hlt).1.socket⟩
    · rename_i hge
      exact hthird hge
  · exact absurd ⟨c.1, hd, hle⟩ hn

/-- **When misses are counted until a pong, exactly.** The count is set back
only by a pong, a new connection or `enableAutoReconnect` exactly as long as no
step tells the handler of a ping of a failure while misses are counted; and on
an open, silent connection every check adds a miss, and the third aborts the
socket, as long as the sweep evicts no ping. -/
theorem misses_counted_iff (now : Int) (σ : Nat → Lbl) :
    (∀ n, ResetsExcused (trace step (initial now) σ) σ n ↔
      ∀ m < n, ¬ (0 < (trace step (initial now) σ m).consecutiveFailures ∧
        FailsPing (trace step (initial now) σ m) (σ m))) ∧
    (∀ k t, Silence (trace step (initial now) σ) σ k t →
      (∀ m, k < m → m < t → ¬ EvictsPing (trace step (initial now) σ m) (σ m)) →
      CheckCounts (trace step (initial now) σ t) (σ t)) := by
  refine ⟨?_, ?_⟩
  · intro n
    constructor
    · rintro h m hm ⟨hpos, hfail⟩
      have hex := h m hm hpos ((failures_step _ (σ m)).1 hfail)
      -- no step is both
      cases hl : σ m with
      | response id ok message =>
        rw [hl] at hex hfail
        obtain ⟨-, hok, -⟩ := hex
        obtain ⟨-, hnok, -⟩ := hfail
        rw [hok] at hnok
        cases hnok
      | socketConnected | enableAutoReconnect => rw [hl] at hfail; cases hfail
      | _ => rw [hl] at hex; cases hex
    · intro h m hm hpos hz
      by_contra hex
      have hle := (failures_step _ (σ m)).2 (fun hf => h m hm ⟨hpos, hf⟩) hex
      have hz' : (step (trace step (initial now) σ m) (σ m)).consecutiveFailures = 0 := hz
      omega
  · intro k t h hk
    exact checkCounts_of_counting (run_counting now σ h hk) (σ t)

/-- A connection to a daemon that answers nothing, with every timer firing
when it is due. -/
def silentDaemon (requestTimeoutMs : Int) : List Lbl :=
  [.setRequestTimeout requestTimeoutMs, .connectToDaemon, .socketConnected,
   .time 2000 2000, .sweep, .time 2000 4000, .sweep, .time 1000 5000, .heartbeatTick, .time 1000 6000, .sweep,
   .time 2000 8000, .sweep, .time 500 8500, .check 0, .time 1500 10000, .sweep, .time 0 10000, .heartbeatTick,
   .time 2000 12000, .sweep, .time 1500 13500, .check 0, .time 500 14000, .sweep, .time 1000 15000, .heartbeatTick,
   .time 1000 16000, .sweep, .time 2000 18000, .sweep, .time 500 18500, .check 0]

theorem misses_counted_patient :
    CheckCounts (trace step (initial 0) (sched (silentDaemon 60000) .send) 32)
      (sched (silentDaemon 60000) .send 32) := by
  refine (misses_counted_iff 0 (sched (silentDaemon 60000) .send)).2 2 32 ⟨by decide, rfl, by decide +kernel, by decide +kernel, ?_, ?_, ?_⟩ ?_
  · have h : ∀ m < 33, 2 < m → (trace step (initial 0) (sched (silentDaemon 60000) .send) m).socket = .connected := by
      decide +kernel
    exact fun m h1 h2 => h m (Nat.lt_succ_of_le h2) h1
  · have h : ∀ m < 32, 2 < m → silent (sched (silentDaemon 60000) .send m) = true := by
      decide +kernel
    exact fun m h1 h2 => h m h2 h1
  · have h : ∀ m < 32, 2 < m → ∀ d ∈ due (trace step (initial 0) (sched (silentDaemon 60000) .send) m)
        (sched (silentDaemon 60000) .send m),
        ∀ d' ∈ deadlines (trace step (initial 0) (sched (silentDaemon 60000) .send) m), d ≤ d' := by
      decide +kernel
    exact fun m h1 h2 d hd _ => h m h2 h1 d hd
  · have h : ∀ m < 32, 2 < m → ∀ id ∈ timedOut (trace step (initial 0) (sched (silentDaemon 60000) .send) m),
        (trace step (initial 0) (sched (silentDaemon 60000) .send) m).handlers.lookup id ≠ some .heartbeat := by
      decide +kernel
    rintro m h1 h2 ⟨-, -, id, hm, hl⟩
    exact h m h2 h1 id hm hl

/-- **A dead daemon is not noticed.** With the default timeout of 10 s the
sweep at 16 s evicts the ping of 5 s and sets two misses back; the third check
adds none, and the socket stays connected. -/
theorem dead_daemon_unnoticed :
    (trace step (initial 0) (sched (silentDaemon 10000) .send) 28).consecutiveFailures = 2 ∧
    (trace step (initial 0) (sched (silentDaemon 10000) .send) 29).consecutiveFailures = 0 ∧
    ¬ ResetsExcused (trace step (initial 0) (sched (silentDaemon 10000) .send)) (sched (silentDaemon 10000) .send) 33 ∧
    (trace step (initial 0) (sched (silentDaemon 10000) .send) 33).checked = 3 ∧
    (trace step (initial 0) (sched (silentDaemon 10000) .send) 33).consecutiveFailures = 0 ∧
    (trace step (initial 0) (sched (silentDaemon 10000) .send) 33).socket = .connected := by
  have h28 : (trace step (initial 0) (sched (silentDaemon 10000) .send) 28).consecutiveFailures = 2 := by
    decide +kernel
  have h29 : (trace step (initial 0) (sched (silentDaemon 10000) .send) 29).consecutiveFailures = 0 := by
    decide +kernel
  refine ⟨h28, h29, ?_, by decide +kernel, by decide +kernel, by decide +kernel⟩
  intro h
  exact h 28 (by decide) (by rw [h28]; decide) h29

end NekoEcat.L4.Misses
