import NekoEcat.L2Daemon.FreeRunStart
import NekoEcat.L2Daemon.RtTest

/-!
# Cyclic loops that end by themselves

The loops of the real-time test and of Free Run end when `clock_nanosleep` fails. The
first one clears `running_` and leaves its thread to be joined and its master to be
released by `stop`; a start before that takes it for a controller that was never started.
The second one leaves `running_` set.

* `start_cases`: what a start of the real-time test can do.
* `sound_step_iff`: the steps that keep each of them sound.
* `survives_iff`: the runs in which both stay sound.
* `ended_alone`: a run of each that does not.

Limitations: a start or stop is one step, with its wait for the loop.
-/
namespace NekoEcat.L2.CyclicLife
open NekoEcat.Handles NekoEcat.Trace

/-- What is seen of a controller. -/
structure Life where
  running : Bool
  /-- the loop has not ended -/
  alive : Bool
  /-- a thread was started over one that is joinable -/
  overwritten : Bool
  /-- the most masters that were held at one time -/
  mostMasters : Nat
  /-- the masters that are held after a stop -/
  afterStop : List Nat

structure Life.Sound (l : Life) : Prop where
  alive : l.running = true → l.alive = true
  one : l.mostMasters ≤ 1
  joined : l.overwritten = false
  released : l.afterStop = []

/-! ## The real-time test -/

structure RtTestController where
  running : Bool := false
  /-- `thread_.joinable()` -/
  thread : Bool := false
  alive : Bool := false
  overwritten : Bool := false
  activeMasterIndex : UInt32 := 0
  master : Option Nat := none
  domain : Option Nat := none
  domainData : Option Nat := none
  errorCount : Nat := 0
  stats : RtTest.State := {}
  status : String := "Stopped"
  masters : Ledger Nat := .empty
  mostMasters : Nat := 0

/-- The outcome of every call inside one `start`. -/
structure RtEnv where
  requestMaster : Option Nat
  createDomain : Option Nat
  activate : Bool
  domainData : Option Nat

namespace RtTestController

/-- The range that a cycle time is refused outside of. -/
def OutOfRange (cycleUsec : Int32) : Prop := cycleUsec < 500 ∨ 1000000 < cycleUsec

instance (cycleUsec : Int32) : Decidable (OutOfRange cycleUsec) := inferInstanceAs (Decidable (_ ∨ _))

/-- mirrors apps/ecatd/RtTestController.cpp:250-258 -/
def cleanup (s : RtTestController) : RtTestController :=
  { s with
    masters := s.masters.releaseIf s.master
    master := none
    domain := none
    domainData := none }

/-- One more master is held. -/
def acquire (m : Nat) (s : RtTestController) : RtTestController :=
  { s with
    master := some m
    masters := s.masters.acquire m
    mostMasters := max s.mostMasters (s.masters.live.length + 1) }

/-- mirrors apps/ecatd/RtTestController.cpp:84-104 -/
def launch (env : RtEnv) (masterIndex : UInt32) (s : RtTestController) : RtTestController :=
  { s with
    domainData := env.domainData
    activeMasterIndex := masterIndex
    errorCount := 0
    stats := {}
    status := "Running"
    running := true
    overwritten := s.overwritten || s.thread
    thread := true
    alive := true }

/-- mirrors apps/ecatd/RtTestController.cpp:31-105 -/
def start (env : RtEnv) (masterIndex : UInt32) (cycleUsec : Int32) (s : RtTestController) :
    Except String Unit × RtTestController :=
  if OutOfRange cycleUsec then
    (.error (QString.arg "cycleUsec %1 out of range; use 500..1000000 usec." (QString.number cycleUsec.toInt)), s)
  else if s.running then
    if masterIndex = s.activeMasterIndex then (.ok (), s)
    else
      (.error (QString.arg "RT test is already running on master %1." (QString.number s.activeMasterIndex.toNat)), s)
  else
    match env.requestMaster with
    | none =>
      (.error (QString.arg "Failed to request IgH master %1. Stop other EtherCAT applications and retry."
        (QString.number masterIndex.toNat)), cleanup { s with master := none })
    | some m =>
      let s := s.acquire m
      match env.createDomain with
      | none => (.error "Failed to create EtherCAT process data domain.", cleanup { s with domain := none })
      | some d =>
        let s := { s with domain := some d }
        if env.activate then (.ok (), s.launch env masterIndex) else (.error "Failed to activate IgH master.", cleanup s)

/-- The loop is joined.
mirrors apps/ecatd/RtTestController.cpp:107-117 -/
def stop (s : RtTestController) : RtTestController :=
  { cleanup { s with running := false, thread := false, alive := false } with status := "Stopped" }

/-- The sleep failed.
mirrors apps/ecatd/RtTestController.cpp:199-204 -/
def selfExit (s : RtTestController) : RtTestController :=
  if s.alive then { s with running := false, alive := false } else s

inductive Ev where
  | start (env : RtEnv) (masterIndex : UInt32) (cycleUsec : Int32)
  | stop
  | cycle (cycleDelta : Int)
  | selfExit

def step (s : RtTestController) : Ev → RtTestController
  | .start env masterIndex cycleUsec => (start env masterIndex cycleUsec s).2
  | .stop => stop s
  | .cycle cycleDelta => if s.alive then { s with stats := RtTest.record s.stats cycleDelta } else s
  | .selfExit => selfExit s

def life (s : RtTestController) : Life := ⟨s.running, s.alive, s.overwritten, s.mostMasters, (stop s).masters.live⟩

/-- A start that is carried out finds no thread of an earlier one. -/
def Fresh (s : RtTestController) : Ev → Prop
  | .start _ _ cycleUsec => OutOfRange cycleUsec ∨ s.running = true ∨ s.thread = false
  | .stop | .cycle _ | .selfExit => True

/-- The fields of the master, cleared. -/
def dropped (s : RtTestController) : RtTestController := { s with master := none, domain := none, domainData := none }

/-- What a start can do. -/
inductive Started (s : RtTestController) (cycleUsec : Int32) : RtTestController → Prop
  | refused (h : OutOfRange cycleUsec ∨ s.running = true) : Started s cycleUsec s
  | denied (hrange : ¬OutOfRange cycleUsec) (hidle : s.running = false) : Started s cycleUsec s.dropped
  | failed (hrange : ¬OutOfRange cycleUsec) (hidle : s.running = false) :
    Started s cycleUsec { s.dropped with mostMasters := max s.mostMasters (s.masters.live.length + 1) }
  | launched (hrange : ¬OutOfRange cycleUsec) (hidle : s.running = false) (m : Nat) (d : Option Nat) (env : RtEnv)
    (masterIndex : UInt32) : Started s cycleUsec ({ s.acquire m with domain := d }.launch env masterIndex)

theorem start_cases (env : RtEnv) (masterIndex : UInt32) (cycleUsec : Int32) (s : RtTestController) :
    Started s cycleUsec (start env masterIndex cycleUsec s).2 := by
  unfold start
  by_cases hrange : OutOfRange cycleUsec
  · rw [if_pos hrange]
    exact .refused (.inl hrange)
  rw [if_neg hrange]
  by_cases hrunning : s.running = true
  · rw [if_pos hrunning]
    have hrefused : Started s cycleUsec s := .refused (.inr hrunning)
    split
    · exact hrefused
    · exact hrefused
  · rw [if_neg hrunning]
    have hidle : s.running = false := Bool.eq_false_iff.2 hrunning
    have hback (m : Nat) (d : Option Nat) : cleanup { s.acquire m with domain := d } =
        { s.dropped with mostMasters := max s.mostMasters (s.masters.live.length + 1) } := by
      simp only [cleanup, acquire, Ledger.releaseIf_acquire, dropped]
    cases env.requestMaster with
    | none => exact .denied hrange hidle
    | some m =>
      cases env.createDomain with
      | none =>
        simp only [hback]
        exact .failed hrange hidle
      | some d =>
        cases env.activate with
        | true =>
          simp only [if_true]
          exact .launched hrange hidle m (some d) env masterIndex
        | false =>
          simp only [Bool.false_eq_true, if_false, hback]
          exact .failed hrange hidle

/-- What every step keeps, whatever the run. -/
structure Kept (s : RtTestController) : Prop where
  alive : s.running = true → s.alive = true
  idle : s.thread = false → s.master = none
  lent : s.thread = true → s.masters.live ≠ []

theorem kept_step {s : RtTestController} (h : Kept s) (e : Ev) : Kept (step s e) := by
  cases e with
  | start env masterIndex cycleUsec =>
    have hstarted := start_cases env masterIndex cycleUsec s
    show Kept (start env masterIndex cycleUsec s).2
    revert hstarted
    generalize (start env masterIndex cycleUsec s).2 = s'
    intro hstarted
    cases hstarted with
    | refused => exact h
    | denied hrange hidle => exact ⟨h.alive, fun _ => rfl, h.lent⟩
    | failed hrange hidle => exact ⟨h.alive, fun _ => rfl, h.lent⟩
    | launched hrange hidle m d env masterIndex =>
      exact ⟨fun _ => rfl, nofun, fun _ => List.cons_ne_nil _ _⟩
  | stop => exact ⟨nofun, fun _ => rfl, nofun⟩
  | cycle cycleDelta =>
    simp only [step]
    split
    · exact ⟨h.alive, h.idle, h.lent⟩
    · exact h
  | selfExit =>
    simp only [step, selfExit]
    split
    · exact ⟨nofun, h.idle, h.lent⟩
    · exact h

/-- With no thread to join, nothing is held. -/
theorem masters_nil {s : RtTestController} (h : Kept s) (hsound : s.life.Sound) (hthread : s.thread = false) :
    s.masters.live = [] := by
  have hreleased : (s.masters.releaseIf s.master).live = [] := hsound.released
  rwa [h.idle hthread] at hreleased

/-- **The steps that keep the real-time test sound.** -/
theorem sound_step_iff {s : RtTestController} (h : Kept s) (hsound : s.life.Sound) (e : Ev) :
    (step s e).life.Sound ↔ Fresh s e := by
  cases e with
  | start env masterIndex cycleUsec =>
    have hstarted := start_cases env masterIndex cycleUsec s
    show (start env masterIndex cycleUsec s).2.life.Sound ↔ _
    revert hstarted
    generalize (start env masterIndex cycleUsec s).2 = s'
    intro hstarted
    cases hstarted with
    | refused hrefused => exact iff_of_true hsound (hrefused.imp_right .inl)
    | denied hrange hidle =>
      cases hthread : s.thread with
      | true =>
        refine iff_of_false (fun hafter => h.lent hthread hafter.released) ?_
        simp [Fresh, hrange, hidle, hthread]
      | false =>
        have hnil := masters_nil h hsound hthread
        exact iff_of_true ⟨h.alive, hsound.one, hsound.joined, hnil⟩ (.inr (.inr hthread))
    | failed hrange hidle =>
      cases hthread : s.thread with
      | true =>
        refine iff_of_false (fun hafter => h.lent hthread hafter.released) ?_
        simp [Fresh, hrange, hidle, hthread]
      | false =>
        have hnil := masters_nil h hsound hthread
        refine iff_of_true ⟨h.alive, ?_, hsound.joined, hnil⟩ (.inr (.inr hthread))
        show max s.mostMasters (s.masters.live.length + 1) ≤ 1
        rw [hnil]
        exact Nat.max_le.2 ⟨hsound.one, Nat.le_refl 1⟩
    | launched hrange hidle m d env masterIndex =>
      have hone : (({ s.acquire m with domain := d } : RtTestController).launch env masterIndex).life.mostMasters =
        max s.mostMasters (s.masters.live.length + 1) := rfl
      cases hthread : s.thread with
      | true =>
        refine iff_of_false (fun hafter => ?_) ?_
        · have hlent := List.length_pos_iff.2 (h.lent hthread)
          have hmost := hafter.one
          rw [hone] at hmost
          omega
        · simp [Fresh, hrange, hidle, hthread]
      | false =>
        have hnil := masters_nil h hsound hthread
        refine iff_of_true ⟨fun _ => rfl, ?_, ?_, ?_⟩ (.inr (.inr hthread))
        · rw [hone, hnil]
          exact Nat.max_le.2 ⟨hsound.one, Nat.le_refl 1⟩
        · show (s.overwritten || s.thread) = false
          rw [hthread, Bool.or_false]
          exact hsound.joined
        · show ((s.masters.acquire m).releaseIf (some m)).live = []
          rw [Ledger.releaseIf_acquire, hnil]
  | stop =>
    refine iff_of_true ⟨nofun, hsound.one, hsound.joined, ?_⟩ trivial
    exact hsound.released
  | cycle cycleDelta =>
    refine iff_of_true ?_ trivial
    simp only [step]
    split
    · exact ⟨hsound.alive, hsound.one, hsound.joined, hsound.released⟩
    · exact hsound
  | selfExit =>
    refine iff_of_true ?_ trivial
    simp only [step, selfExit]
    split
    · exact ⟨nofun, hsound.one, hsound.joined, hsound.released⟩
    · exact hsound

theorem kept_new : Kept {} := ⟨nofun, fun _ => rfl, nofun⟩

theorem sound_new : ({} : RtTestController).life.Sound := ⟨nofun, Nat.zero_le 1, rfl, rfl⟩

end RtTestController

/-! ## Free Run -/

open NekoEcat.L2.FreeRunStart (State Stats MasterState DomainState Settled Idle Running)

structure FreeRunController where
  state : State
  alive : Bool := false
  overwritten : Bool := false
  mostMasters : Nat := 0

namespace FreeRunController

inductive Ev where
  | start (env : FreeRunStart.Env) (masterIndex : UInt32)
  | stop
  | cycle (stats : Stats) (masterState : MasterState) (domainState : DomainState)
  | selfExit

/-- The start gets as far as a master. -/
def acquires (env : FreeRunStart.Env) (s : State) : Bool :=
  !s.c.running &&
    match env.discovery with
    | .error _ => false
    | .ok slaves => !slaves.isEmpty && env.requestMaster.isSome

/-- The start gets as far as the thread. -/
def launches (env : FreeRunStart.Env) (masterIndex : UInt32) (s : State) : Bool :=
  !s.c.running && (FreeRunStart.start env masterIndex s).2.c.running

/-- A loop ends by itself without a trace in the controller; what is no longer joinable
has ended.
mirrors apps/ecatd/FreeRunController.cpp:407-429, 715-733 -/
def step (f : FreeRunController) : Ev → FreeRunController
  | .start env masterIndex =>
    let state := (FreeRunStart.start env masterIndex f.state).2
    { state
      alive := state.c.thread && (f.alive || launches env masterIndex f.state)
      overwritten := f.overwritten || (launches env masterIndex f.state && f.state.c.thread)
      mostMasters :=
        if acquires env f.state then max f.mostMasters (f.state.w.masters.live.length + 1) else f.mostMasters }
  | .stop => { f with state := FreeRunStart.stop f.state, alive := false }
  | .cycle stats masterState domainState =>
    if f.alive then { f with state := FreeRunStart.step f.state (.cycle stats masterState domainState) } else f
  | .selfExit => { f with alive := false }

def life (f : FreeRunController) : Life :=
  ⟨f.state.c.running, f.alive, f.overwritten, f.mostMasters, (FreeRunStart.stop f.state).w.masters.live⟩

/-- The loop does not end by itself. -/
def Lasting (f : FreeRunController) : Ev → Prop
  | .selfExit => f.alive = false
  | .start _ _ | .stop | .cycle _ _ _ => True

/-- What every step keeps, whatever the run. -/
structure Kept (f : FreeRunController) : Prop where
  settled : Settled f.state
  running : f.alive = true → f.state.c.running = true
  one : f.mostMasters ≤ 1
  joined : f.overwritten = false

theorem running_eq_thread {s : State} (h : Settled s) : s.c.running = s.c.thread := by
  rcases h with h | h
  · rw [h.running.1, h.running.2]
  · rw [h.running.1, h.running.2]

theorem kept_step {f : FreeRunController} (h : Kept f) (e : Ev) : Kept (step f e) := by
  cases e with
  | start env masterIndex =>
    have hsettled : Settled (FreeRunStart.start env masterIndex f.state).2 :=
      FreeRunStart.step_settled f.state (.start env masterIndex) h.settled
    refine ⟨hsettled, fun halive => ?_, ?_, ?_⟩
    · show (FreeRunStart.start env masterIndex f.state).2.c.running = true
      rw [running_eq_thread hsettled]
      exact (Bool.and_eq_true_iff.1 halive).1
    · show (if acquires env f.state then max f.mostMasters (f.state.w.masters.live.length + 1) else f.mostMasters) ≤ 1
      split
      · rename_i hacquires
        -- a controller that does not run holds none
        have hstopped : f.state.c.running = false := by simpa using (Bool.and_eq_true_iff.1 hacquires).1
        have hidle := h.settled.idle hstopped
        rw [hidle.ledgers.1]
        exact Nat.max_le.2 ⟨h.one, Nat.le_refl 1⟩
      · exact h.one
    · show (f.overwritten || (launches env masterIndex f.state && f.state.c.thread)) = false
      rw [h.joined, Bool.false_or, launches, running_eq_thread h.settled]
      cases f.state.c.thread <;> simp
  | stop => exact ⟨.inl (FreeRunStart.stop_idle h.settled.owned), fun hstopped => (by cases hstopped), h.one, h.joined⟩
  | cycle stats masterState domainState =>
    simp only [step]
    split
    · rename_i halive
      have hrunning := h.running halive
      have hsettled := FreeRunStart.step_settled f.state (.cycle stats masterState domainState) h.settled
      refine ⟨hsettled, fun _ => ?_, h.one, h.joined⟩
      simp only [FreeRunStart.step, hrunning, if_true]
    · exact h
  | selfExit => exact ⟨h.settled, fun hstopped => (by cases hstopped), h.one, h.joined⟩

/-- All but the running flag is right in every run. -/
theorem Kept.sound_iff {f : FreeRunController} (h : Kept f) :
    f.life.Sound ↔ (f.state.c.running = true → f.alive = true) := by
  refine ⟨fun hsound => hsound.alive, fun halive => ⟨halive, h.one, h.joined, ?_⟩⟩
  show (FreeRunStart.stop f.state).w.masters.live = []
  rw [(FreeRunStart.stop_idle h.settled.owned).ledgers.1]
  rfl

/-- **The steps that keep Free Run sound.** -/
theorem sound_step_iff {f : FreeRunController} (h : Kept f) (hsound : f.life.Sound) (e : Ev) :
    (step f e).life.Sound ↔ Lasting f e := by
  rw [(kept_step h e).sound_iff]
  cases e with
  | start env masterIndex =>
    refine iff_of_true (fun hrunning => ?_) trivial
    have hsettled : Settled (FreeRunStart.start env masterIndex f.state).2 :=
      FreeRunStart.step_settled f.state (.start env masterIndex) h.settled
    have hrunning : (FreeRunStart.start env masterIndex f.state).2.c.running = true := hrunning
    show ((FreeRunStart.start env masterIndex f.state).2.c.thread &&
      (f.alive || launches env masterIndex f.state)) = true
    rw [← running_eq_thread hsettled, hrunning, Bool.true_and, launches, hrunning, Bool.and_true]
    cases hbefore : f.state.c.running with
    | true =>
      have halive : f.alive = true := hsound.alive hbefore
      rw [halive, Bool.true_or]
    | false => exact Bool.or_true _
  | stop =>
    refine iff_of_true (fun hrunning => ?_) trivial
    rw [show (step f .stop).state.c.running = false from (FreeRunStart.stop_idle h.settled.owned).running.1] at hrunning
    cases hrunning
  | cycle stats masterState domainState =>
    refine iff_of_true ?_ trivial
    simp only [step]
    split
    · rename_i halive
      exact fun _ => halive
    · exact hsound.alive
  | selfExit =>
    show (f.state.c.running = true → false = true) ↔ f.alive = false
    constructor
    · intro hended
      cases halive : f.alive with
      | true => exact (hended (h.running halive)).symm
      | false => rfl
    · intro hended hrunning
      have halive : f.alive = true := hsound.alive hrunning
      rw [← hended, halive]

def initial (foreign : Bool) : FreeRunController := { state := FreeRunStart.initial foreign }

theorem kept_initial (foreign : Bool) : Kept (initial foreign) :=
  ⟨.inl (FreeRunStart.initial_idle foreign), nofun, Nat.zero_le 1, rfl⟩

theorem sound_initial (foreign : Bool) : (initial foreign).life.Sound := (kept_initial foreign).sound_iff.2 nofun

end FreeRunController

/-! ## Runs -/

/-- **The controllers stay sound** in the runs in which the real-time test is stopped
after its loop ended by itself before it is started again, and the loop of Free Run does
not end by itself. -/
theorem survives_iff (rtTest : List RtTestController.Ev) (foreign : Bool) (freeRun : List FreeRunController.Ev) :
    ((∀ pre, pre <+: rtTest → (exec RtTestController.step {} pre).life.Sound) ↔
        Along RtTestController.step RtTestController.Fresh {} rtTest) ∧
      ((∀ pre, pre <+: freeRun → (exec FreeRunController.step (.initial foreign) pre).life.Sound) ↔
        Along FreeRunController.step FreeRunController.Lasting (.initial foreign) freeRun) := by
  constructor
  · exact along_iff RtTestController.step (I := fun s => s.life.Sound) (fun _ e h => RtTestController.kept_step h e)
      (fun _ e h hsound => RtTestController.sound_step_iff h hsound e) rtTest RtTestController.kept_new
      RtTestController.sound_new
  · exact along_iff FreeRunController.step (I := fun f => f.life.Sound) (fun _ e h => FreeRunController.kept_step h e)
      (fun _ e h hsound => FreeRunController.sound_step_iff h hsound e) freeRun
      (FreeRunController.kept_initial foreign) (FreeRunController.sound_initial foreign)

/-- Every call succeeds. -/
def granted : RtEnv := ⟨some 0, some 0, true, none⟩

/-- The master is still reserved. -/
def busy : RtEnv := { granted with requestMaster := none }

/-- Free Run is started on a slave without process data. -/
def freeRunGranted : FreeRunStart.Env where
  discovery := .ok [⟨0, 0, 0, 0, []⟩]
  requestMaster := some 0
  createDomain := some 0
  slaveConfig _ := true
  configPdos _ := true
  regList := true
  place _ := (0, 0)
  activate := true
  domainData := some []
  masterState := {}
  domainState := {}
  shmOpen := some 3
  ftruncate := true
  mmap := some 0
  object := []

/-- The real-time test loses the master of the loop that ended; Free Run runs without
its loop. -/
theorem ended_alone :
    (¬∀ rtTest : List RtTestController.Ev, (exec RtTestController.step {} rtTest).life.Sound) ∧
      ¬∀ (foreign : Bool) (freeRun : List FreeRunController.Ev),
        (exec FreeRunController.step (.initial foreign) freeRun).life.Sound := by
  constructor
  · intro hsound
    have hreleased := (hsound [.start granted 0 1000, .selfExit, .start busy 0 1000]).released
    exact absurd hreleased (by decide)
  · intro hsound
    have halive := (hsound false [.start freeRunGranted 0, .selfExit]).alive rfl
    cases halive

end NekoEcat.L2.CyclicLife
