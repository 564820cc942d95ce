import NekoEcat.Core.QNumber
import NekoEcat.L2Daemon.Registration

/-!
# The reservation cached by the native backend

`MasterGuard` keeps the master of the last native request reserved until a
request names another one or the backend is replaced. Free Run asks for a
master of its own. IgH grants a master to one holder at a time.

* `cached_iff`: which reservation a daemon holds, read off its requests.
* `undisturbed_iff`: the runs in which Free Run never meets it.
* `read_then_start`: one in which it does.
-/
namespace NekoEcat.L2.NativeMaster
open NekoEcat.Trace NekoEcat.QNumber NekoEcat.L2.FreeRunStart

/-- The backend part of `EcatDaemon` and its Free Run controller; `cached` is
`cachedMasterIndex_` while `cachedMaster_` is not null. -/
structure Daemon where
  /-- `backend_->isNative()` -/
  native : Bool
  cached : Option Int
  backendMode : String
  freeRun : State

/-- How `ecrt_open_master` and `ecrt_master_reserve` answer a daemon that is
alone with the master. -/
structure Grant where
  opens : Bool
  reserves : Bool

/-- The argument of `ecrt_open_master(unsigned int)`. -/
def ecrtIndex (index : Int) : UInt32 := UInt32.ofInt index

/-- The master Free Run holds. -/
def Daemon.freeRunMaster (d : Daemon) : Option UInt32 := d.freeRun.c.master.map fun _ => d.freeRun.c.activeMasterIndex

/-- IgH reserves a master that nobody holds. -/
def Daemon.grants (d : Daemon) (g : Grant) (index : Int) : Bool :=
  g.opens && g.reserves && decide (d.freeRunMaster ≠ some (ecrtIndex index))

/-- The guard's constructor: whether it holds a master afterwards.
mirrors src/igh/EthercatNativeBackend.cpp:12-34 -/
def masterGuard (d : Daemon) (g : Grant) (index : Int) : Bool × Daemon :=
  if d.cached = some index then (true, d)
  else if d.grants g index then (true, { d with cached := some index })
  else (false, { d with cached := none })

/-- `master.toInt(&ok)`, or 0. -/
def masterIndex (master : List Char) : Int := (toInt 10 master).getD 0

/-- mirrors src/igh/EthercatNativeBackend.cpp:62-69 -/
def acquireMaster (d : Daemon) (g : Grant) (master : List Char) : Bool × Daemon := masterGuard d g (masterIndex master)

/-- The start of every request that the native backend answers itself
(`masterText`, `scanSlaves`, `slaveInfo`, `pdos`, `upload`, `download`).
mirrors src/igh/EthercatNativeBackend.cpp:128-135 -/
def request (d : Daemon) (g : Grant) (master : List Char) : Except String Unit × Daemon :=
  if d.native then
    let (ok, d) := acquireMaster d g master
    (if ok then .ok () else .error "Failed to open EtherCAT master", d)
  else (.ok (), d)

/-- `error`: whether the diagnostics of a new native backend report one. The
destructor of a replaced backend releases its master.
mirrors apps/ecatd/EcatDaemon.cpp:454-503 -/
def setBackendMode (d : Daemon) (mode : String) (error : Bool) : Daemon :=
  let d := { d with backendMode := mode }
  if mode = "cli" then if d.native then { d with native := false, cached := none } else d
  else if mode = "native" then if d.native then d else { d with native := true, cached := none }
  else if error then d
  else { d with native := true, cached := none }

/-- IgH refuses a master that the native backend holds. -/
def requestEnv (d : Daemon) (env : Env) (i : UInt32) : Env :=
  if d.cached.map ecrtIndex = some i then { env with requestMaster := none } else env

/-- mirrors apps/ecatd/freerun_rpc_handlers.cpp:29-36 -/
def freeRunStart (d : Daemon) (env : Env) (master : List Char) : Except String Unit × Daemon :=
  match toUInt 10 master with
  | none => (.error "Free Run requires a numeric IgH master index.", d)
  | some i =>
    let r := start (requestEnv d env (UInt32.ofNat i)) (UInt32.ofNat i) d.freeRun
    (r.1, { d with freeRun := r.2 })

/-- A request with its trimmed `master` and what its calls are answered. -/
inductive Rpc where
  | setBackend (mode : String) (error : Bool)
  | native (master : List Char) (g : Grant)
  | freeRunStart (master : List Char) (env : Env)
  | freeRunStop

def step (d : Daemon) : Rpc → Daemon
  | .setBackend mode error => setBackendMode d mode error
  | .native master g => (request d g master).2
  | .freeRunStart master env => (freeRunStart d env master).2
  | .freeRunStop => { d with freeRun := stop d.freeRun }

/-- A new daemon. -/
def initial (foreign : Bool) : Daemon := ⟨false, none, "auto", FreeRunStart.initial foreign⟩

/-! ## The cached reservation -/

/-- The request takes a reservation of this master. -/
def Takes (index : Int) (d : Daemon) (l : Rpc) : Prop :=
  ∃ master g, l = .native master g ∧ d.native = true ∧ masterIndex master = index ∧ d.grants g index = true

/-- The request ends one: another master is asked for, or the backend replaced. -/
def Drops (index : Int) (d : Daemon) : Rpc → Prop
  | .native master _ => d.native = true ∧ masterIndex master ≠ index
  | .setBackend mode error => (mode = "cli" ∧ d.native = true) ∨ (mode ≠ "cli" ∧ mode ≠ "native" ∧ error = false)
  | _ => False

/-- Only a native backend caches. -/
def Wf (d : Daemon) : Prop := d.cached ≠ none → d.native = true

theorem step_wf (d : Daemon) (l : Rpc) (h : Wf d) : Wf (step d l) := by
  cases l with
  | setBackend mode error =>
    simp only [step, setBackendMode]
    split
    · split
      · exact fun hc => absurd rfl hc
      · exact h
    · split
      · split
        · exact h
        · exact fun _ => rfl
      · split
        · exact h
        · exact fun _ => rfl
  | native master g =>
    simp only [step, request]
    by_cases hn : d.native = true
    · simp only [hn, if_true, acquireMaster, masterGuard]
      split
      · exact h
      · split
        · exact fun _ => rfl
        · exact fun _ => rfl
    · simp only [hn, Bool.false_eq_true, if_false]
      exact h
  | freeRunStart master env =>
    simp only [step, freeRunStart]
    split <;> exact h
  | freeRunStop => exact h

theorem cached_native (index : Int) (d : Daemon) (master : List Char) (g : Grant) :
    (step d (.native master g)).cached = some index ↔
      Takes index d (.native master g) ∨ (d.cached = some index ∧ ¬ Drops index d (.native master g)) := by
  have htakes : Takes index d (.native master g) ↔
      d.native = true ∧ masterIndex master = index ∧ d.grants g index = true := by
    constructor
    · rintro ⟨_, _, ⟨⟩, h⟩
      exact h
    · exact fun h => ⟨master, g, rfl, h⟩
  rw [htakes]
  simp only [step, request, Drops]
  by_cases hn : d.native = true
  · simp only [hn, if_true, acquireMaster, masterGuard, true_and, ne_eq, not_not]
    by_cases hc : d.cached = some (masterIndex master)
    · rw [if_pos hc]
      constructor
      · intro h
        exact .inr ⟨h, Option.some.inj (hc.symm.trans h)⟩
      · rintro (⟨h, -⟩ | ⟨h, -⟩)
        · exact h ▸ hc
        · exact h
    · rw [if_neg hc]
      by_cases hg : d.grants g (masterIndex master) = true
      · rw [if_pos hg]
        constructor
        · intro h
          have h : masterIndex master = index := Option.some.inj h
          exact .inl ⟨h, h ▸ hg⟩
        · rintro (⟨h, -⟩ | ⟨h, hm⟩)
          · exact congrArg some h
          · exact absurd (hm ▸ h) hc
      · rw [if_neg hg]
        refine iff_of_false (by simp) ?_
        rintro (⟨h, hg'⟩ | ⟨h, hm⟩)
        · exact hg (h ▸ hg')
        · exact hc (hm ▸ h)
  · simp [hn]

theorem cached_setBackend (index : Int) (d : Daemon) (h : Wf d) (mode : String) (error : Bool) :
    (step d (.setBackend mode error)).cached = some index ↔
      d.cached = some index ∧ ¬ Drops index d (.setBackend mode error) := by
  have hnone : d.native = false → d.cached ≠ some index := by
    intro hn hc
    have := h (by rw [hc]; simp)
    rw [hn] at this
    cases this
  simp only [step, setBackendMode, Drops]
  by_cases h1 : mode = "cli"
  · cases hn : d.native <;> simp [h1]
  · by_cases h2 : mode = "native"
    · cases hn : d.native <;> simp [h2, hnone, hn]
    · cases error <;> simp [h1, h2]

/-- **What one request does to the cached reservation.** -/
theorem cached_step (index : Int) (d : Daemon) (l : Rpc) (h : Wf d) :
    (step d l).cached = some index ↔ Takes index d l ∨ (d.cached = some index ∧ ¬ Drops index d l) := by
  cases l with
  | setBackend mode error =>
    rw [cached_setBackend index d h mode error, or_iff_right]
    rintro ⟨_, _, h, -⟩
    cases h
  | native master g => exact cached_native index d master g
  | freeRunStart master env =>
    have hsame : (step d (.freeRunStart master env)).cached = d.cached := by
      simp only [step, freeRunStart]
      split <;> rfl
    rw [hsame, or_iff_right]
    · exact ⟨fun hc => ⟨hc, id⟩, And.left⟩
    · rintro ⟨_, _, h, -⟩
      cases h
  | freeRunStop =>
    rw [or_iff_right]
    · exact ⟨fun hc => ⟨hc, id⟩, And.left⟩
    · rintro ⟨_, _, h, -⟩
      cases h

section
variable (foreign : Bool) (σ : Nat → Rpc)

theorem trace_wf (n : Nat) : Wf (trace step (initial foreign) σ n) :=
  trace_inv step _ σ (fun h => absurd rfl h) step_wf n

/-- A native request took the master, and no later one gave it up. -/
def TakenBefore (n : Nat) (index : Int) : Prop :=
  ∃ m < n, Takes index (trace step (initial foreign) σ m) (σ m) ∧
    ∀ k, m < k → k < n → ¬ Drops index (trace step (initial foreign) σ k) (σ k)

theorem cached_iff (n : Nat) (index : Int) :
    (trace step (initial foreign) σ n).cached = some index ↔ TakenBefore foreign σ n index :=
  trace_latch step _ σ (P := fun d => d.cached = some index) (trace_wf foreign σ) (by simp [initial])
    (fun d l h => cached_step index d l h) n

end

/-! ## Free Run and the cached reservation -/

/-- The start gets as far as `ecrt_request_master`. -/
def requestsMaster (env : Env) (s : State) : Bool :=
  !s.c.running && match env.discovery with
    | .ok slaves => !slaves.isEmpty
    | .error _ => false

/-- Free Run asks for this master. -/
def Asks (i : UInt32) (d : Daemon) (l : Rpc) : Prop :=
  ∃ master env n, l = .freeRunStart master env ∧ toUInt 10 master = some n ∧ UInt32.ofNat n = i ∧
    requestsMaster env d.freeRun = true

/-- Free Run asks for a master the native backend holds. -/
def Contends (d : Daemon) (l : Rpc) : Prop := ∃ i, Asks i d l ∧ d.cached.map ecrtIndex = some i

/-- A start ends as it would if the native backend held nothing. -/
def Undisturbed (d : Daemon) (l : Rpc) : Prop :=
  ∀ master env, l = .freeRunStart master env →
    (freeRunStart d env master).1 = (freeRunStart { d with cached := none } env master).1

/-- A start that does not ask for a master does not see who holds it. -/
theorem start_not_asking {env : Env} {i : UInt32} {s : State} (h : requestsMaster env s = false) :
    start { env with requestMaster := none } i s = start env i s := by
  unfold start
  cases hr : s.c.running with
  | true => rfl
  | false =>
    cases hd : env.discovery with
    | error e => rfl
    | ok slaves =>
      have he : slaves.isEmpty = true := by simpa [requestsMaster, hr, hd] using h
      simp [he]

/-- **Without contention the cache is not noticed.** -/
theorem undisturbed_of_not_contends {d : Daemon} {l : Rpc} (h : ¬ Contends d l) : Undisturbed d l := by
  rintro master env rfl
  unfold freeRunStart
  cases hm : toUInt 10 master with
  | none => rfl
  | some n =>
    simp only [requestEnv, Option.map_none, reduceCtorEq, if_false]
    by_cases hc : d.cached.map ecrtIndex = some (UInt32.ofNat n)
    · have hask : requestsMaster env d.freeRun = false := by
        by_contra hask
        exact h ⟨_, ⟨master, env, n, rfl, hm, rfl, by simpa using hask⟩, hc⟩
      rw [if_pos hc, start_not_asking hask]
    · rw [if_neg hc]

/-- A start for a master that a native request took and no later request gave
up. -/
def Blocked (foreign : Bool) (σ : Nat → Rpc) (n : Nat) : Prop :=
  ∃ index, Asks (ecrtIndex index) (trace step (initial foreign) σ n) (σ n) ∧ TakenBefore foreign σ n index

theorem contends_iff_blocked (foreign : Bool) (σ : Nat → Rpc) (n : Nat) :
    Contends (trace step (initial foreign) σ n) (σ n) ↔ Blocked foreign σ n := by
  constructor
  · rintro ⟨i, hask, hc⟩
    obtain ⟨index, hcached, rfl⟩ := Option.map_eq_some_iff.1 hc
    exact ⟨index, hask, (cached_iff foreign σ n index).1 hcached⟩
  · rintro ⟨index, hask, htaken⟩
    exact ⟨_, hask, by rw [(cached_iff foreign σ n index).2 htaken]; rfl⟩

/-- **Free Run never meets the daemon's own reservation** in a run iff no start
in it is blocked. -/
theorem undisturbed_iff (foreign : Bool) (σ : Nat → Rpc) (n : Nat) :
    (∀ m < n, ¬ Contends (trace step (initial foreign) σ m) (σ m) ∧
      Undisturbed (trace step (initial foreign) σ m) (σ m)) ↔ ∀ m < n, ¬ Blocked foreign σ m := by
  constructor
  · intro h m hm hb
    exact (h m hm).1 ((contends_iff_blocked foreign σ m).2 hb)
  · intro h m hm
    have hno : ¬ Contends (trace step (initial foreign) σ m) (σ m) :=
      fun hc => h m hm ((contends_iff_blocked foreign σ m).1 hc)
    exact ⟨hno, undisturbed_of_not_contends hno⟩

/-- The native backend, a request to master 0, a start on master 0. -/
def readThenStart : List Rpc :=
  [.setBackend "native" false, .native ['0'] ⟨true, true⟩, .freeRunStart ['0'] (allSucceed (txPdo [0x6041]))]

/-- With every call granted to whoever is alone, the start fails: the daemon
itself holds the master. -/
theorem read_then_start :
    Contends (exec step (initial false) (readThenStart.take 2)) (.freeRunStart ['0'] (allSucceed (txPdo [0x6041]))) ∧
    (freeRunStart (exec step (initial false) (readThenStart.take 2)) (allSucceed (txPdo [0x6041])) ['0']).1 =
      .error "Failed to request IgH master 0. Stop other EtherCAT applications and retry." := by
  refine ⟨⟨0, ⟨_, _, 0, rfl, by decide, rfl, rfl⟩, by decide⟩, ?_⟩
  decide +kernel

end NekoEcat.L2.NativeMaster
