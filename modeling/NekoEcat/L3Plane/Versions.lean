import NekoEcat.L2Client.Lifecycle
import NekoEcat.L2Daemon.FreeRunStart
import NekoEcat.L3Plane.DataPlane

/-!
# The version counter across daemon lifetimes

Shared-memory objects, the name that leads to one of them, the daemon's steps
on the object it has open, and clients that attach, poll and detach. The daemon
may be killed between any two of its steps; the object and its name stay. An
object is its size and its header. Clients attach by the daemon's own name.

* `start_refines`, `cycle_refines`, `stop_refines`: the daemon's steps are those
  of `initSharedMemory`, `mirrorToShm` and `stop`.
* `step_version`: the three things a step does to a version.
* `versions_iff`: exactly when no attached client sees a version go back.
-/
namespace NekoEcat.L3.Versions
open NekoEcat.Bytes NekoEcat.Trace NekoEcat.L1.Shm NekoEcat.L2.Client NekoEcat.L2.FreeRun NekoEcat.L3.DataPlane

/-- `version` is the loaded `hdr->version`.
mirrors client/nekoecat_client.c:404-412 -/
def tryWaitNextCycle (c : NekoEcatClient) (version : UInt64) : Bool × NekoEcatClient :=
  if !c.hdr then (false, c)
  else if version > c.lastVersion then (true, { c with lastVersion := version })
  else (false, c)

/-- Where the daemon is between shm_open and shm_unlink, and with which object. -/
inductive Daemon where
  | idle
  | opened (o : Nat)
  | sized (o bufferSize : Nat)
  /-- `version` is stored, the other fields are not -/
  | storing (o bufferSize : Nat)
  | running (o : Nat)
  | stopped (o : Nat)
  deriving DecidableEq, Repr

def Daemon.object : Daemon → Option Nat
  | .idle => none
  | .opened o => some o
  | .sized o _ => some o
  | .storing o _ => some o
  | .running o => some o
  | .stopped o => some o

/-- `obj` is the object that `hdr` points into. -/
structure Peer where
  c : NekoEcatClient
  obj : Option Nat

structure World where
  objects : Nat → ShmObject
  /-- Objects from this number on do not exist yet. -/
  next : Nat
  name : Option Nat
  daemon : Daemon
  clients : Nat → Peer

inductive Lbl where
  | shmOpen
  | ftruncate (dataSize : UInt32)
  /-- `ftruncate` or `mmap` fails -/
  | giveUp
  | storeVersion
  | storeRest
  | cycle (now : UInt64) (ignored : UInt32)
  /-- the last publication of `stop` -/
  | publishStopped
  | unlink
  | kill
  | attach (k : Nat) (layoutJson : Option (List Char)) (env : AttachEnv)
  | disconnect (k : Nat)
  | tryWait (k : Nat)

/-- The header of an object nobody has written to. -/
def zeroHdr : ShmHeader := ⟨0, 0, 0, 0, 0, 0, 0, 0⟩

/-- mirrors apps/ecatd/FreeRunController.cpp:302-309 -/
def initHdr (version : UInt64) (bufferSize : Nat) : ShmHeader where
  version := version
  cycleCount := 0
  timestampNs := 0
  activeBuffer := 0
  dataSize := UInt32.ofNat bufferSize
  layoutVersion := layoutVersion
  statusFlags := 0
  ignoredWrites := 0

/-- What a cycle that rejects `ignored` outputs leaves in the header.
mirrors apps/ecatd/freerun_shm_mirror.cpp:60-81 -/
def publish (h : ShmHeader) (now : UInt64) (ignored : UInt32) : ShmHeader :=
  { cycleHdr h now ignored with
    activeBuffer := bufferWord (other (activeIndex h.activeBuffer))
    version := h.version + 1 }

/-- mirrors apps/ecatd/FreeRunController.cpp:419-423 -/
def stopHdr (h : ShmHeader) : ShmHeader :=
  { h with statusFlags := h.statusFlags &&& ~~~flagRunning, version := h.version + 1 }

def World.setHdr (w : World) (o : Nat) (f : ShmHeader → ShmHeader) : World :=
  { w with objects := Function.update w.objects o { w.objects o with hdr := f (w.objects o).hdr } }

def World.version (w : World) (o : Nat) : UInt64 := (w.objects o).hdr.version

/-- `shm_open(kShmName, O_CREAT | O_RDWR, 0600)` -/
def shmOpen (w : World) : World :=
  match w.name with
  | some o => { w with daemon := .opened o }
  | none =>
    { w with
      objects := Function.update w.objects w.next ⟨0, zeroHdr⟩
      next := w.next + 1
      name := some w.next
      daemon := .opened w.next }

/-- The next step of the daemon.
mirrors apps/ecatd/FreeRunController.cpp:254-328, 407-429 -/
def daemonStep (w : World) : Daemon → Lbl → World
  | .idle, .shmOpen => shmOpen w
  | .opened o, .ftruncate dataSize =>
    let bufferSize := if dataSize > 0 then dataSize.toNat else maxProcessDataSize
    { w with
      objects := Function.update w.objects o { w.objects o with size := headerSize + 2 * bufferSize }
      daemon := .sized o bufferSize }
  | .opened _, .giveUp => { w with name := none, daemon := .idle }
  | .sized _ _, .giveUp => { w with name := none, daemon := .idle }
  | .sized o bufferSize, .storeVersion =>
    { w.setHdr o (fun h => { h with version := 0 }) with daemon := .storing o bufferSize }
  | .storing o bufferSize, .storeRest =>
    { w.setHdr o (fun h => initHdr h.version bufferSize) with daemon := .running o }
  | .running o, .cycle now ignored => w.setHdr o (publish · now ignored)
  | .running o, .publishStopped => { w.setHdr o stopHdr with daemon := .stopped o }
  | .stopped _, .unlink => { w with name := none, daemon := .idle }
  | _, .kill => { w with daemon := .idle }
  | _, _ => w

/-- The calls of a client meet the object the name leads to. -/
def World.env (w : World) (env : AttachEnv) : AttachEnv :=
  { env with shmOpen := env.shmOpen.bind fun p => w.name.map fun o => (p.1, w.objects o) }

/-- The call gets as far as `client->hdr = client->shm_ptr`. -/
def remaps (c : NekoEcatClient) (layoutJson : Option (List Char)) (env : AttachEnv) : Bool :=
  (layoutOf c layoutJson env).isSome &&
    match env.shmOpen with
    | none => false
    | some (_, obj) => env.fstat && decide (headerSize ≤ obj.size) && env.mmap

def setClient (w : World) (k : Nat) (p : Peer) : World :=
  { w with clients := Function.update w.clients k p }

/-- An attach that finds another data size unmaps what `hdr` points into. -/
def World.attach (w : World) (k : Nat) (layoutJson : Option (List Char)) (env : AttachEnv) : World :=
  let p := w.clients k
  let r := L2.Client.attach p.c layoutJson (w.env env)
  setClient w k ⟨r.client,
    if remaps p.c layoutJson (w.env env) then if r.ok then w.name else none else p.obj⟩

/-- What `nekoecat_client_try_wait_next_cycle` returns to client `k`. -/
def returned (w : World) (k : Nat) : Bool :=
  match (w.clients k).obj with
  | none => false
  | some o => (tryWaitNextCycle (w.clients k).c (w.version o)).1

def World.tryWait (w : World) (k : Nat) : World :=
  match (w.clients k).obj with
  | none => w
  | some o => setClient w k ⟨(tryWaitNextCycle (w.clients k).c (w.version o)).2, some o⟩

/-- One step of one party; a label that is not enabled changes nothing. -/
def step (w : World) : Lbl → World
  | .attach k layoutJson env => w.attach k layoutJson env
  | .disconnect k => setClient w k ⟨L2.Client.disconnect (w.clients k).c, none⟩
  | .tryWait k => w.tryWait k
  | l => daemonStep w w.daemon l

/-- No object, no daemon, clients that were just created. -/
def initial : World where
  objects _ := ⟨0, zeroHdr⟩
  next := 0
  name := none
  daemon := .idle
  clients _ := ⟨L2.Client.create, none⟩

/-! ## The daemon's steps are the controller's -/

/-- **A start nobody interrupts** leaves the object as `initSharedMemory` does,
whatever it held. -/
theorem start_refines (w : World) (hd : w.daemon = .idle) (dataSize : UInt32) (object : Bytes) :
    let w' := exec step w [.shmOpen, .ftruncate dataSize, .storeVersion, .storeRest]
    let o := w.name.getD w.next
    w'.daemon = .running o ∧ w'.name = some o ∧
      ∃ m, L2.FreeRun.initSharedMemory ⟨true, true, true⟩ object dataSize = .ok m ∧
        w'.objects o = ⟨m.size, m.arena.hdr⟩ := by
  cases hn : w.name with
  | none => simp [exec, step, daemonStep, hd, shmOpen, hn, World.setHdr, initHdr, L2.FreeRun.initSharedMemory]
  | some o => simp [exec, step, daemonStep, hd, shmOpen, hn, World.setHdr, initHdr, L2.FreeRun.initSharedMemory]

/-- **A cycle of a running controller** does this to the header. -/
theorem cycle_refines {c : FreeRunController} {m : SharedMemory} {domain : Bytes} {n : Nat}
    (h : Running c m domain n) (he : c.mirrorEntries ≠ []) (now : UInt64) :
    (c.mirrorToShm now).shm.map (·.arena.hdr) =
      some (publish m.arena.hdr now (UInt32.ofNat (L2.Mirror.rejected n c.mirrorEntries).length)) := by
  have hc := mirrorToShm_running h he now
  have hm := L2.Mirror.mirrorToShm_eq (cycleContext m.arena domain c.mirrorEntries n now) domain m.arena.data
    rfl (fun _ => rfl) h.pos h.le
  have hig := cycleOverlay_ignored n c.mirrorEntries (m.arena.data (activeIndex m.arena.hdr.activeBuffer))
    (m.arena.data (other (activeIndex m.arena.hdr.activeBuffer))) domain
  rw [hc]
  dsimp only at hm ⊢
  rw [hm]
  have hadd := L2.Mirror.ignored_add m.arena.hdr.ignoredWrites
    (UInt32.ofNat (L2.Mirror.rejected n c.mirrorEntries).length)
  rw [Option.map_some] at hadd
  simp only [cycleContext, arenaAfter, Option.map_some, Option.getD_some, hig, hadd]
  rfl

theorem stop_refines (a : Arena) : (L2.FreeRunStart.publishStopped a).hdr = stopHdr a.hdr := rfl

/-! ## What an attach leaves in the client -/

/-- `hdr` and `last_version` are as they were. -/
def SameCursor (c c' : NekoEcatClient) : Prop := c'.hdr = c.hdr ∧ c'.lastVersion = c.lastVersion

theorem connect_sameCursor (c : NekoEcatClient) (o : ConnectOutcome) : SameCursor c (connect c o).client := by
  cases o <;> exact ⟨rfl, rfl⟩

theorem fetchLayout_sameCursor {c : NekoEcatClient} {layoutJson : Option (List Char)} {rpc : RpcOutcome}
    {r : CallResult} (h : fetchLayout c layoutJson rpc = .error r) : SameCursor c r.client := by
  obtain ⟨-, msg, hmsg⟩ := fetchLayout_error h
  rw [hmsg]
  exact ⟨rfl, rfl⟩

/-- An attach is over before it opens the object, or is `attachObject`. -/
theorem attach_cases (c : NekoEcatClient) (layoutJson : Option (List Char)) (env : AttachEnv) :
    (layoutOf c layoutJson env = none ∧ SameCursor c (L2.Client.attach c layoutJson env).client) ∨
    ∃ c' info, layoutOf c layoutJson env = some info ∧ SameCursor c c' ∧
      L2.Client.attach c layoutJson env = attachObject c' info env := by
  unfold layoutOf L2.Client.attach
  dsimp only
  have hcur : SameCursor c (if c.sock < 0 then connect c env.connect else ⟨true, c, none⟩).client := by
    split
    · exact connect_sameCursor c env.connect
    · exact ⟨rfl, rfl⟩
  generalize (if c.sock < 0 then connect c env.connect else ⟨true, c, none⟩) = r at hcur ⊢
  cases hr : r.ok with
  | false => exact .inl ⟨rfl, hcur⟩
  | true =>
    simp only [if_true, Bool.not_true, Bool.false_eq_true, if_false]
    cases hf : fetchLayout r.client layoutJson env.rpc with
    | error e =>
      have he := fetchLayout_sameCursor hf
      exact .inl ⟨rfl, he.1.trans hcur.1, he.2.trans hcur.2⟩
    | ok info => exact .inr ⟨r.client, info, rfl, hcur, rfl⟩

/-- Short of the mapping `attachObject` leaves the cursor alone; a success puts
it at the version of the object. -/
theorem attachObject_cursor (c : NekoEcatClient) (info : LayoutInfo) (env : AttachEnv) :
    match env.shmOpen with
    | none => SameCursor c (attachObject c info env).client
    | some (_, obj) =>
      if env.fstat && decide (headerSize ≤ obj.size) && env.mmap then
        (attachObject c info env).ok = true → (attachObject c info env).client.hdr = true ∧
          (attachObject c info env).client.lastVersion = obj.hdr.version
      else SameCursor c (attachObject c info env).client := by
  unfold attachObject
  cases ho : env.shmOpen with
  | none => exact ⟨rfl, rfl⟩
  | some p =>
    obtain ⟨fd, obj⟩ := p
    dsimp only
    by_cases hs : headerSize ≤ obj.size
    · have hs' : decide (obj.size < headerSize) = false := by simpa using hs
      cases hf : env.fstat with
      | false => simp [fail, setError, SameCursor]
      | true =>
        cases hm : env.mmap with
        | false => simp [fail, setError, SameCursor, hs']
        | true =>
          simp only [hs, hs', decide_true, Bool.and_self, Bool.not_true, Bool.or_self, Bool.false_eq_true, if_false, if_true]
          split
          · intro h
            cases h
          split <;> exact fun _ => ⟨rfl, rfl⟩
    · have hs' : obj.size < headerSize := by omega
      simp [hs, hs', fail, setError, SameCursor]

/-- An attach that does not reach the mapping. -/
theorem attach_keeps {c : NekoEcatClient} {layoutJson : Option (List Char)} {env : AttachEnv}
    (h : remaps c layoutJson env = false) : SameCursor c (L2.Client.attach c layoutJson env).client := by
  rcases attach_cases c layoutJson env with ⟨-, hk⟩ | ⟨c', info, hl, hc, he⟩
  · exact hk
  · have ho := attachObject_cursor c' info env
    rw [he]
    unfold remaps at h
    rw [hl, Option.isSome_some, Bool.true_and] at h
    suffices SameCursor c' (attachObject c' info env).client from ⟨this.1.trans hc.1, this.2.trans hc.2⟩
    cases hs : env.shmOpen with
    | none => simpa only [hs] using ho
    | some p =>
      simp only [hs] at h ho
      rw [h] at ho
      exact ho

/-- A successful attach is at the version of the object it opened. -/
theorem attach_cursor {c : NekoEcatClient} {layoutJson : Option (List Char)} {env : AttachEnv}
    (h : remaps c layoutJson env = true) (hok : (L2.Client.attach c layoutJson env).ok = true) :
    ∃ fd obj, env.shmOpen = some (fd, obj) ∧ (L2.Client.attach c layoutJson env).client.hdr = true ∧
      (L2.Client.attach c layoutJson env).client.lastVersion = obj.hdr.version := by
  rcases attach_cases c layoutJson env with ⟨hl, -⟩ | ⟨c', info, hl, hc, he⟩
  · simp [remaps, hl] at h
  · have ho := attachObject_cursor c' info env
    rw [he] at hok ⊢
    unfold remaps at h
    rw [hl, Option.isSome_some, Bool.true_and] at h
    cases hs : env.shmOpen with
    | none => simp [hs] at h
    | some p =>
      simp only [hs] at h ho
      rw [if_pos h] at ho
      exact ⟨p.1, p.2, rfl, ho hok⟩

/-! ## What a step does -/

/-- The step adds one to the version of `o`. -/
def Publishes (w : World) (l : Lbl) (o : Nat) : Prop :=
  w.daemon = .running o ∧ ((∃ now ignored, l = .cycle now ignored) ∨ l = .publishStopped)

/-- The step stores 0 as the version of `o`. -/
def Restarts (w : World) (l : Lbl) (o : Nat) : Prop := l = .storeVersion ∧ ∃ n, w.daemon = .sized o n

/-- A step of client `k` that loads `last_version` anew. -/
def Moves (w : World) (l : Lbl) (k : Nat) : Prop :=
  l = .tryWait k ∨ ∃ layoutJson env, l = .attach k layoutJson env ∧
    (L2.Client.attach (w.clients k).c layoutJson (w.env env)).ok = true

/-- A version that a client watches goes back: the daemon starts over in the
object a killed daemon left, or the counter is full. -/
def Loses (w : World) (l : Lbl) : Prop :=
  ∃ k o, (w.clients k).obj = some o ∧
    (Restarts w l o ∧ w.version o ≠ 0 ∨ Publishes w l o ∧ w.version o + 1 = 0)

theorem daemonStep_clients (w : World) (d : Daemon) (l : Lbl) : (daemonStep w d l).clients = w.clients := by
  unfold daemonStep shmOpen
  split <;> try rfl
  split <;> rfl

theorem daemonStep_next (w : World) (d : Daemon) (l : Lbl) : w.next ≤ (daemonStep w d l).next := by
  unfold daemonStep shmOpen
  split <;> try exact Nat.le_refl _
  split
  · exact Nat.le_refl _
  · exact Nat.le_succ _

theorem shmOpen_version (w : World) {o : Nat} (ho : o < w.next) : (shmOpen w).version o = w.version o := by
  have hne : o ≠ w.next := by omega
  unfold shmOpen
  split
  · rfl
  · simp [World.version, hne]

theorem daemonStep_version (w : World) (l : Lbl) {o : Nat} (ho : o < w.next) :
    (daemonStep w w.daemon l).version o = w.version o ∨
    (Publishes w l o ∧ (daemonStep w w.daemon l).version o = w.version o + 1) ∨
    (Restarts w l o ∧ (daemonStep w w.daemon l).version o = 0) := by
  cases hd : w.daemon with
  | idle =>
    left
    cases l <;> try rfl
    exact shmOpen_version w ho
  | opened o' =>
    left
    cases l <;> try rfl
    by_cases he : o = o' <;> simp [daemonStep, World.version, he]
  | sized o' n =>
    cases l <;> try exact .inl rfl
    by_cases he : o = o'
    · subst he
      exact .inr (.inr ⟨⟨rfl, n, hd⟩, by simp [daemonStep, World.version, World.setHdr]⟩)
    · left; simp [daemonStep, World.version, World.setHdr, he]
  | storing o' n =>
    left
    cases l <;> try rfl
    by_cases he : o = o' <;> simp [daemonStep, World.version, World.setHdr, initHdr, he]
  | running o' =>
    by_cases he : o = o'
    · subst he
      cases l with
      | cycle now ignored =>
        exact .inr (.inl ⟨⟨hd, .inl ⟨now, ignored, rfl⟩⟩, by simp [daemonStep, World.version, World.setHdr, publish]⟩)
      | publishStopped =>
        exact .inr (.inl ⟨⟨hd, .inr rfl⟩, by simp [daemonStep, World.version, World.setHdr, stopHdr]⟩)
      | _ => exact .inl rfl
    · left
      cases l <;> try rfl
      · simp [daemonStep, World.version, World.setHdr, he]
      · simp [daemonStep, World.version, World.setHdr, he]
  | stopped o' =>
    left
    cases l <;> rfl

/-- **A step leaves a version alone, adds one to it or stores 0.** -/
theorem step_version (w : World) (l : Lbl) {o : Nat} (ho : o < w.next) :
    (step w l).version o = w.version o ∨
    (Publishes w l o ∧ (step w l).version o = w.version o + 1) ∨
    (Restarts w l o ∧ (step w l).version o = 0) := by
  cases l with
  | attach k layoutJson env => exact .inl rfl
  | disconnect k => exact .inl rfl
  | tryWait k =>
    left
    show (w.tryWait k).version o = w.version o
    unfold World.tryWait
    split <;> rfl
  | _ => exact daemonStep_version w _ ho

theorem lt_add_one {v : UInt64} (h : v + 1 ≠ 0) : v < v + 1 := by
  have h' : (v + 1).toNat ≠ 0 := fun h0 => h (UInt64.toNat_inj.1 h0)
  have hv := v.toNat_lt
  rw [UInt64.lt_iff_toNat_lt]
  simp only [UInt64.toNat_add, UInt64.toNat_one] at h' ⊢
  omega

/-- A version that somebody watches does not go back in a step that loses
nothing. -/
theorem step_le {w : World} {l : Lbl} {k o : Nat} (hl : ¬ Loses w l) (ho : o < w.next)
    (hk : (w.clients k).obj = some o) : w.version o ≤ (step w l).version o := by
  rcases step_version w l ho with he | ⟨hp, he⟩ | ⟨hr, he⟩
  · rw [he]
    exact UInt64.le_refl _
  · have hne : w.version o + 1 ≠ 0 := fun h0 => hl ⟨k, o, hk, .inr ⟨hp, h0⟩⟩
    rw [he]
    exact UInt64.le_of_lt (lt_add_one hne)
  · have h0 : w.version o = 0 := by
      by_contra hne
      exact hl ⟨k, o, hk, .inl ⟨hr, hne⟩⟩
    rw [he, h0]
    exact UInt64.le_refl _

/-! ## Runs -/

/-- Every object something refers to exists, and no client has seen a version
its object has not reached. -/
structure Good (w : World) : Prop where
  name : ∀ o, w.name = some o → o < w.next
  daemon : ∀ o, w.daemon.object = some o → o < w.next
  client : ∀ k o, (w.clients k).obj = some o →
    o < w.next ∧ (w.clients k).c.hdr = true ∧ (w.clients k).c.lastVersion ≤ w.version o

theorem good_initial : Good initial where
  name _ h := by cases h
  daemon _ h := by cases h
  client _ _ h := by cases h

theorem shmOpen_refs {w : World} (h : ∀ o, w.name = some o → o < w.next) :
    (∀ o, (shmOpen w).name = some o → o < (shmOpen w).next) ∧
    ∀ o, (shmOpen w).daemon.object = some o → o < (shmOpen w).next := by
  unfold shmOpen
  split
  · rename_i o ho
    exact ⟨h, fun o' ho' => h o' (ho.trans ho')⟩
  · simp [Daemon.object]

theorem daemonStep_refs {w : World} (h : Good w) (l : Lbl) :
    (∀ o, (daemonStep w w.daemon l).name = some o → o < (daemonStep w w.daemon l).next) ∧
    ∀ o, (daemonStep w w.daemon l).daemon.object = some o → o < (daemonStep w w.daemon l).next := by
  have hn := h.name
  have hd := h.daemon
  cases hw : w.daemon <;> cases l <;> first
    | exact ⟨hn, hd⟩
    | exact shmOpen_refs hn
    | simp_all [daemonStep, Daemon.object, World.setHdr]

/-- The daemon's steps keep the clients good. -/
theorem daemonStep_good {w : World} (h : Good w) {l : Lbl} (hstep : step w l = daemonStep w w.daemon l)
    (hl : ¬ Loses w l) : Good (step w l) := by
  obtain ⟨hn, hd⟩ := daemonStep_refs h l
  have hle := fun k o hk => step_le (k := k) hl (h.client k o hk).1 hk
  rw [hstep] at hle ⊢
  refine ⟨hn, hd, fun k o hk => ?_⟩
  rw [daemonStep_clients] at hk ⊢
  obtain ⟨h1, h2, h3⟩ := h.client k o hk
  exact ⟨Nat.lt_of_lt_of_le h1 (daemonStep_next w w.daemon l), h2, UInt64.le_trans h3 (hle k o hk)⟩

/-- A step of client `k` alone: the others and the objects stay. -/
theorem setClient_good {w : World} (h : Good w) {k : Nat} {p : Peer}
    (hp : ∀ o, p.obj = some o → o < w.next ∧ p.c.hdr = true ∧ p.c.lastVersion ≤ w.version o) :
    Good (setClient w k p) := by
  refine ⟨h.name, h.daemon, fun k' o hk => ?_⟩
  by_cases he : k' = k
  · subst he
    simp only [setClient, Function.update_self] at hk ⊢
    exact hp o hk
  · simp only [setClient, Function.update_of_ne he] at hk ⊢
    exact h.client k' o hk

theorem attach_good {w : World} (h : Good w) (k : Nat) (layoutJson : Option (List Char)) (env : AttachEnv) :
    Good (w.attach k layoutJson env) := by
  refine setClient_good h fun o ho => ?_
  cases hr : remaps (w.clients k).c layoutJson (w.env env) with
  | false =>
    -- the client keeps its mapping and its cursor
    rw [hr] at ho
    obtain ⟨h1, h2⟩ := attach_keeps hr
    dsimp only
    rw [h1, h2]
    exact h.client k o ho
  | true =>
    rw [hr] at ho
    dsimp only at ho ⊢
    by_cases hok : (L2.Client.attach (w.clients k).c layoutJson (w.env env)).ok = true
    · rw [if_pos rfl, if_pos hok] at ho
      obtain ⟨fd, obj, ho', h1, h2⟩ := attach_cursor hr hok
      have hobj : obj = w.objects o := by
        simp only [World.env, ho, Option.map_some, Option.bind_eq_some_iff, Option.some.injEq, Prod.mk.injEq] at ho'
        obtain ⟨p, -, -, hobj⟩ := ho'
        exact hobj.symm
      rw [h1, h2, hobj]
      exact ⟨h.name o ho, rfl, UInt64.le_refl _⟩
    · rw [if_pos rfl, if_neg hok] at ho
      cases ho

theorem tryWaitNextCycle_eq {c : NekoEcatClient} (h : c.hdr = true) (version : UInt64) :
    tryWaitNextCycle c version =
      if version > c.lastVersion then (true, { c with lastVersion := version }) else (false, c) := by
  unfold tryWaitNextCycle
  rw [if_neg (by simp [h])]

/-- A poll leaves the cursor at a version the object has. -/
theorem tryWait_good {w : World} (h : Good w) (k : Nat) : Good (w.tryWait k) := by
  unfold World.tryWait
  split
  · exact h
  rename_i o ho
  refine setClient_good h fun o' ho' => ?_
  cases ho'
  obtain ⟨h1, h2, h3⟩ := h.client k o ho
  rw [tryWaitNextCycle_eq h2]
  split
  · exact ⟨h1, h2, UInt64.le_refl _⟩
  · exact ⟨h1, h2, h3⟩

theorem step_good (w : World) (l : Lbl) (h : Good w) (hl : ¬ Loses w l) : Good (step w l) := by
  cases l with
  | attach k layoutJson env => exact attach_good h k layoutJson env
  | disconnect k => exact setClient_good h fun o ho => by cases ho
  | tryWait k => exact tryWait_good h k
  | _ => exact daemonStep_good h rfl hl

/-- Unless client `k` polls or attaches anew its cursor stays. -/
theorem step_cursor {w : World} {l : Lbl} {k o : Nat} (hm : ¬ Moves w l k)
    (hk : ((step w l).clients k).obj = some o) :
    ((step w l).clients k).c.lastVersion = (w.clients k).c.lastVersion := by
  have hset : ∀ k' p, (setClient w k' p).clients k = if k = k' then p else w.clients k :=
    fun k' p => Function.update_apply ..
  cases l with
  | attach k' layoutJson env =>
    simp only [step, World.attach, hset] at hk ⊢
    split
    · rename_i he
      subst he
      have hok : ¬ (L2.Client.attach (w.clients k).c layoutJson (w.env env)).ok = true :=
        fun hok => hm (.inr ⟨layoutJson, env, rfl, hok⟩)
      rw [if_pos rfl] at hk
      cases hr : remaps (w.clients k).c layoutJson (w.env env) with
      | false => exact (attach_keeps hr).2
      | true =>
        rw [hr] at hk
        dsimp only at hk
        rw [if_pos rfl, if_neg hok] at hk
        cases hk
    · rfl
  | disconnect k' =>
    simp only [step, hset] at hk ⊢
    split
    · rename_i he
      subst he
      rfl
    · rfl
  | tryWait k' =>
    have hne : k ≠ k' := fun he => hm (.inl (he ▸ rfl))
    simp only [step, World.tryWait]
    split
    · rfl
    · rw [hset, if_neg hne]
  | _ => exact congrArg (fun f : Nat → Peer => (f k).c.lastVersion) (daemonStep_clients w w.daemon _)

section
variable (σ : Nat → Lbl)

def run (n : Nat) : World := trace step initial σ n

/-- Client `k` is attached to object `o` before step `n` and through step
`m - 1`. -/
def Stays (k o n m : Nat) : Prop := n ≤ m ∧ ∀ i, n ≤ i → i ≤ m → ((run σ i).clients k).obj = some o

/-- The version an attached client can load never goes back. -/
def NeverDecreases : Prop := ∀ k o n m, Stays σ k o n m → (run σ n).version o ≤ (run σ m).version o

/-- Once a poll has succeeded, the next poll after a publication succeeds. -/
def WakesUp : Prop :=
  ∀ k o i p m, i < p → p < m → Stays σ k o i m → σ i = .tryWait k → returned (run σ i) k = true →
    Publishes (run σ p) (σ p) o → (∀ j, p < j → j < m → ¬ Moves (run σ j) (σ j) k) →
    returned (run σ m) k = true

variable {σ}

theorem Stays.sub {k o n m n' m' : Nat} (h : Stays σ k o n m) (h1 : n ≤ n') (h2 : n' ≤ m') (h3 : m' ≤ m) :
    Stays σ k o n' m' :=
  ⟨h2, fun i hi hi' => h.2 i (Nat.le_trans h1 hi) (Nat.le_trans hi' h3)⟩

theorem run_good (h : ∀ n, ¬ Loses (run σ n) (σ n)) (n : Nat) : Good (run σ n) :=
  trace_inv_guarded step initial σ good_initial step_good n fun m _ => h m

/-- Versions go forward while nothing is lost. -/
theorem stays_le (h : ∀ n, ¬ Loses (run σ n) (σ n)) {k o n m : Nat} (hs : Stays σ k o n m) :
    (run σ n).version o ≤ (run σ m).version o := by
  obtain ⟨hnm, hs⟩ := hs
  induction m, hnm using Nat.le_induction with
  | base => exact UInt64.le_refl _
  | succ m hnm ih =>
    have hk := hs m hnm (Nat.le_succ m)
    have hstep : (run σ m).version o ≤ (run σ (m + 1)).version o :=
      step_le (h m) ((run_good h m).client k o hk).1 hk
    exact UInt64.le_trans (ih fun i hi hi' => hs i hi (Nat.le_trans hi' (Nat.le_succ m))) hstep

/-- The cursor stays where it is between two polls. -/
theorem stays_cursor {k o p m : Nat} (hs : Stays σ k o p m)
    (hm : ∀ j, p ≤ j → j < m → ¬ Moves (run σ j) (σ j) k) :
    ((run σ m).clients k).c.lastVersion = ((run σ p).clients k).c.lastVersion := by
  obtain ⟨hpm, hs⟩ := hs
  induction m, hpm using Nat.le_induction with
  | base => rfl
  | succ m hpm ih =>
    have hstep : ((run σ (m + 1)).clients k).c.lastVersion = ((run σ m).clients k).c.lastVersion :=
      step_cursor (hm m hpm (Nat.lt_succ_self m)) (hs (m + 1) (Nat.le_trans hpm (Nat.le_succ m)) (Nat.le_refl _))
    rw [hstep]
    exact ih (fun j h1 h2 => hm j h1 (Nat.lt_succ_of_lt h2)) fun i hi hi' => hs i hi (Nat.le_trans hi' (Nat.le_succ m))

/-- A publication is no step of a client. -/
theorem Publishes.not_moves {w : World} {l : Lbl} {o : Nat} (h : Publishes w l o) (k : Nat) : ¬ Moves w l k := by
  rintro (rfl | ⟨layoutJson, env, rfl, -⟩) <;> simp [Publishes] at h

/-- A publication that loses nothing is an increase. -/
theorem publish_lt (h : ∀ n, ¬ Loses (run σ n) (σ n)) {k o p : Nat} (hp : Publishes (run σ p) (σ p) o)
    (hk : ((run σ p).clients k).obj = some o) : (run σ p).version o < (run σ (p + 1)).version o := by
  have hne : (run σ p).version o + 1 ≠ 0 := fun h0 => h p ⟨k, o, hk, .inr ⟨hp, h0⟩⟩
  have hstep : (run σ (p + 1)).version o = (run σ p).version o + 1 := by
    rcases step_version (run σ p) (σ p) ((run_good h p).client k o hk).1 with he | ⟨-, he⟩ | ⟨⟨hl, -⟩, -⟩
    · -- the publication does change the version
      exfalso
      obtain ⟨hd, ⟨now, ignored, hl⟩ | hl⟩ := hp
      all_goals
        rw [hl] at he
        simp only [step, daemonStep, hd, World.version, World.setHdr, Function.update_self, publish, stopHdr] at he
        exact UInt64.ne_of_lt (lt_add_one hne) he.symm
    · exact he
    · rw [hl] at hp
      simp [Publishes] at hp
  rw [hstep]
  exact lt_add_one hne

/-- **Versions across daemon lifetimes, exactly.** In a run, the version that an
attached client loads never goes back and every publication wakes it up, if and
only if no step starts over in an object that a killed daemon left with a
version other than 0 and that a client watches, and no watched counter
overflows. -/
theorem versions_iff (σ : Nat → Lbl) :
    NeverDecreases σ ∧ WakesUp σ ↔ ∀ n, ¬ Loses (run σ n) (σ n) := by
  constructor
  · rintro ⟨hd, -⟩ n ⟨k, o, hk, hl⟩
    have hk' : ((run σ (n + 1)).clients k).obj = some o := by
      have hc : (run σ (n + 1)).clients = (run σ n).clients := by
        rcases hl with ⟨⟨hl, -⟩, -⟩ | ⟨⟨-, ⟨now, ignored, hl⟩ | hl⟩, -⟩
        all_goals
          show (step (run σ n) (σ n)).clients = _
          rw [hl]
          exact daemonStep_clients _ _ _
      rw [hc]
      exact hk
    have hs : Stays σ k o n (n + 1) := by
      refine ⟨Nat.le_succ n, fun i h1 h2 => ?_⟩
      rcases Nat.le_succ_iff.1 h2 with h2 | rfl
      · rw [Nat.le_antisymm h2 h1]
        exact hk
      · exact hk'
    have hle := hd k o n (n + 1) hs
    have hv : (run σ (n + 1)).version o = 0 ∧ (run σ n).version o ≠ 0 := by
      show (step (run σ n) (σ n)).version o = 0 ∧ _
      rcases hl with ⟨⟨hl, N, hdm⟩, h0⟩ | ⟨⟨hdm, ⟨now, ignored, hl⟩ | hl⟩, h0⟩
      · rw [hl]
        exact ⟨by simp [step, daemonStep, hdm, World.version, World.setHdr], h0⟩
      all_goals
        rw [hl]
        refine ⟨?_, fun h1 => by rw [h1] at h0; exact absurd h0 (by decide)⟩
        simpa [step, daemonStep, hdm, World.version, World.setHdr, publish, stopHdr] using h0
    rw [hv.1] at hle
    exact hv.2 (UInt64.le_antisymm hle (UInt64.zero_le))
  · intro h
    refine ⟨fun k o n m hs => stays_le h hs, ?_⟩
    intro k o i p m hip hpm hs _ _ hp hm
    have hkp := hs.2 p (Nat.le_of_lt hip) (Nat.le_of_lt hpm)
    have hkm := hs.2 m (hs.1) (Nat.le_refl m)
    have hcur := stays_cursor (hs.sub (Nat.le_of_lt hip) (Nat.le_of_lt hpm) (Nat.le_refl m)) fun j h1 h2 => by
      rcases Nat.eq_or_lt_of_le h1 with rfl | h1
      · exact hp.not_moves k
      · exact hm j h1 h2
    have hseen := ((run_good h p).client k o hkp).2.2
    have hlt := publish_lt h hp hkp
    have hafter : Stays σ k o (p + 1) m := hs.sub (Nat.le_succ_of_le (Nat.le_of_lt hip)) hpm (Nat.le_refl m)
    have hle := stays_le h hafter
    have hgt : (run σ m).version o > ((run σ m).clients k).c.lastVersion := by
      rw [hcur]
      exact UInt64.lt_of_le_of_lt hseen (UInt64.lt_of_lt_of_le hlt hle)
    unfold returned
    rw [hkm]
    dsimp only
    rw [tryWaitNextCycle_eq ((run_good h m).client k o hkm).2.1, if_pos hgt]

end

/-- A daemon publishes once, is killed, and the next one starts and publishes
once; client 0 is attached all the time. -/
def killed : List Lbl :=
  [.shmOpen, .ftruncate 2, .storeVersion, .storeRest, .attach 0 (some shortLayout) (shortEnv 60), .cycle 0 0, .tryWait 0,
    .kill, .shmOpen, .ftruncate 2, .storeVersion, .storeRest, .cycle 0 0]

/-- **A kill and a restart put an attached client back to version 0**, and the
publication after it does not wake the client up. -/
theorem restart_goes_back :
    ¬ NeverDecreases (sched killed .kill) ∧ ¬ WakesUp (sched killed .kill) := by
  have hs : Stays (sched killed .kill) 0 0 6 13 := by
    refine ⟨by decide, ?_⟩
    decide +kernel
  constructor
  · intro h
    have hle := h 0 0 6 11 (hs.sub (by decide) (by decide) (by decide))
    revert hle
    decide +kernel
  · intro h
    have hw := h 0 0 6 12 13 (by decide) (by decide) hs rfl (by decide +kernel)
      ⟨by decide +kernel, .inl ⟨0, 0, rfl⟩⟩ fun j h1 h2 => by omega
    revert hw
    decide +kernel

end NekoEcat.L3.Versions
