import NekoEcat.Core.Fallible
import NekoEcat.Core.Handles
import NekoEcat.Core.QString
import NekoEcat.Core.Trace
import NekoEcat.L2Daemon.CStruct
import NekoEcat.L2Daemon.FreeRunShm

/-!
# Starting and stopping Free Run

`FreeRunController::start` with each of its failure points, `stop` and the
`cleanup` they share, over the handles the controller was given: IgH masters,
descriptors, mappings and the name of the shared-memory object. A domain goes
with its master.

* `start_stop_atomic`: between calls the controller holds all of it or nothing.
* `later_start`: what an idle controller went through does not show in a start.
-/
namespace NekoEcat.L2.FreeRunStart
open NekoEcat.Bytes NekoEcat.Fallible NekoEcat.Handles NekoEcat.Trace NekoEcat.L1.Shm NekoEcat.L2.CStruct
open NekoEcat.L2.Mirror NekoEcat.L2.FreeRun

/-- `ec_pdo_entry_reg_t`; the pointers are positions in `offsets_` and
`bitPositions_`. -/
structure Registration where
  aliasAddress : UInt16
  position : UInt16
  vendorId : UInt32
  productCode : UInt32
  index : UInt16
  subindex : UInt8
  offset : Nat
  bitPosition : Nat
  deriving DecidableEq, Repr

/-- A `RuntimeEntry` with its pointers.
mirrors apps/ecatd/FreeRunController.h:95-106 -/
structure EntryRef where
  slavePosition : UInt16
  syncIndex : UInt8
  direction : String
  pdoIndex : UInt16
  index : UInt16
  subindex : UInt8
  bitLength : UInt8
  name : String
  offset : Nat
  bitPosition : Nat
  deriving DecidableEq, Repr

/-- `ec_master_state_t` -/
structure MasterState where
  slavesResponding : UInt32 := 0
  alStates : UInt8 := 0
  linkUp : Bool := false

/-- `ec_wc_state_t` -/
inductive WcState where
  | zero
  | incomplete
  | complete

/-- `ec_domain_state_t` -/
structure DomainState where
  workingCounter : UInt32 := 0
  wcState : WcState := .zero
  redundancyActive : Bool := false

/-- What the cycle thread keeps for `telemetry`. -/
structure Stats where
  cycleCount : UInt64
  wcErrorCount : UInt64
  lastWarning : String
  minCycleNsec : Int
  maxCycleNsec : Int
  totalCycleNsec : Int
  status : String

/-- `shm_ptr_` -/
inductive MapPtr where
  | null
  | failed
  | mapped (mapping : Nat)
  deriving DecidableEq, Repr

def MapPtr.mapping : MapPtr → Option Nat
  | .mapped m => some m
  | _ => none

/-- The fields of the controller; `shm` is the memory behind `shm_header_` and
`shm_data_`. -/
structure Controller where
  running : Bool
  /-- `thread_.joinable()` -/
  thread : Bool
  activeMasterIndex : UInt32
  stats : Stats
  masterState : MasterState
  domainState : DomainState
  master : Option Nat
  domain : Option Nat
  domainData : Option Bytes
  runtimeSlaves : List SlaveSpec
  registrations : List Registration
  runtimeEntries : List EntryRef
  mirrorEntries : List ShmMirrorEntry
  offsets : List UInt32
  bitPositions : List UInt32
  shmFd : Option Nat
  shmPtr : MapPtr
  shm : Option Arena
  shmStride : Nat
  shmSize : Nat

/-- Who created the object behind the shared-memory name. -/
inductive Owner where
  | controller
  | other
  deriving DecidableEq, Repr

/-- What the controller was given and has not given back. -/
structure World where
  masters : Ledger Nat
  fds : Ledger Nat
  maps : Ledger Nat
  name : Option Owner

structure State where
  c : Controller
  w : World

/-- The outcome of every call inside one `start`; `place` is what the domain
assigns to the n-th registered entry, `object` what the shared-memory object
held. -/
structure Env where
  discovery : Except String (List SlaveSpec)
  requestMaster : Option Nat
  createDomain : Option Nat
  slaveConfig : Nat → Bool
  configPdos : Nat → Bool
  regList : Bool
  place : Nat → UInt32 × UInt32
  activate : Bool
  domainData : Option Bytes
  masterState : MasterState
  domainState : DomainState
  shmOpen : Option Nat
  ftruncate : Bool
  mmap : Option Nat
  object : Bytes

/-! ## The parts of `start` -/

/-- mirrors apps/ecatd/FreeRunController.cpp:68-76 -/
def requestMaster (env : Env) (masterIndex : UInt32) : Op String State := fun s =>
  match env.requestMaster with
  | none =>
    .error (QString.arg "Failed to request IgH master %1. Stop other EtherCAT applications and retry."
      (QString.number masterIndex.toNat), { s with c.master := none })
  | some m => .ok { s with c.master := some m, w.masters := s.w.masters.acquire m }

/-- mirrors apps/ecatd/FreeRunController.cpp:78-85 -/
def createDomain (env : Env) : Op String State := fun s =>
  match env.createDomain with
  | none => .error ("Failed to create EtherCAT process data domain.", { s with c.domain := none })
  | some d => .ok { s with c.domain := some d }

def totalEntries (slaves : List SlaveSpec) : Nat :=
  (slaves.map fun slave => (slave.syncs.map fun sync => (sync.pdos.map (·.entries.length)).sum).sum).sum

/-- mirrors apps/ecatd/FreeRunController.cpp:89-104 -/
def prepare (slaves : List SlaveSpec) (s : State) : State :=
  { s with
    c.runtimeSlaves := []
    c.registrations := []
    c.runtimeEntries := []
    c.offsets := List.replicate (totalEntries slaves) 0
    c.bitPositions := List.replicate (totalEntries slaves) 0 }

/-- One round of the innermost loop; `entryCursor` counts the rounds, as the
length of `runtimeEntries_` does.
mirrors apps/ecatd/FreeRunController.cpp:125-149 -/
def pushEntry (slave : SlaveSpec) (sync : SyncSpec) (pdo : PdoSpec) (c : Controller) (entry : EntrySpec) : Controller :=
  let entryCursor := c.runtimeEntries.length
  { c with
    registrations := c.registrations ++ [{
      aliasAddress := slave.aliasAddress
      position := slave.position
      vendorId := slave.vendorId
      productCode := slave.productCode
      index := entry.index
      subindex := entry.subindex
      offset := entryCursor
      bitPosition := entryCursor }]
    runtimeEntries := c.runtimeEntries ++ [{
      slavePosition := slave.position
      syncIndex := sync.index
      direction := if sync.direction = .output then "RxPDO" else "TxPDO"
      pdoIndex := pdo.index
      index := entry.index
      subindex := entry.subindex
      bitLength := entry.bitLength
      name := String.ofList entry.name
      offset := entryCursor
      bitPosition := entryCursor }] }

/-- mirrors apps/ecatd/FreeRunController.cpp:122-152 -/
def pushEntries (slave : SlaveSpec) (c : Controller) : Controller :=
  slave.syncs.foldl (fun c sync =>
    sync.pdos.foldl (fun c pdo => pdo.entries.foldl (pushEntry slave sync pdo) c) c) c

/-- mirrors apps/ecatd/FreeRunController.cpp:107-186 -/
def configureSlave (env : Env) (n : Nat) (slave : SlaveSpec) : Op String State := fun s =>
  if !env.slaveConfig n then
    .error (QString.arg "Failed to create slave config for position %1." (QString.number slave.position.toNat), s)
  else
    let s := { s with c := pushEntries slave s.c }
    if !env.configPdos n then
      .error (QString.arg "Failed to configure PDOs for slave %1." (QString.number slave.position.toNat), s)
    else .ok { s with c.runtimeSlaves := s.c.runtimeSlaves ++ [slave] }

/-- The walk of `ecrt_domain_reg_pdo_entry_list`, up to the first index 0. -/
def regList (place : Nat → UInt32 × UInt32) : Nat → List Registration → List UInt32 × List UInt32 →
    List UInt32 × List UInt32
  | _, [], v => v
  | n, reg :: regs, v =>
    if reg.index = 0 then v
    else regList place (n + 1) regs (v.1.set reg.offset (place n).1, v.2.set reg.bitPosition (place n).2)

/-- The terminator `registrations_.push_back({})`. -/
def terminator : Registration := ⟨0, 0, 0, 0, 0, 0, 0, 0⟩

/-- A failed registration may have written offsets; they are cleared.
mirrors apps/ecatd/FreeRunController.cpp:188-195 -/
def registerEntries (env : Env) : Op String State := fun s =>
  let registrations := s.c.registrations ++ [terminator]
  if !env.regList then
    .error ("Failed to register PDO entries in the process data domain.", { s with c.registrations := registrations })
  else
    let v := regList env.place 0 registrations (s.c.offsets, s.c.bitPositions)
    .ok { s with c.registrations := registrations, c.offsets := v.1, c.bitPositions := v.2 }

/-- mirrors apps/ecatd/FreeRunController.cpp:197-203 -/
def activate (env : Env) : Op String State := fun s =>
  if env.activate then .ok s else .error ("Failed to activate IgH master for Free Run.", s)

/-- mirrors apps/ecatd/FreeRunController.cpp:205-212 -/
def takeDomainData (env : Env) : Op String State := fun s =>
  match env.domainData with
  | none => .error ("Failed to obtain domain process data pointer.", { s with c.domainData := none })
  | some d => .ok { s with c.domainData := some d }

/-- What the pointers of an entry point to. -/
def Controller.deref (c : Controller) (e : EntryRef) : RuntimeEntry where
  slavePosition := e.slavePosition
  syncIndex := e.syncIndex
  direction := e.direction
  pdoIndex := e.pdoIndex
  index := e.index
  subindex := e.subindex
  bitLength := e.bitLength
  name := e.name
  offset := c.offsets[e.offset]?
  bitPosition := c.bitPositions[e.bitPosition]?

def Controller.entries (c : Controller) : List RuntimeEntry := c.runtimeEntries.map c.deref

/-- mirrors apps/ecatd/FreeRunController.cpp:214-222 -/
def snapshot (env : Env) (s : State) : State :=
  { s with
    c.masterState := env.masterState
    c.domainState := env.domainState
    c.mirrorEntries := buildMirrorEntries s.c.entries }

/-- `if (shm_fd_ >= 0) { close(shm_fd_); shm_fd_ = -1; shm_unlink(kShmName); }` -/
def closeShm (s : State) : State :=
  { s with
    c.shmFd := none
    w.fds := s.w.fds.releaseIf s.c.shmFd
    w.name := if s.c.shmFd.isSome then none else s.w.name }

/-- The header and buffers of a fresh mapping over what the object held. -/
def freshArena (object : Bytes) (bufferSize : Nat) : Arena where
  hdr := {
    version := 0
    cycleCount := 0
    timestampNs := 0
    activeBuffer := 0
    dataSize := UInt32.ofNat bufferSize
    layoutVersion := layoutVersion
    statusFlags := 0
    ignoredWrites := 0 }
  data b := (object.drop (headerSize + b.val * bufferSize)).take bufferSize

/-- mirrors apps/ecatd/FreeRunController.cpp:254-312 -/
def initSharedMemory (env : Env) (dataSize : UInt32) : Op String State := fun s =>
  match env.shmOpen with
  | none => .error ("Failed to open shared memory " ++ kShmName, { s with c.shmFd := none })
  | some fd =>
    let bufferSize := if dataSize > 0 then dataSize.toNat else maxProcessDataSize
    let s := { s with
      c.shmFd := some fd
      c.shmSize := headerSize + 2 * bufferSize
      w.fds := s.w.fds.acquire fd
      w.name := s.w.name.or (some .controller) }
    if !env.ftruncate then .error ("Failed to size shared memory", closeShm s)
    else
      match env.mmap with
      | none => .error ("Failed to mmap shared memory", closeShm { s with c.shmPtr := .failed })
      | some m =>
        .ok { s with
          c.shmPtr := .mapped m
          c.shm := some (freshArena (truncate env.object (headerSize + 2 * bufferSize)) bufferSize)
          c.shmStride := bufferSize
          w.maps := s.w.maps.acquire m }

/-- `INT64_MAX` -/
def int64Max : Int := 2 ^ 63 - 1

/-- mirrors apps/ecatd/FreeRunController.cpp:234-250 -/
def finish (masterIndex : UInt32) (slaves : List SlaveSpec) (s : State) : State :=
  { s with
    c.activeMasterIndex := masterIndex
    c.stats := {
      cycleCount := 0
      wcErrorCount := 0
      lastWarning := ""
      minCycleNsec := int64Max
      maxCycleNsec := 0
      totalCycleNsec := 0
      status := QString.arg (QString.arg (QString.arg "Running on master %1, %2 slave(s), %3 PDO entries"
        (QString.number masterIndex.toNat)) (QString.number slaves.length)) (QString.number (totalEntries slaves)) }
    c.running := true
    c.thread := true }

/-- The steps before the shared memory. -/
def configure (env : Env) (masterIndex : UInt32) (slaves : List SlaveSpec) : Op String State :=
  (requestMaster env masterIndex).andThen <|
  (createDomain env).andThen <|
  (Op.pure (prepare slaves)).andThen <|
  (Op.each (configureSlave env) 0 slaves).andThen <|
  (registerEntries env).andThen <|
  (activate env).andThen <|
  (takeDomainData env).andThen <|
  Op.pure (snapshot env)

/-- The shared memory in the size the mirror entries ask for. -/
def openShm (env : Env) : Op String State := fun s =>
  initSharedMemory env (UInt32.ofNat (arenaSize s.c.mirrorEntries)) s

def body (env : Env) (masterIndex : UInt32) (slaves : List SlaveSpec) : Op String State :=
  (configure env masterIndex slaves).andThen <| (openShm env).andThen <| Op.pure (finish masterIndex slaves)

/-- The shared memory as `FreeRun.initSharedMemory` has it. -/
theorem initSharedMemory_eq (env : Env) (dataSize : UInt32) (s : State) :
    match initSharedMemory env dataSize s,
      FreeRun.initSharedMemory ⟨env.shmOpen.isSome, env.ftruncate, env.mmap.isSome⟩ env.object dataSize with
    | .ok s', .ok m => s'.c.shm = some m.arena ∧ s'.c.shmStride = m.stride ∧ s'.c.shmSize = m.size
    | .error (e, _), .error e' => e = e'
    | _, _ => False := by
  unfold initSharedMemory FreeRun.initSharedMemory
  cases env.shmOpen with
  | none => rfl
  | some fd =>
    cases env.ftruncate with
    | false => rfl
    | true =>
      cases env.mmap with
      | none => rfl
      | some m => exact ⟨rfl, rfl, rfl⟩

/-! ## Cleanup -/

/-- mirrors apps/ecatd/FreeRunController.cpp:315-318 -/
def unmapShm (s : State) : State :=
  { s with
    c.shmPtr := if s.c.shmPtr.mapping.isSome then .null else s.c.shmPtr
    w.maps := s.w.maps.releaseIf s.c.shmPtr.mapping }

/-- mirrors apps/ecatd/FreeRunController.cpp:314-328 -/
def cleanupSharedMemory (s : State) : State :=
  let s := closeShm (unmapShm s)
  { s with c.shm := none, c.shmStride := 0, c.shmSize := 0 }

/-- mirrors apps/ecatd/FreeRunController.cpp:928-955 -/
def cleanup (s : State) : State :=
  let s := { s with
    c.thread := false
    w.masters := s.w.masters.releaseIf s.c.master
    c.master := none
    c.domain := none
    c.domainData := none
    c.runtimeSlaves := []
    c.registrations := []
    c.runtimeEntries := []
    c.mirrorEntries := []
    c.offsets := []
    c.bitPositions := []
    c.activeMasterIndex := 0
    c.stats.cycleCount := 0 }
  let s := cleanupSharedMemory s
  { s with c.masterState := {}, c.domainState := {} }

/-- mirrors apps/ecatd/FreeRunController.cpp:40-252 -/
def start (env : Env) (masterIndex : UInt32) (s : State) : Except String Unit × State :=
  if s.c.running then
    if masterIndex = s.c.activeMasterIndex then (.ok (), s)
    else
      (.error (QString.arg "Free Run is already active on master %1. Stop it before switching masters."
        (QString.number s.c.activeMasterIndex.toNat)), s)
  else
    match env.discovery with
    | .error e => (.error e, s)
    | .ok slaves =>
      if slaves.isEmpty then (.error "No EtherCAT slaves found for Free Run.", s)
      else
        match body env masterIndex slaves s with
        | .ok s => (.ok (), s)
        | .error (e, s) => (.error e, cleanup s)

/-- The last publication before the object goes: `RUNNING` cleared, a new
version.
mirrors apps/ecatd/FreeRunController.cpp:419-423 -/
def publishStopped (a : Arena) : Arena :=
  { a with hdr := {
      a.hdr with
      statusFlags := a.hdr.statusFlags &&& ~~~flagRunning
      version := a.hdr.version + 1 } }

/-- mirrors apps/ecatd/FreeRunController.cpp:407-429 -/
def stop (s : State) : State :=
  let s := if s.c.running then { s with c.running := false, c.thread := false } else s
  let s := { s with c.shm := s.c.shm.map publishStopped }
  let s := cleanup s
  { s with c.stats.status := "Stopped" }

/-! ## What is held -/

/-- The ledgers show what the fields name. -/
structure Owned (s : State) : Prop where
  masters : s.w.masters.Holds s.c.master.toList
  fds : s.w.fds.Holds s.c.shmFd.toList
  maps : s.w.maps.Holds s.c.shmPtr.mapping.toList
  name : s.w.name = some .controller → s.c.shmFd ≠ none

/-- No resource is held and no trace of one is left in a field. -/
structure Idle (s : State) : Prop where
  running : s.c.running = false ∧ s.c.thread = false
  pointers : s.c.master = none ∧ s.c.domain = none ∧ s.c.domainData = none
  vectors : s.c.runtimeSlaves = [] ∧ s.c.registrations = [] ∧ s.c.runtimeEntries = [] ∧ s.c.mirrorEntries = [] ∧
    s.c.offsets = [] ∧ s.c.bitPositions = []
  shm : s.c.shmFd = none ∧ s.c.shmPtr.mapping = none ∧ s.c.shm = none ∧ s.c.shmStride = 0 ∧ s.c.shmSize = 0
  states : s.c.activeMasterIndex = 0 ∧ s.c.masterState = {} ∧ s.c.domainState = {}
  ledgers : s.w.masters = .empty ∧ s.w.fds = .empty ∧ s.w.maps = .empty
  name : s.w.name ≠ some .controller

theorem Idle.owned {s : State} (h : Idle s) : Owned s := by
  refine ⟨?_, ?_, ?_, fun hn => absurd hn h.name⟩
  · rw [h.pointers.1, h.ledgers.1]; exact Ledger.holds_empty
  · rw [h.shm.1, h.ledgers.2.1]; exact Ledger.holds_empty
  · rw [h.shm.2.1, h.ledgers.2.2]; exact Ledger.holds_empty

theorem closeShm_owned {s : State} (h : Owned s) : Owned (closeShm s) := by
  refine ⟨h.masters, ?_, h.maps, ?_⟩
  · show (s.w.fds.releaseIf s.c.shmFd).Holds []
    rw [h.fds.releaseIf]
    exact Ledger.holds_empty
  · intro hn
    have hfd := h.name
    cases ho : s.c.shmFd <;> simp_all [closeShm]

/-- **Cleanup gives everything back.** -/
theorem cleanup_idle {s : State} (h : Owned s) (hr : s.c.running = false) : Idle (cleanup s) where
  running := ⟨hr, rfl⟩
  pointers := ⟨rfl, rfl, rfl⟩
  vectors := ⟨rfl, rfl, rfl, rfl, rfl, rfl⟩
  shm := by
    refine ⟨rfl, ?_, rfl, rfl, rfl⟩
    show (if s.c.shmPtr.mapping.isSome then MapPtr.null else s.c.shmPtr).mapping = none
    cases hp : s.c.shmPtr.mapping with
    | none => exact hp
    | some m => rfl
  states := ⟨rfl, rfl, rfl⟩
  ledgers := ⟨h.masters.releaseIf, h.fds.releaseIf, h.maps.releaseIf⟩
  name := by
    show (if s.c.shmFd.isSome then none else s.w.name) ≠ some .controller
    have hn := h.name
    cases ho : s.c.shmFd <;> simp_all

/-- What a failure leaves for `cleanup`. -/
def Undone (s : State) : Prop := Owned s ∧ s.c.running = false

/-- The master is there, the shared memory is not. -/
structure Configuring (s : State) : Prop where
  owned : Owned s
  running : s.c.running = false
  master : s.c.master ≠ none
  shmFd : s.c.shmFd = none
  shmPtr : s.c.shmPtr.mapping = none

theorem Configuring.undone {s : State} (h : Configuring s) : Undone s := ⟨h.owned, h.running⟩

/-- Only the handles and their fields count. -/
theorem Configuring.of_eq {s s' : State} (h : Configuring s) (hw : s'.w = s.w) (hr : s'.c.running = s.c.running)
    (hm : s'.c.master = s.c.master) (hf : s'.c.shmFd = s.c.shmFd) (hp : s'.c.shmPtr = s.c.shmPtr) : Configuring s' := by
  obtain ⟨⟨h1, h2, h3, h4⟩, h5, h6, h7, h8⟩ := h
  refine ⟨⟨?_, ?_, ?_, ?_⟩, ?_, ?_, ?_, ?_⟩ <;> simp only [hw, hr, hm, hf, hp] <;> assumption

/-- What one push keeps, all of them keep. -/
theorem pushEntries_keeps {P : Controller → Prop} {slave : SlaveSpec}
    (h : ∀ sync pdo c entry, P c → P (pushEntry slave sync pdo c entry)) {c : Controller} (hc : P c) :
    P (pushEntries slave c) := by
  refine List.foldlRecOn _ _ hc fun c hc sync _ => ?_
  refine List.foldlRecOn _ _ hc fun c hc pdo _ => ?_
  exact List.foldlRecOn _ _ hc fun c hc entry _ => h sync pdo c entry hc

theorem requestMaster_triple (env : Env) (masterIndex : UInt32) :
    Triple Idle (requestMaster env masterIndex) Configuring Undone := by
  intro s h
  have howned := h.owned
  unfold requestMaster
  cases env.requestMaster with
  | none =>
    refine Triple.error ?_
    refine ⟨⟨?_, howned.fds, howned.maps, howned.name⟩, h.running.1⟩
    rw [h.ledgers.1]
    exact Ledger.holds_empty
  | some m =>
    refine Triple.ok ?_
    refine ⟨⟨?_, howned.fds, howned.maps, howned.name⟩, h.running.1, by simp, h.shm.1, h.shm.2.1⟩
    rw [h.ledgers.1]
    exact Ledger.holds_empty.acquire m

theorem createDomain_triple (env : Env) : Triple Configuring (createDomain env) Configuring Undone := by
  intro s h
  unfold createDomain
  cases env.createDomain with
  | none =>
    refine Triple.error ?_
    exact Configuring.undone (h.of_eq rfl rfl rfl rfl rfl)
  | some d =>
    refine Triple.ok ?_
    exact h.of_eq rfl rfl rfl rfl rfl

theorem configureSlave_triple (env : Env) (n : Nat) (slave : SlaveSpec) :
    Triple Configuring (configureSlave env n slave) Configuring Undone := by
  intro s h
  have hpush : Configuring { s with c := pushEntries slave s.c } :=
    pushEntries_keeps (P := fun c => Configuring { s with c := c })
      (fun _ _ _ _ hc => hc.of_eq rfl rfl rfl rfl rfl) h
  unfold configureSlave
  cases env.slaveConfig n with
  | false =>
    refine Triple.error ?_
    exact h.undone
  | true =>
    cases env.configPdos n with
    | false =>
      refine Triple.error ?_
      exact hpush.undone
    | true =>
      refine Triple.ok ?_
      exact hpush.of_eq rfl rfl rfl rfl rfl

theorem registerEntries_triple (env : Env) : Triple Configuring (registerEntries env) Configuring Undone := by
  intro s h
  unfold registerEntries
  cases env.regList with
  | false =>
    refine Triple.error ?_
    exact Configuring.undone (h.of_eq rfl rfl rfl rfl rfl)
  | true =>
    refine Triple.ok ?_
    exact h.of_eq rfl rfl rfl rfl rfl

theorem activate_triple (env : Env) : Triple Configuring (activate env) Configuring Undone := by
  intro s h
  unfold activate
  cases env.activate with
  | false =>
    refine Triple.error ?_
    exact h.undone
  | true =>
    refine Triple.ok ?_
    exact h

theorem takeDomainData_triple (env : Env) : Triple Configuring (takeDomainData env) Configuring Undone := by
  intro s h
  unfold takeDomainData
  cases env.domainData with
  | none =>
    refine Triple.error ?_
    exact Configuring.undone (h.of_eq rfl rfl rfl rfl rfl)
  | some d =>
    refine Triple.ok ?_
    exact h.of_eq rfl rfl rfl rfl rfl

theorem configure_triple (env : Env) (masterIndex : UInt32) (slaves : List SlaveSpec) :
    Triple Idle (configure env masterIndex slaves) Configuring Undone := by
  refine (requestMaster_triple env masterIndex).andThen ?_
  refine (createDomain_triple env).andThen ?_
  refine (Triple.pure fun s h => h.of_eq rfl rfl rfl rfl rfl).andThen ?_
  refine ((Triple.each (configureSlave_triple env)) 0 slaves).andThen ?_
  refine (registerEntries_triple env).andThen ?_
  refine (activate_triple env).andThen ?_
  refine (takeDomainData_triple env).andThen ?_
  exact Triple.pure fun s h => h.of_eq rfl rfl rfl rfl rfl

/-- Everything is there. -/
structure Running (s : State) : Prop where
  owned : Owned s
  running : s.c.running = true ∧ s.c.thread = true
  master : s.c.master ≠ none

theorem openShm_triple (env : Env) :
    Triple Configuring (openShm env) (fun s => Undone s ∧ s.c.master ≠ none) Undone := by
  intro s h
  have hfds := h.owned.fds
  have hmaps := h.owned.maps
  rw [h.shmFd] at hfds
  rw [h.shmPtr] at hmaps
  unfold openShm initSharedMemory
  cases env.shmOpen with
  | none =>
    refine Triple.error ?_
    exact Configuring.undone (h.of_eq rfl rfl rfl h.shmFd.symm rfl)
  | some fd =>
    have hopen : ∀ (n : Nat) (p : MapPtr), p.mapping = none → Owned { s with
        c.shmFd := some fd
        c.shmSize := n
        c.shmPtr := p
        w.fds := s.w.fds.acquire fd
        w.name := s.w.name.or (some .controller) } := by
      intro n p hp
      refine ⟨h.owned.masters, hfds.acquire fd, ?_, fun _ => by simp⟩
      rw [hp]
      exact hmaps
    cases env.ftruncate with
    | false =>
      refine Triple.error ?_
      exact ⟨closeShm_owned (hopen _ s.c.shmPtr h.shmPtr), h.running⟩
    | true =>
      cases env.mmap with
      | none =>
        refine Triple.error ?_
        exact ⟨closeShm_owned (hopen _ .failed rfl), h.running⟩
      | some m =>
        refine Triple.ok ?_
        exact ⟨⟨⟨h.owned.masters, hfds.acquire fd, hmaps.acquire m, fun _ => by simp⟩, h.running⟩, h.master⟩

theorem body_triple (env : Env) (masterIndex : UInt32) (slaves : List SlaveSpec) :
    Triple Idle (body env masterIndex slaves) Running Undone := by
  refine (configure_triple env masterIndex slaves).andThen ?_
  refine (openShm_triple env).andThen ?_
  exact Triple.pure fun s h =>
    ⟨⟨h.1.1.masters, h.1.1.fds, h.1.1.maps, h.1.1.name⟩, ⟨rfl, rfl⟩, h.2⟩

/-- **A start on an idle controller** runs, or leaves it idle. -/
theorem start_idle {s : State} (h : Idle s) (env : Env) (masterIndex : UInt32) :
    ((start env masterIndex s).1 = .ok () ∧ Running (start env masterIndex s).2) ∨
      ((∃ e, (start env masterIndex s).1 = .error e) ∧ Idle (start env masterIndex s).2) := by
  unfold start
  rw [if_neg (by rw [h.running.1]; exact Bool.false_ne_true)]
  cases env.discovery with
  | error e => exact .inr ⟨⟨e, rfl⟩, h⟩
  | ok slaves =>
    by_cases hempty : slaves.isEmpty
    · simp only [hempty, if_true]
      exact .inr ⟨⟨_, rfl⟩, h⟩
    · simp only [hempty, Bool.false_eq_true, if_false]
      have hbody := body_triple env masterIndex slaves s h
      cases hr : body env masterIndex slaves s with
      | ok s' => exact .inl ⟨rfl, hbody.1 s' hr⟩
      | error r =>
        obtain ⟨e, s'⟩ := r
        have hu := hbody.2 e s' hr
        exact .inr ⟨⟨e, rfl⟩, cleanup_idle hu.1 hu.2⟩

/-- A running controller is left alone. -/
theorem start_running {s : State} (h : s.c.running = true) (env : Env) (masterIndex : UInt32) :
    (start env masterIndex s).2 = s := by
  unfold start
  rw [if_pos h]
  split <;> rfl

theorem stop_idle {s : State} (h : Owned s) : Idle (stop s) := by
  have howned : Owned { s with c.running := false, c.thread := false, c.shm := s.c.shm.map publishStopped } :=
    ⟨h.masters, h.fds, h.maps, h.name⟩
  have hidle := cleanup_idle howned rfl
  unfold stop
  cases hr : s.c.running with
  | true =>
    exact ⟨hidle.running, hidle.pointers, hidle.vectors, hidle.shm, hidle.states, hidle.ledgers, hidle.name⟩
  | false =>
    have hidle : Idle (cleanup { s with c.shm := s.c.shm.map publishStopped }) :=
      cleanup_idle ⟨h.masters, h.fds, h.maps, h.name⟩ hr
    exact ⟨hidle.running, hidle.pointers, hidle.vectors, hidle.shm, hidle.states, hidle.ledgers, hidle.name⟩

/-! ## What a start does not see -/

/-- The fields an idle controller may have anything in. -/
def withRest (p : MapPtr) (stats : Stats) (name : Option Owner) (s : State) : State :=
  { s with c.shmPtr := p, c.stats := stats, w.name := name }

/-- Idle controllers differ in these only. -/
theorem Idle.eq_withRest {s t : State} (hs : Idle s) (ht : Idle t) :
    t = withRest t.c.shmPtr t.c.stats t.w.name s := by
  obtain ⟨⟨_⟩, ⟨_⟩⟩ := s
  obtain ⟨⟨_⟩, ⟨_⟩⟩ := t
  obtain ⟨s1, s2, s3, s4, s5, s6, -⟩ := hs
  obtain ⟨t1, t2, t3, t4, t5, t6, -⟩ := ht
  simp_all [withRest]

section
variable (p : MapPtr) (stats : Stats) (name : Option Owner) (env : Env)

theorem pushEntries_rest (slave : SlaveSpec) (c : Controller) :
    pushEntries slave { c with shmPtr := p, stats := stats } =
      { pushEntries slave c with shmPtr := p, stats := stats } := by
  let k := fun c : Controller => { c with shmPtr := p, stats := stats }
  have hpdo : ∀ (sync : SyncSpec) c (pdo : PdoSpec), pdo.entries.foldl (pushEntry slave sync pdo) (k c) =
      k (pdo.entries.foldl (pushEntry slave sync pdo) c) :=
    fun sync c pdo => List.foldl_hom k fun _ _ => rfl
  have hsync : ∀ c (sync : SyncSpec), sync.pdos.foldl (fun c pdo => pdo.entries.foldl (pushEntry slave sync pdo) c) (k c) =
      k (sync.pdos.foldl (fun c pdo => pdo.entries.foldl (pushEntry slave sync pdo) c) c) :=
    fun c sync => List.foldl_hom k (hpdo sync)
  exact List.foldl_hom k hsync

theorem configureSlave_rest (n : Nat) (slave : SlaveSpec) :
    Commutes (withRest p stats name) (configureSlave env n slave) := by
  intro s
  have hpush := pushEntries_rest p stats slave s.c
  unfold configureSlave
  cases env.slaveConfig n with
  | false => rfl
  | true =>
    cases env.configPdos n with
    | false => exact congrArg (fun c => Except.error (_, { withRest p stats name s with c := c })) hpush
    | true =>
      simp only [Bool.not_true, Bool.false_eq_true, if_false]
      exact congrArg (fun c => Except.ok { withRest p stats name s with
        c := { c with runtimeSlaves := c.runtimeSlaves ++ [slave] } }) hpush

theorem configure_rest (masterIndex : UInt32) (slaves : List SlaveSpec) :
    Commutes (withRest p stats name) (configure env masterIndex slaves) := by
  refine Commutes.andThen (f := requestMaster env masterIndex) ?_ ?_
  · intro s; unfold requestMaster; cases env.requestMaster <;> rfl
  refine Commutes.andThen (f := createDomain env) ?_ ?_
  · intro s; unfold createDomain; cases env.createDomain <;> rfl
  refine Commutes.andThen (Commutes.pure fun s => rfl) ?_
  refine Commutes.andThen (Commutes.each (configureSlave_rest p stats name env) 0 slaves) ?_
  refine Commutes.andThen (f := registerEntries env) ?_ ?_
  · intro s; unfold registerEntries; cases env.regList <;> rfl
  refine Commutes.andThen (f := activate env) ?_ ?_
  · intro s; unfold activate; cases env.activate <;> rfl
  refine Commutes.andThen (f := takeDomainData env) ?_ ?_
  · intro s; unfold takeDomainData; cases env.domainData <;> rfl
  exact Commutes.pure fun s => rfl

/-- A successful start writes over them. -/
theorem body_rest (masterIndex : UInt32) (slaves : List SlaveSpec) (s : State) :
    match body env masterIndex slaves s, body env masterIndex slaves (withRest p stats name s) with
    | .ok s', .ok t' => s'.c = t'.c
    | .error (e, _), .error (e', _) => e = e'
    | _, _ => False := by
  have hc := configure_rest p stats name env masterIndex slaves s
  unfold body Op.andThen
  rw [hc]
  cases configure env masterIndex slaves s with
  | error r => rfl
  | ok s' =>
    simp only [mapState]
    unfold openShm initSharedMemory
    cases env.shmOpen with
    | none => rfl
    | some fd =>
      cases env.ftruncate with
      | false => rfl
      | true =>
        cases env.mmap with
        | none => rfl
        | some m => rfl

end

/-- **What an idle controller went through does not show in a start.** -/
theorem later_start {s t : State} (hs : Idle s) (ht : Idle t) (env : Env) (masterIndex : UInt32) :
    (start env masterIndex s).1 = (start env masterIndex t).1 ∧
      ((start env masterIndex s).1 = .ok () → (start env masterIndex s).2.c = (start env masterIndex t).2.c) := by
  unfold start
  rw [if_neg (by rw [hs.running.1]; exact Bool.false_ne_true), if_neg (by rw [ht.running.1]; exact Bool.false_ne_true)]
  cases env.discovery with
  | error e => exact ⟨rfl, by simp⟩
  | ok slaves =>
    by_cases hempty : slaves.isEmpty
    · simp [hempty]
    · simp only [hempty, Bool.false_eq_true, if_false]
      have hbody := body_rest t.c.shmPtr t.c.stats t.w.name env masterIndex slaves s
      rw [← hs.eq_withRest ht] at hbody
      cases hbs : body env masterIndex slaves s with
      | ok s' =>
        cases hbt : body env masterIndex slaves t with
        | ok t' =>
          rw [hbs, hbt] at hbody
          exact ⟨rfl, fun _ => hbody⟩
        | error r => rw [hbs, hbt] at hbody; exact hbody.elim
      | error r =>
        cases hbt : body env masterIndex slaves t with
        | ok t' => rw [hbs, hbt] at hbody; exact hbody.elim
        | error r' =>
          rw [hbs, hbt] at hbody
          exact ⟨congrArg Except.error hbody, by simp⟩

/-! ## Runs -/

inductive Ev where
  | start (env : Env) (masterIndex : UInt32)
  | stop
  /-- the cycle thread updates its statistics -/
  | cycle (stats : Stats) (masterState : MasterState) (domainState : DomainState)

def step (s : State) : Ev → State
  | .start env masterIndex => (start env masterIndex s).2
  | .stop => stop s
  | .cycle stats masterState domainState =>
    if s.c.running then
      { s with c.stats := stats, c.masterState := masterState, c.domainState := domainState }
    else s

/-- A new controller; `foreign`: an object of that name exists already. -/
def initial (foreign : Bool) : State where
  c := {
    running := false
    thread := false
    activeMasterIndex := 0
    stats := {
      cycleCount := 0
      wcErrorCount := 0
      lastWarning := ""
      minCycleNsec := int64Max
      maxCycleNsec := 0
      totalCycleNsec := 0
      status := "Stopped" }
    masterState := {}
    domainState := {}
    master := none
    domain := none
    domainData := none
    runtimeSlaves := []
    registrations := []
    runtimeEntries := []
    mirrorEntries := []
    offsets := []
    bitPositions := []
    shmFd := none
    shmPtr := .null
    shm := none
    shmStride := 0
    shmSize := 0 }
  w := { masters := .empty, fds := .empty, maps := .empty, name := if foreign then some .other else none }

theorem initial_idle (foreign : Bool) : Idle (initial foreign) := by
  refine ⟨⟨rfl, rfl⟩, ⟨rfl, rfl, rfl⟩, ⟨rfl, rfl, rfl, rfl, rfl, rfl⟩, ⟨rfl, rfl, rfl, rfl, rfl⟩, ⟨rfl, rfl, rfl⟩,
    ⟨rfl, rfl, rfl⟩, ?_⟩
  cases foreign <;> simp [initial]

/-- Between calls: all or nothing. -/
def Settled (s : State) : Prop := Idle s ∨ Running s

theorem Settled.owned {s : State} (h : Settled s) : Owned s := h.elim Idle.owned Running.owned

theorem Settled.idle {s : State} (h : Settled s) (hr : s.c.running = false) : Idle s := by
  rcases h with h | h
  · exact h
  · rw [h.running.1] at hr; cases hr

theorem step_settled (s : State) (e : Ev) (h : Settled s) : Settled (step s e) := by
  cases e with
  | start env masterIndex =>
    rcases h with h | h
    · rcases start_idle h env masterIndex with ⟨-, hr⟩ | ⟨-, hi⟩
      · exact .inr hr
      · exact .inl hi
    · show Settled (start env masterIndex s).2
      rw [start_running h.running.1]
      exact .inr h
  | stop => exact .inl (stop_idle h.owned)
  | cycle stats masterState domainState =>
    cases hr : s.c.running with
    | false => simpa [step, hr] using h
    | true =>
      rcases h with h | h
      · rw [h.running.1] at hr; cases hr
      · simp only [step, hr, if_true]
        exact .inr ⟨⟨h.owned.masters, h.owned.fds, h.owned.maps, h.owned.name⟩, ⟨rfl, h.running.2⟩, h.master⟩

theorem exec_settled {s : State} (h : Settled s) (evs : List Ev) : Settled (exec step s evs) := by
  induction evs generalizing s with
  | nil => exact h
  | cons e evs ih => exact ih (step_settled s e h)

/-- A start that failed changes nothing for the next one. -/
def FailsCleanly (s : State) : Prop :=
  ∀ env masterIndex e, (start env masterIndex s).1 = .error e →
    Idle (start env masterIndex s).2 ∧
    ∀ env' masterIndex',
      (start env' masterIndex' (start env masterIndex s).2).1 = (start env' masterIndex' s).1 ∧
      ((start env' masterIndex' s).1 = .ok () →
        (start env' masterIndex' (start env masterIndex s).2).2.c = (start env' masterIndex' s).2.c)

theorem Idle.failsCleanly {s : State} (h : Idle s) : FailsCleanly s := by
  intro env masterIndex e he
  rcases start_idle h env masterIndex with ⟨hok, -⟩ | ⟨-, hidle⟩
  · rw [hok] at he; cases he
  · refine ⟨hidle, fun env' masterIndex' => ?_⟩
    have hlater := later_start h hidle env' masterIndex'
    exact ⟨hlater.1.symm, fun hok => (hlater.2 hok).symm⟩

/-- **Free Run holds all of its resources or none.** In every run of starts and
stops, whichever calls inside them fail: one master is requested while the
controller runs and none otherwise, nothing is given back twice, and a
controller that does not run is idle and fails cleanly. -/
theorem start_stop_atomic (foreign : Bool) (evs : List Ev) :
    let s := exec step (initial foreign) evs
    s.w.masters.live.length = (if s.c.running then 1 else 0) ∧
    s.w.masters.strays = [] ∧ s.w.fds.strays = [] ∧ s.w.maps.strays = [] ∧
    (s.c.running = false → Idle s ∧ FailsCleanly s) := by
  intro s
  have hs : Settled s := exec_settled (.inl (initial_idle foreign)) evs
  refine ⟨?_, hs.owned.masters.2, hs.owned.fds.2, hs.owned.maps.2, fun hr => ⟨hs.idle hr, (hs.idle hr).failsCleanly⟩⟩
  rw [hs.owned.masters.length]
  rcases hs with h | h
  · rw [h.running.1, h.pointers.1]; rfl
  · obtain ⟨m, hm⟩ := Option.ne_none_iff_exists'.1 h.master
    rw [h.running.1, hm]; rfl

end NekoEcat.L2.FreeRunStart
