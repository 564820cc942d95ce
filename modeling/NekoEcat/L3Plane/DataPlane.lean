import NekoEcat.Core.Trace
import NekoEcat.L2Daemon.FreeRunShm

/-!
# The data plane: one publisher, any number of clients

The daemon's `mirrorToShm`, the clients' `nekoecat_client_read_raw_at` and
`nekoecat_client_write_raw_at`, cut into single loads and stores that
interleave in any order (sequential consistency). A cycle is a list of byte
copies and header updates, then the store of `active_buffer`, then the store
of `version`. Between two cycles the bus may refresh the domain.

`hist` is a ghost: the images published so far, the initial active buffer
first, so that `hist[k]` is the image of publish number `k`.

* `foldl_cycleOps`: the stores of a cycle, as a whole.
* `cycle_refines`: a cycle that nobody interrupts is `mirrorToShm`.
* `read_refines`, `write_refines`: so are the clients' calls one copy.
-/
namespace NekoEcat.L3.DataPlane
open NekoEcat.Bytes NekoEcat.Trace NekoEcat.L1.Shm NekoEcat.L2.Mirror NekoEcat.L2.FreeRun

structure Config where
  entries : List ShmMirrorEntry
  dataSize : Nat
  pos : 1 ≤ dataSize
  le : dataSize ≤ maxProcessDataSize

/-- The shared object and the domain. -/
structure Mem where
  arena : Arena
  domain : Bytes

/-- One store of a cycle, the source of a copy being loaded in the same step. -/
inductive Op where
  /-- a byte of the domain into the inactive buffer -/
  | copyIn (i : Nat)
  /-- a byte of the active buffer into the inactive one -/
  | shmCopy (i : Nat)
  /-- a byte of the active buffer into the domain -/
  | domCopy (i : Nat)
  | addIgnored (k : UInt32)
  | storeTimestamp (t : UInt64)
  | orStatus
  | addCycle
  deriving DecidableEq, Repr

def setBuf (a : Arena) (b : Fin 2) (bytes : Bytes) : Arena :=
  { a with data := Function.update a.data b bytes }

def setByte (a : Arena) (b : Fin 2) (i : Nat) (v : UInt8) : Arena := setBuf a b (wr (a.data b) i v)

/-- `a` is the index the cycle loaded at its start. -/
def applyOp (a : Fin 2) (m : Mem) : Op → Mem
  | .copyIn i => { m with arena := setByte m.arena (other a) i (rd m.domain i) }
  | .shmCopy i => { m with arena := setByte m.arena (other a) i (rd (m.arena.data a) i) }
  | .domCopy i => { m with domain := wr m.domain i (rd (m.arena.data a) i) }
  | .addIgnored k =>
    { m with arena := { m.arena with hdr := { m.arena.hdr with ignoredWrites := m.arena.hdr.ignoredWrites + k } } }
  | .storeTimestamp t => { m with arena := { m.arena with hdr := { m.arena.hdr with timestampNs := t } } }
  | .orStatus =>
    { m with arena := { m.arena with hdr := { m.arena.hdr with statusFlags := m.arena.hdr.statusFlags ||| flagRunning } } }
  | .addCycle =>
    { m with arena := { m.arena with hdr := { m.arena.hdr with cycleCount := m.arena.hdr.cycleCount + 1 } } }

/-- The two copies of one entry.
mirrors apps/ecatd/freerun_shm_mirror.cpp:44-58 -/
def entryOps (n : Nat) (e : ShmMirrorEntry) : List Op :=
  if isOutput e && fits n e then
    (List.range (byteLength e.bitLength)).map (fun i => Op.shmCopy (e.offset.toNat + i)) ++
      (List.range (byteLength e.bitLength)).map (fun i => Op.domCopy (e.offset.toNat + i))
  else []

/-- The fetch-add of the rejected outputs.
mirrors apps/ecatd/freerun_shm_mirror.cpp:59-61 -/
def ignoredOps (cfg : Config) : List Op :=
  let ignored := UInt32.ofNat (rejected cfg.dataSize cfg.entries).length
  if ignored > 0 then [.addIgnored ignored] else []

/-- The stores of a cycle before it publishes.
mirrors apps/ecatd/freerun_shm_mirror.cpp:37-75 -/
def cycleOps (cfg : Config) (now : UInt64) : List Op :=
  (List.range cfg.dataSize).map Op.copyIn ++ cfg.entries.flatMap (entryOps cfg.dataSize) ++
    (ignoredOps cfg ++ [.storeTimestamp now, .orStatus, .addCycle])

inductive PubPc where
  | idle
  /-- in a cycle that loaded `a`, with these stores left before it publishes -/
  | fill (a : Fin 2) (todo : List Op)
  /-- `active_buffer` stored, `version` not yet -/
  | flipped
  deriving DecidableEq, Repr

/-- mirrors client/nekoecat_client.c:447-473, from the accepted bounds check on;
`left` counts the attempts that are left. -/
inductive ReaderPc where
  | idle
  | start (off n left : Nat)
  | gotVersion (off n left : Nat) (v1 : UInt64)
  | copying (off n left : Nat) (v1 : UInt64) (b : Fin 2) (got : Bytes)
  /-- returned; `some`: true, with the version and the bytes of the buffer -/
  | done (off n : Nat) (result : Option (UInt64 × Bytes))

/-- mirrors client/nekoecat_client.c:475-496, from the accepted bounds check on. -/
inductive WriterPc where
  | idle
  | called (off : Nat) (buf : Bytes)
  | copying (b : Fin 2) (off : Nat) (buf : Bytes) (k : Nat)
  | done (ok : Bool)

structure State where
  mem : Mem
  pc : PubPc
  hist : List Bytes
  readers : Nat → ReaderPc
  writers : Nat → WriterPc

inductive Lbl where
  /-- the bus writes the domain between two cycles -/
  | refresh (domain : Bytes)
  /-- `mirrorToShm` is called -/
  | begin (now : UInt64)
  /-- the next store of the cycle -/
  | tick
  | readCall (r off n : Nat)
  | readStep (r : Nat)
  | writeCall (w off : Nat) (buf : Bytes)
  | writeStep (w : Nat)

/-- A step of a client inside `nekoecat_client_write_raw_at`. -/
def Lbl.isWrite : Lbl → Bool
  | .writeStep _ => true
  | _ => false

/-- The buffer `active_buffer` names. -/
def State.active (s : State) : Fin 2 := activeIndex s.mem.arena.hdr.activeBuffer

def setVersion (m : Mem) (v : UInt64) : Mem :=
  { m with arena := { m.arena with hdr := { m.arena.hdr with version := v } } }

def setActive (m : Mem) (b : Fin 2) : Mem :=
  { m with arena := { m.arena with hdr := { m.arena.hdr with activeBuffer := bufferWord b } } }

/-- The next store of the publisher. -/
def pubStep (s : State) : State :=
  match s.pc with
  | .idle => s
  | .fill a (op :: todo) => { s with mem := applyOp a s.mem op, pc := .fill a todo }
  | .fill a [] =>
    { s with mem := setActive s.mem (other a), pc := .flipped,
             hist := s.hist ++ [s.mem.arena.data (other a)] }
  | .flipped => { s with mem := setVersion s.mem (s.mem.arena.hdr.version + 1), pc := .idle }

/-- The next load of a reader. -/
def readerStep (s : State) : ReaderPc → ReaderPc
  | .idle => .idle
  | .start off n 0 => .done off n none
  | .start off n (left + 1) => .gotVersion off n left s.mem.arena.hdr.version
  | .gotVersion off n left v1 =>
    if s.mem.arena.hdr.activeBuffer.toNat > 1 then .done off n none
    else .copying off n left v1 s.active []
  | .copying off n left v1 b got =>
    if got.length < n then
      .copying off n left v1 b (got ++ [rd (s.mem.arena.data b) (off + got.length)])
    else if v1 = s.mem.arena.hdr.version then .done off n (some (v1, got))
    else .start off n left
  | .done off n result => .done off n result

def setReader (s : State) (r : Nat) (pc : ReaderPc) : State :=
  { s with readers := Function.update s.readers r pc }

def setWriter (s : State) (w : Nat) (pc : WriterPc) : State :=
  { s with writers := Function.update s.writers w pc }

/-- The next load or store of a writer. -/
def writerStep (s : State) (w : Nat) : State :=
  match s.writers w with
  | .idle => s
  | .called off buf =>
    if s.mem.arena.hdr.activeBuffer.toNat > 1 then setWriter s w (.done false)
    else setWriter s w (.copying s.active off buf 0)
  | .copying b off buf k =>
    if k < buf.length then
      let mem := { s.mem with arena := setByte s.mem.arena b (off + k) (rd buf k) }
      setWriter { s with mem := mem } w (.copying b off buf (k + 1))
    else setWriter s w (.done true)
  | .done _ => s

def ReaderPc.free : ReaderPc → Bool
  | .idle => true
  | .done .. => true
  | _ => false

def WriterPc.free : WriterPc → Bool
  | .idle => true
  | .done _ => true
  | _ => false

/-- One step of one party; a label that is not enabled changes nothing. -/
def step (cfg : Config) (s : State) : Lbl → State
  | .refresh domain =>
    if s.pc = .idle ∧ domain.length = s.mem.domain.length then { s with mem := { s.mem with domain := domain } }
    else s
  | .begin now =>
    if s.pc = .idle then { s with pc := .fill s.active (cycleOps cfg now) } else s
  | .tick => pubStep s
  | .readCall r off n =>
    if (s.readers r).free then
      setReader s r (if off + n ≤ cfg.dataSize then .start off n 4 else .done off n none)
    else s
  | .readStep r => setReader s r (readerStep s (s.readers r))
  | .writeCall w off buf =>
    if (s.writers w).free then
      setWriter s w (if off + buf.length ≤ cfg.dataSize then .called off buf else .done false)
    else s
  | .writeStep w => writerStep s w

/-- A mapping as `initSharedMemory` leaves it, a domain that holds the data
area, nobody inside a call. -/
structure Init (cfg : Config) (s : State) : Prop where
  pc : s.pc = .idle
  version : s.mem.arena.hdr.version = 0
  hist : s.hist = [s.mem.arena.data s.active]
  data_length : ∀ b, (s.mem.arena.data b).length = cfg.dataSize
  dom_length : cfg.dataSize ≤ s.mem.domain.length
  readers : ∀ r, s.readers r = .idle
  writers : ∀ w, s.writers w = .idle

/-- An arena and a domain with nobody inside a call and nothing published. -/
def initial (arena : Arena) (domain : Bytes) : State where
  mem := ⟨arena, domain⟩
  pc := .idle
  hist := [arena.data (activeIndex arena.hdr.activeBuffer)]
  readers _ := .idle
  writers _ := .idle

theorem init_initial (cfg : Config) {arena : Arena} {domain : Bytes} (hv : arena.hdr.version = 0)
    (hb : ∀ b, (arena.data b).length = cfg.dataSize) (hd : cfg.dataSize ≤ domain.length) :
    Init cfg (initial arena domain) :=
  ⟨rfl, hv, rfl, hb, hd, fun _ => rfl, fun _ => rfl⟩

/-- The arena of a fresh object: everything is zero. -/
def freshArena (n : Nat) : Arena where
  hdr := ⟨0, 0, 0, 0, UInt32.ofNat n, layoutVersion, 0, 0⟩
  data _ := List.replicate n 0

/-! ## Stores -/

@[simp] theorem setBuf_self (a : Arena) (b : Fin 2) (x : Bytes) : (setBuf a b x).data b = x :=
  Function.update_self ..

theorem setBuf_ne (a : Arena) {b c : Fin 2} (x : Bytes) (h : c ≠ b) : (setBuf a b x).data c = a.data c :=
  Function.update_of_ne h ..

@[simp] theorem setBuf_other (a : Arena) (b : Fin 2) (x : Bytes) :
    (setBuf a (other b) x).data b = a.data b :=
  setBuf_ne a x (other_ne b).symm

@[simp] theorem setBuf_setBuf (a : Arena) (b : Fin 2) (x y : Bytes) :
    setBuf (setBuf a b x) b y = setBuf a b y := by
  simp [setBuf]

@[simp] theorem setBuf_hdr (a : Arena) (b : Fin 2) (x : Bytes) : (setBuf a b x).hdr = a.hdr := rfl

@[simp] theorem setByte_hdr (a : Arena) (b : Fin 2) (i : Nat) (v : UInt8) : (setByte a b i v).hdr = a.hdr := rfl

@[simp] theorem setByte_self (a : Arena) (b : Fin 2) (i : Nat) (v : UInt8) :
    (setByte a b i v).data b = wr (a.data b) i v :=
  setBuf_self ..

@[simp] theorem setByte_other (a : Arena) (b : Fin 2) (i : Nat) (v : UInt8) :
    (setByte a (other b) i v).data b = a.data b :=
  setBuf_other ..

@[simp] theorem setByte_length (a : Arena) (b c : Fin 2) (i : Nat) (v : UInt8) :
    ((setByte a b i v).data c).length = (a.data c).length := by
  by_cases h : c = b
  · subst h; simp
  · rw [setByte, setBuf_ne a _ h]

/-! ## The publisher's steps -/

/-- A store of a cycle leaves the active buffer, `active_buffer` and `version`
alone. -/
theorem applyOp_frame (a : Fin 2) (m : Mem) (op : Op) :
    (applyOp a m op).arena.data a = m.arena.data a ∧
    (applyOp a m op).arena.hdr.activeBuffer = m.arena.hdr.activeBuffer ∧
    (applyOp a m op).arena.hdr.version = m.arena.hdr.version := by
  cases op <;> simp [applyOp]

/-- What the publisher's next store does, by its program counter. -/
theorem pubStep_cases (s : State) :
    (s.pc = .idle ∧ pubStep s = s) ∨
    (∃ a op todo, s.pc = .fill a (op :: todo) ∧
      pubStep s = { s with mem := applyOp a s.mem op, pc := .fill a todo }) ∨
    (∃ a, s.pc = .fill a [] ∧ pubStep s =
      { s with mem := setActive s.mem (other a), pc := .flipped,
               hist := s.hist ++ [s.mem.arena.data (other a)] }) ∨
    (s.pc = .flipped ∧
      pubStep s = { s with mem := setVersion s.mem (s.mem.arena.hdr.version + 1), pc := .idle }) := by
  unfold pubStep
  split
  · exact .inl ⟨by assumption, rfl⟩
  · exact .inr (.inl ⟨_, _, _, by assumption, rfl⟩)
  · exact .inr (.inr (.inl ⟨_, by assumption, rfl⟩))
  · exact .inr (.inr (.inr ⟨by assumption, rfl⟩))

/-! ## A cycle nobody interrupts -/

section
variable (a : Fin 2)

theorem foldl_copyIn (m : Mem) (n : Nat) :
    ((List.range n).map Op.copyIn).foldl (applyOp a) m =
      ⟨setBuf m.arena (other a) (memcpy (m.arena.data (other a)) 0 m.domain 0 n), m.domain⟩ := by
  induction n with
  | zero => simp [memcpy, setBuf]
  | succ n ih =>
    rw [List.range_succ, List.map_append, List.foldl_append, ih]
    simp [applyOp, setByte, memcpy]

theorem foldl_shmCopy (m : Mem) (off n : Nat) :
    ((List.range n).map fun i => Op.shmCopy (off + i)).foldl (applyOp a) m =
      ⟨setBuf m.arena (other a) (memcpy (m.arena.data (other a)) off (m.arena.data a) off n), m.domain⟩ := by
  induction n with
  | zero => simp [memcpy, setBuf]
  | succ n ih =>
    rw [List.range_succ, List.map_append, List.foldl_append, ih]
    simp [applyOp, setByte, memcpy]

theorem foldl_domCopy (m : Mem) (off n : Nat) :
    ((List.range n).map fun i => Op.domCopy (off + i)).foldl (applyOp a) m =
      ⟨m.arena, memcpy m.domain off (m.arena.data a) off n⟩ := by
  induction n with
  | zero => rfl
  | succ n ih =>
    rw [List.range_succ, List.map_append, List.foldl_append, ih]
    rfl

/-- The memory in the middle of an overlay. -/
def overlayMem (ar : Arena) (o : Overlay) : Mem := ⟨setBuf ar (other a) o.inactive, o.domain⟩

theorem foldl_entryOps (ar : Arena) (o : Overlay) (n : Nat) (e : ShmMirrorEntry) :
    (entryOps n e).foldl (applyOp a) (overlayMem a ar o) =
      overlayMem a ar (overlayEntry n (ar.data a) o e) := by
  unfold entryOps
  rcases overlayEntry_cases n (ar.data a) o e with ⟨ho, he⟩ | ⟨ho, hf, he⟩ | ⟨ho, hf, he⟩
  · simp [ho, he]
  · simp [ho, hf, he, overlayMem]
  · rw [ho, hf, he, Bool.and_self, if_pos rfl, List.foldl_append, foldl_shmCopy, foldl_domCopy]
    simp [overlayMem]

theorem foldl_overlay (ar : Arena) (n : Nat) (es : List ShmMirrorEntry) (o : Overlay) :
    (es.flatMap (entryOps n)).foldl (applyOp a) (overlayMem a ar o) =
      overlayMem a ar (es.foldl (overlayEntry n (ar.data a)) o) := by
  induction es generalizing o with
  | nil => rfl
  | cons e es ih => rw [List.flatMap_cons, List.foldl_append, foldl_entryOps, ih, List.foldl_cons]

theorem cycleOverlay_ignored (n : Nat) (es : List ShmMirrorEntry) (active inactive domain : Bytes) :
    (cycleOverlay n es active inactive domain).ignored = UInt32.ofNat (rejected n es).length := by
  have h := (overlay_spec n active es ⟨memcpy inactive 0 domain 0 n, domain, 0⟩).2.2.1
  rw [UInt32.zero_add] at h
  exact h

/-- The header after the stores of a cycle, `k` outputs being rejected. -/
def cycleHdr (h : ShmHeader) (now : UInt64) (k : UInt32) : ShmHeader :=
  { h with
    ignoredWrites := h.ignoredWrites + k
    timestampNs := now
    statusFlags := h.statusFlags ||| flagRunning
    cycleCount := h.cycleCount + 1 }

theorem foldl_hdrOps (cfg : Config) (m : Mem) (now : UInt64) :
    (ignoredOps cfg ++ [Op.storeTimestamp now, .orStatus, .addCycle]).foldl (applyOp a) m =
      ⟨⟨cycleHdr m.arena.hdr now (UInt32.ofNat (rejected cfg.dataSize cfg.entries).length),
        m.arena.data⟩, m.domain⟩ := by
  unfold ignoredOps
  dsimp only
  split
  · rfl
  · rename_i h
    simp [applyOp, cycleHdr, eq_zero_of_not_pos h]

/-- **The stores of a cycle, as a whole**: the overlay of the cycle and the
header's counters. -/
theorem foldl_cycleOps (cfg : Config) (m : Mem) (now : UInt64) :
    let o := cycleOverlay cfg.dataSize cfg.entries (m.arena.data a) (m.arena.data (other a)) m.domain
    (cycleOps cfg now).foldl (applyOp a) m =
      ⟨⟨cycleHdr m.arena.hdr now o.ignored, (setBuf m.arena (other a) o.inactive).data⟩, o.domain⟩ := by
  have hcopy := foldl_copyIn a m cfg.dataSize
  have hover := foldl_overlay a m.arena cfg.dataSize cfg.entries
    ⟨memcpy (m.arena.data (other a)) 0 m.domain 0 cfg.dataSize, m.domain, 0⟩
  have hhdr := fun m' => foldl_hdrOps a cfg m' now
  intro o
  rw [cycleOps, List.foldl_append, hhdr, List.foldl_append, hcopy]
  unfold overlayMem at hover
  rw [hover, ← cycleOverlay_ignored cfg.dataSize cfg.entries (m.arena.data a) (m.arena.data (other a)) m.domain]
  rfl

end

theorem exec_cons (cfg : Config) (s : State) (l : Lbl) (ls : List Lbl) :
    exec (step cfg) s (l :: ls) = exec (step cfg) (step cfg s l) ls := rfl

/-- The publisher's stores, one tick each. -/
theorem exec_ticks (cfg : Config) (a : Fin 2) (k : Nat) : ∀ (todo : List Op) (s : State),
    s.pc = .fill a todo →
    exec (step cfg) s (List.replicate (todo.length + k) .tick) =
      exec (step cfg) { s with mem := todo.foldl (applyOp a) s.mem, pc := .fill a [] }
        (List.replicate k .tick)
  | [], s, h => by
    obtain ⟨m, pc, hist, rs, ws⟩ := s
    cases h
    simp
  | op :: todo, s, h => by
    have hs : step cfg s .tick = { s with mem := applyOp a s.mem op, pc := .fill a todo } := by
      simp only [step, pubStep, h]
    have hl : (op :: todo).length + k = (todo.length + k) + 1 := by
      rw [List.length_cons]; omega
    rw [hl, List.replicate_succ, exec_cons, hs]
    exact exec_ticks cfg a k todo _ rfl

/-- The state after the two publishing stores. -/
def publish (s : State) (m : Mem) : State :=
  { s with
    mem := setVersion (setActive m (other s.active)) (m.arena.hdr.version + 1)
    pc := .idle
    hist := s.hist ++ [m.arena.data (other s.active)] }

theorem exec_cycle (cfg : Config) (s : State) (now : UInt64) (h : s.pc = .idle) :
    exec (step cfg) s (.begin now :: List.replicate ((cycleOps cfg now).length + 2) .tick) =
      publish s ((cycleOps cfg now).foldl (applyOp s.active) s.mem) := by
  have hb : step cfg s (.begin now) = { s with pc := .fill s.active (cycleOps cfg now) } := by
    simp only [step, h, if_true]
  rw [exec_cons, hb, exec_ticks cfg s.active 2 (cycleOps cfg now) _ rfl]
  rfl

/-- The arena after one call of `mirrorToShm`. -/
theorem arenaAfter_cycle (cfg : Config) (ar : Arena) (domain : Bytes) (now : UInt64) :
    let a := activeIndex ar.hdr.activeBuffer
    let o := cycleOverlay cfg.dataSize cfg.entries (ar.data a) (ar.data (other a)) domain
    let r := mirrorToShm (cycleContext ar domain cfg.entries cfg.dataSize now)
    r.domainData = some o.domain ∧
    arenaAfter ar r =
      ⟨{ cycleHdr ar.hdr now o.ignored with activeBuffer := bufferWord (other a), version := ar.hdr.version + 1 },
        (setBuf ar (other a) o.inactive).data⟩ := by
  intro a o r
  have hr : r = _ := mirrorToShm_eq (cycleContext ar domain cfg.entries cfg.dataSize now)
    domain ar.data rfl (fun _ => rfl) cfg.pos cfg.le
  have hdata : ∀ b, ((Function.update (fun b => some (ar.data b)) (other a) (some o.inactive)) b).getD
      (ar.data b) = (setBuf ar (other a) o.inactive).data b := by
    intro b
    by_cases hb : b = other a
    · subst hb; simp
    · rw [setBuf_ne _ _ hb, Function.update_of_ne hb]; rfl
  rw [hr]
  refine ⟨rfl, ?_⟩
  unfold arenaAfter
  congr 1
  · have hig := congrArg (fun x : Option UInt32 => x.getD ar.hdr.ignoredWrites)
      (ignored_add ar.hdr.ignoredWrites o.ignored)
    exact congrArg (fun k => { cycleHdr ar.hdr now 0 with
      ignoredWrites := k, activeBuffer := bufferWord (other a), version := ar.hdr.version + 1 }) hig
  · funext b
    exact hdata b

/-- **Refinement.** A cycle that nobody interrupts is one call of
`mirrorToShm`, and publishes the image that is then active. -/
theorem cycle_refines (cfg : Config) (s : State) (now : UInt64) (h : s.pc = .idle) :
    let r := mirrorToShm (cycleContext s.mem.arena s.mem.domain cfg.entries cfg.dataSize now)
    let s' := exec (step cfg) s (.begin now :: List.replicate ((cycleOps cfg now).length + 2) .tick)
    s'.mem.arena = arenaAfter s.mem.arena r ∧ some s'.mem.domain = r.domainData ∧ s'.pc = .idle ∧
      s'.hist = s.hist ++ [s'.mem.arena.data s'.active] ∧
      s'.readers = s.readers ∧ s'.writers = s.writers := by
  intro r s'
  obtain ⟨hd, ha⟩ := arenaAfter_cycle cfg s.mem.arena s.mem.domain now
  have hs' : s' = _ := exec_cycle cfg s now h
  rw [foldl_cycleOps] at hs'
  rw [hs', ha, hd]
  refine ⟨rfl, rfl, rfl, ?_, rfl, rfl⟩
  simp [publish, setVersion, setActive, State.active]

/-! ## Calls nobody interrupts -/

@[simp] theorem setReader_readers (s : State) (r : Nat) (pc : ReaderPc) : (setReader s r pc).readers r = pc :=
  Function.update_self ..

@[simp] theorem setReader_setReader (s : State) (r : Nat) (pc pc' : ReaderPc) :
    setReader (setReader s r pc) r pc' = setReader s r pc' := by
  simp [setReader]

@[simp] theorem setWriter_writers (s : State) (w : Nat) (pc : WriterPc) : (setWriter s w pc).writers w = pc :=
  Function.update_self ..

@[simp] theorem setWriter_setWriter (s : State) (w : Nat) (pc pc' : WriterPc) :
    setWriter (setWriter s w pc) w pc' = setWriter s w pc' := by
  simp [setWriter]

/-- The bytes of a read, one load each. -/
theorem exec_readSteps (cfg : Config) (s : State) (r off n left : Nat) (v1 : UInt64) (b : Fin 2) (k : Nat) :
    ∀ j m, m + j = n →
      exec (step cfg) (setReader s r (.copying off n left v1 b (slice (s.mem.arena.data b) off m)))
        (List.replicate (j + k) (.readStep r)) =
      exec (step cfg) (setReader s r (.copying off n left v1 b (slice (s.mem.arena.data b) off n)))
        (List.replicate k (.readStep r))
  | 0, m, h => by
    obtain rfl : m = n := h
    rw [Nat.zero_add]
  | j + 1, m, h => by
    have hlt : m < n := by omega
    have hj : j + 1 + k = (j + k) + 1 := by omega
    rw [hj, List.replicate_succ, exec_cons, ← exec_readSteps cfg s r off n left v1 b k j (m + 1) (by omega)]
    congr 1
    simp only [step, setReader_readers, readerStep, slice_length, if_pos hlt, setReader_setReader]
    rw [slice_succ]
    rfl

/-- **Refinement.** A read that nobody interrupts returns the bytes of the
active buffer, as one attempt of `nekoecat_client_read_raw_at` does. -/
theorem read_refines (cfg : Config) (s : State) (r off n : Nat) (hf : (s.readers r).free = true)
    (hb : s.mem.arena.hdr.activeBuffer.toNat ≤ 1) (hn : off + n ≤ cfg.dataSize) :
    exec (step cfg) s (.readCall r off n :: List.replicate (n + 3) (.readStep r)) =
      setReader s r (.done off n (some (s.mem.arena.hdr.version, slice (s.mem.arena.data s.active) off n))) := by
  have hcall : step cfg s (.readCall r off n) = setReader s r (.start off n 4) := by
    simp only [step, hf, if_true, if_pos hn]
  have h1 : step cfg (setReader s r (.start off n 4)) (.readStep r) =
      setReader s r (.gotVersion off n 3 s.mem.arena.hdr.version) := by
    simp only [step, setReader_readers, readerStep, setReader_setReader]
    rfl
  have h2 : step cfg (setReader s r (.gotVersion off n 3 s.mem.arena.hdr.version)) (.readStep r) =
      setReader s r (.copying off n 3 s.mem.arena.hdr.version s.active (slice (s.mem.arena.data s.active) off 0)) := by
    have hb' : ¬ (setReader s r (.gotVersion off n 3 s.mem.arena.hdr.version)).mem.arena.hdr.activeBuffer.toNat > 1 :=
      Nat.not_lt.2 hb
    simp only [step, setReader_readers, readerStep, if_neg hb', setReader_setReader]
    rfl
  have h3 : step cfg (setReader s r (.copying off n 3 s.mem.arena.hdr.version s.active
      (slice (s.mem.arena.data s.active) off n))) (.readStep r) =
      setReader s r (.done off n (some (s.mem.arena.hdr.version, slice (s.mem.arena.data s.active) off n))) := by
    have hlt : ¬ n < n := Nat.lt_irrefl n
    simp only [step, setReader_readers, readerStep, slice_length, if_neg hlt, setReader_setReader]
    exact congrArg (setReader s r) (if_pos rfl)
  rw [exec_cons, hcall, List.replicate_succ, exec_cons, h1, List.replicate_succ, exec_cons, h2,
    exec_readSteps cfg s r off n 3 _ _ 1 n 0 (Nat.zero_add n), List.replicate_one, exec_cons, h3]
  rfl

/-- The bytes of a write, one store each. -/
theorem exec_writeSteps (cfg : Config) (s : State) (w off : Nat) (b : Fin 2) (buf : Bytes) (k : Nat) :
    ∀ j m, m + j = buf.length →
      exec (step cfg) (setWriter { s with mem := ⟨setBuf s.mem.arena b (memcpy (s.mem.arena.data b) off buf 0 m),
        s.mem.domain⟩ } w (.copying b off buf m)) (List.replicate (j + k) (.writeStep w)) =
      exec (step cfg) (setWriter { s with mem := ⟨setBuf s.mem.arena b (memcpy (s.mem.arena.data b) off buf 0
        buf.length), s.mem.domain⟩ } w (.copying b off buf buf.length)) (List.replicate k (.writeStep w))
  | 0, m, h => by
    obtain rfl : m = buf.length := h
    rw [Nat.zero_add]
  | j + 1, m, h => by
    have hlt : m < buf.length := by omega
    have hj : j + 1 + k = (j + k) + 1 := by omega
    rw [hj, List.replicate_succ, exec_cons, ← exec_writeSteps cfg s w off b buf k j (m + 1) (by omega)]
    congr 1
    simp only [step, writerStep, setWriter_writers, if_pos hlt]
    simp [setWriter, setByte, memcpy]

/-- **Refinement.** A write that nobody interrupts is the `memcpy` of
`nekoecat_client_write_raw_at` into the active buffer. -/
theorem write_refines (cfg : Config) (s : State) (w off : Nat) (buf : Bytes) (hf : (s.writers w).free = true)
    (hb : s.mem.arena.hdr.activeBuffer.toNat ≤ 1) (hn : off + buf.length ≤ cfg.dataSize) :
    exec (step cfg) s (.writeCall w off buf :: List.replicate (buf.length + 2) (.writeStep w)) =
      setWriter { s with mem := ⟨setBuf s.mem.arena s.active (memcpy (s.mem.arena.data s.active) off buf 0
        buf.length), s.mem.domain⟩ } w (.done true) := by
  have hcall : step cfg s (.writeCall w off buf) = setWriter s w (.called off buf) := by
    simp only [step, hf, if_true, if_pos hn]
  have h1 : step cfg (setWriter s w (.called off buf)) (.writeStep w) =
      setWriter { s with mem := ⟨setBuf s.mem.arena s.active (memcpy (s.mem.arena.data s.active) off buf 0 0),
        s.mem.domain⟩ } w (.copying s.active off buf 0) := by
    have hb' : ¬ (setWriter s w (.called off buf)).mem.arena.hdr.activeBuffer.toNat > 1 := Nat.not_lt.2 hb
    simp only [step, writerStep, setWriter_writers, if_neg hb', setWriter_setWriter]
    simp [setWriter, memcpy, setBuf, State.active]
  have h2 : ∀ s' : State, step cfg (setWriter s' w (.copying s.active off buf buf.length)) (.writeStep w) =
      setWriter s' w (.done true) := by
    intro s'
    have hlt : ¬ buf.length < buf.length := Nat.lt_irrefl _
    simp only [step, writerStep, setWriter_writers, if_neg hlt, setWriter_setWriter]
  rw [exec_cons, hcall, List.replicate_succ, exec_cons, h1,
    exec_writeSteps cfg s w off s.active buf 1 buf.length 0 (Nat.zero_add _), List.replicate_one, exec_cons, h2]
  rfl

end NekoEcat.L3.DataPlane
