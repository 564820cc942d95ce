import NekoEcat.L2Daemon.Mirror

/-!
# The Free Run controller's shared memory

`apps/ecatd/FreeRunController.cpp`: the mirror layout built from the runtime
entries, the arena size `start` chooses, `initSharedMemory` on an object that
may hold anything, and the per-cycle `mirrorToShm` of the controller.

A mapping is its header and its two data buffers (`Arena`) with the stride
they were laid out with. `initSharedMemory` works on the bytes of the POSIX
object as the previous owner left them; an object that did not exist is `[]`.

* `cycle_bytes`: what a cycle of a running controller leaves in every byte.
* `initSharedMemory_running`: a fresh mapping runs, and its active buffer
  holds the bytes the object held before.
* `restart_isolation_iff`: exactly when two prior contents of the object give
  the same outputs after the first cycle.
-/
namespace NekoEcat.L2.FreeRun
open NekoEcat.Bytes NekoEcat.L1.Shm NekoEcat.L2.Mirror

/-- Per-entry metadata; `offset` and `bitPosition` point to what the domain
registration wrote.
mirrors apps/ecatd/FreeRunController.h:95-106 -/
structure RuntimeEntry where
  slavePosition : UInt16
  syncIndex : UInt8
  direction : String
  pdoIndex : UInt16
  index : UInt16
  subindex : UInt8
  bitLength : UInt8
  name : String
  offset : Option UInt32
  bitPosition : Option UInt32
  deriving DecidableEq, Repr

/-- `strncpy(me.direction, .., sizeof(me.direction) - 1)` into a zeroed field;
a direction is ASCII, so a character is a byte. -/
def directionField (direction : String) : String := String.ofList (direction.toList.take 7)

def mirrorEntry (e : RuntimeEntry) : ShmMirrorEntry where
  slave := e.slavePosition
  index := e.index
  sub := e.subindex
  bitLength := e.bitLength
  direction := directionField e.direction
  offset := e.offset.getD 0

/-- mirrors apps/ecatd/FreeRunController.cpp:330-343 -/
def buildMirrorEntries (runtimeEntries : List RuntimeEntry) : List ShmMirrorEntry :=
  runtimeEntries.map mirrorEntry

/-- The arena size chosen by `start`.
mirrors apps/ecatd/FreeRunController.cpp:222-227 -/
def arenaSize (mirrorEntries : List ShmMirrorEntry) : Nat :=
  let computedSize := computeProcessDataSize mirrorEntries
  let computedSize := if computedSize = 0 then 1 else computedSize
  if computedSize > maxProcessDataSize then maxProcessDataSize else computedSize

/-- What the controller keeps of its mapping: `shm_header_` and `shm_data_`,
`shm_stride_`, `shm_size_`. -/
structure SharedMemory where
  arena : Arena
  stride : Nat
  size : Nat

/-- Which system calls succeed. -/
structure ShmSys where
  shmOpen : Bool
  ftruncate : Bool
  mmap : Bool

def kShmName : String := "/nekoecat_proc_0"

/-- `ftruncate(fd, n)`: the object is cut or extended with zero bytes. -/
def truncate (object : Bytes) (n : Nat) : Bytes := (object ++ List.replicate n 0).take n

/-- mirrors apps/ecatd/FreeRunController.cpp:254-312 -/
def initSharedMemory (sys : ShmSys) (object : Bytes) (dataSize : UInt32) :
    Except String SharedMemory :=
  if !sys.shmOpen then .error ("Failed to open shared memory " ++ kShmName)
  else
    let bufferSize := if dataSize > 0 then dataSize.toNat else maxProcessDataSize
    let shmSize := headerSize + 2 * bufferSize
    if !sys.ftruncate then .error "Failed to size shared memory"
    else
      let object := truncate object shmSize
      if !sys.mmap then .error "Failed to mmap shared memory"
      else
        .ok {
          arena := {
            hdr := {
              version := 0
              cycleCount := 0
              timestampNs := 0
              activeBuffer := 0
              dataSize := UInt32.ofNat bufferSize
              layoutVersion := layoutVersion
              statusFlags := 0
              ignoredWrites := 0 }
            data := fun b => (object.drop (headerSize + b.val * bufferSize)).take bufferSize }
          stride := bufferSize
          size := shmSize }

/-- The controller's fields the mirror works on (`none`: null pointer). -/
structure FreeRunController where
  shm : Option SharedMemory
  domainData : Option Bytes
  mirrorEntries : List ShmMirrorEntry

/-- The arena after the pointees of a context were updated. -/
def arenaAfter (a : Arena) (ctx : ShmMirrorContext) : Arena where
  hdr := {
    a.hdr with
    version := ctx.version.getD a.hdr.version
    cycleCount := ctx.cycleCount.getD a.hdr.cycleCount
    timestampNs := ctx.timestampNsField.getD a.hdr.timestampNs
    activeBuffer := ctx.activeBuffer
    statusFlags := ctx.statusFlags.getD a.hdr.statusFlags
    ignoredWrites := ctx.ignoredWrites.getD a.hdr.ignoredWrites }
  data b := (ctx.shmData b).getD (a.data b)

/-- The context of one cycle, every pointer into the arena.
mirrors apps/ecatd/FreeRunController.cpp:364-378 -/
def cycleContext (a : Arena) (domain : Bytes) (entries : List ShmMirrorEntry) (dataSize : Nat)
    (now : UInt64) : ShmMirrorContext where
  domainData := some domain
  shmData b := some (a.data b)
  entries := entries
  dataSize := dataSize
  timestampNs := now
  activeBuffer := a.hdr.activeBuffer
  version := some a.hdr.version
  cycleCount := some a.hdr.cycleCount
  timestampNsField := some a.hdr.timestampNs
  statusFlags := some a.hdr.statusFlags
  ignoredWrites := some a.hdr.ignoredWrites

/-- mirrors apps/ecatd/FreeRunController.cpp:345-379 -/
def FreeRunController.mirrorToShm (c : FreeRunController) (now : UInt64) : FreeRunController :=
  match c.shm, c.domainData with
  | some m, some domain =>
    if c.mirrorEntries.isEmpty then c
    else
      let stride := if m.stride > 0 then m.stride else maxProcessDataSize
      let hdrSize := m.arena.hdr.dataSize.toNat
      let dataSize := if hdrSize = 0 ∨ hdrSize > stride then stride else hdrSize
      let r := Mirror.mirrorToShm (cycleContext m.arena domain c.mirrorEntries dataSize now)
      { c with shm := some { m with arena := arenaAfter m.arena r }, domainData := r.domainData }
  | _, _ => c

/-! ## A cycle of a running controller -/

/-- A controller with a mapping of two buffers of `n` bytes, in step with the
header, and a domain of at least `n` bytes. -/
structure Running (c : FreeRunController) (m : SharedMemory) (domain : Bytes) (n : Nat) : Prop where
  shm : c.shm = some m
  dom : c.domainData = some domain
  pos : 1 ≤ n
  le : n ≤ maxProcessDataSize
  stride : m.stride = n
  hdrSize : m.arena.hdr.dataSize.toNat = n
  data_length : ∀ b, (m.arena.data b).length = n
  dom_length : n ≤ domain.length

/-- The buffer the header names. -/
def SharedMemory.activeData (m : SharedMemory) : Bytes :=
  m.arena.data (activeIndex m.arena.hdr.activeBuffer)

/-- The guards of the controller's cycle all pass. -/
theorem mirrorToShm_running {c : FreeRunController} {m : SharedMemory} {domain : Bytes} {n : Nat}
    (h : Running c m domain n) (he : c.mirrorEntries ≠ []) (now : UInt64) :
    let r := Mirror.mirrorToShm (cycleContext m.arena domain c.mirrorEntries n now)
    c.mirrorToShm now =
      { c with shm := some { m with arena := arenaAfter m.arena r }, domainData := r.domainData } := by
  have hi : c.mirrorEntries.isEmpty = false := by simpa using he
  have hstride : (if n > 0 then n else maxProcessDataSize) = n := if_pos h.pos
  have hsize : (if n = 0 ∨ n > n then n else n) = n := by split <;> rfl
  unfold FreeRunController.mirrorToShm
  simp only [h.shm, h.dom, hi, h.stride, hstride, h.hdrSize, hsize, Bool.false_eq_true, if_false]

/-- **A cycle of a running controller**: the controller keeps running, the
other buffer is active, and the domain and the active buffer hold, inside the
data area, the old active byte where an output covers it and the old domain
byte elsewhere. -/
theorem cycle_bytes {c : FreeRunController} {m : SharedMemory} {domain : Bytes} {n : Nat}
    (h : Running c m domain n) (he : c.mirrorEntries ≠ []) (now : UInt64) :
    ∃ m' domain', Running (c.mirrorToShm now) m' domain' n ∧
      (c.mirrorToShm now).mirrorEntries = c.mirrorEntries ∧
      domain'.length = domain.length ∧
      activeIndex m'.arena.hdr.activeBuffer = other (activeIndex m.arena.hdr.activeBuffer) ∧
      (∀ i, i < n → rd domain' i =
          (if covered n c.mirrorEntries i then rd m.activeData i else rd domain i) ∧
        rd m'.activeData i =
          if covered n c.mirrorEntries i then rd m.activeData i else rd domain i) ∧
      ∀ i, n ≤ i → rd domain' i = rd domain i := by
  obtain ⟨d', i', h1, h2, h3, h4, h5, h6, h7, -, h8, -, -⟩ := mirrorToShm_cycle
    (cycleContext m.arena domain c.mirrorEntries n now) domain m.arena.data _ _ _
    rfl (fun _ => rfl) rfl rfl rfl h.pos h.le h.dom_length
    (fun b => Nat.le_of_eq (h.data_length b).symm)
  have hc := mirrorToShm_running h he now
  generalize Mirror.mirrorToShm (cycleContext m.arena domain c.mirrorEntries n now) = r at *
  have hdata : ∀ b, (arenaAfter m.arena r).data b =
      if b = other (activeIndex m.arena.hdr.activeBuffer) then i' else m.arena.data b := by
    intro b
    by_cases hb : b = other (activeIndex m.arena.hdr.activeBuffer)
    · subst hb
      rw [if_pos rfl]
      exact congrArg (fun x : Option Bytes => x.getD _) h2
    · have hb' : b = activeIndex m.arena.hdr.activeBuffer := by
        have := eq_other_of_ne hb; rwa [other_other] at this
      subst hb'
      rw [if_neg hb]
      exact congrArg (fun x : Option Bytes => x.getD _) h3
  have hact : activeIndex (arenaAfter m.arena r).hdr.activeBuffer =
      other (activeIndex m.arena.hdr.activeBuffer) := by
    simp only [arenaAfter, h8, activeIndex_bufferWord]; rfl
  refine ⟨{ m with arena := arenaAfter m.arena r }, d',
    ⟨by rw [hc], by rw [hc]; exact h1, h.pos, h.le, h.stride, h.hdrSize, ?_,
      by rw [h4]; exact h.dom_length⟩,
    by rw [hc], h4, hact, fun i hlt => ⟨(h6 i hlt).1, ?_⟩, fun i hge => (h7 i hge).1⟩
  · intro b
    rw [hdata b]
    split
    · rw [h5]; exact h.data_length _
    · exact h.data_length b
  · simp only [SharedMemory.activeData, hact, hdata, if_true]
    exact (h6 i hlt).2

/-! ## The first cycle after a start -/

/-- `start` from the arena size on, up to and including the first cycle of the
loop: the object's prior contents, the registered entries and the domain give
the controller after one `mirrorToShm`.
mirrors apps/ecatd/FreeRunController.cpp:221-232 -/
def firstCycle (sys : ShmSys) (object : Bytes) (runtimeEntries : List RuntimeEntry)
    (domain : Bytes) (now : UInt64) : Except String FreeRunController := do
  let mirrorEntries := buildMirrorEntries runtimeEntries
  let m ← initSharedMemory sys object (UInt32.ofNat (arenaSize mirrorEntries))
  return FreeRunController.mirrorToShm ⟨some m, some domain, mirrorEntries⟩ now

/-- The outputs of a controller: the domain bytes, which the next send puts on
the bus, and the bytes of the active buffer. -/
def outputs : Except String FreeRunController → Option (Bytes × Bytes)
  | .ok c => match c.shm, c.domainData with
    | some m, some domain => some (domain, m.activeData)
    | _, _ => none
  | .error _ => none

theorem arenaSize_pos (es : List ShmMirrorEntry) : 1 ≤ arenaSize es := by
  unfold arenaSize maxProcessDataSize
  simp only; split <;> split <;> omega

theorem arenaSize_le (es : List ShmMirrorEntry) : arenaSize es ≤ maxProcessDataSize := by
  unfold arenaSize
  dsimp only
  generalize (if computeProcessDataSize es = 0 then 1 else computeProcessDataSize es) = k
  split <;> omega

theorem rd_truncate (object : Bytes) {n i : Nat} (h : i < n) : rd (truncate object n) i = rd object i := by
  rw [truncate, rd_take h]
  simp only [rd, List.getD_eq_getElem?_getD, List.getElem?_append]
  split
  · rfl
  · rename_i hi
    rw [List.getElem?_eq_none (Nat.le_of_not_lt hi), List.getElem?_replicate]
    split <;> rfl

@[simp] theorem truncate_length (object : Bytes) (n : Nat) : (truncate object n).length = n := by
  simp [truncate]

/-- The mapping is made exactly when the three calls succeed, whatever the
object holds. -/
theorem initSharedMemory_cases (sys : ShmSys) (dataSize : UInt32) :
    ((sys.shmOpen && sys.ftruncate && sys.mmap) = true ∧
      ∀ object, ∃ m, initSharedMemory sys object dataSize = .ok m) ∨
    ((sys.shmOpen && sys.ftruncate && sys.mmap) = false ∧
      ∃ e, ∀ object, initSharedMemory sys object dataSize = .error e) := by
  obtain ⟨o, f, p⟩ := sys
  cases o
  · exact .inr ⟨rfl, _, fun _ => rfl⟩
  cases f
  · exact .inr ⟨rfl, _, fun _ => rfl⟩
  cases p
  · exact .inr ⟨rfl, _, fun _ => rfl⟩
  · exact .inl ⟨rfl, fun _ => ⟨_, rfl⟩⟩

/-- **A fresh mapping** is laid out for `n` bytes and names buffer 0, whose
bytes are those the object held before: only the header is written. -/
theorem initSharedMemory_running {sys : ShmSys} {object domain : Bytes} {m : SharedMemory} {n : Nat}
    (es : List ShmMirrorEntry) (hpos : 1 ≤ n) (hle : n ≤ maxProcessDataSize)
    (hd : n ≤ domain.length) (h : initSharedMemory sys object (UInt32.ofNat n) = .ok m) :
    Running ⟨some m, some domain, es⟩ m domain n ∧ m.activeData.length = n ∧
      ∀ i, i < n → rd m.activeData i = rd object (headerSize + i) := by
  have hn : (UInt32.ofNat n).toNat = n := by
    rw [UInt32.toNat_ofNat']; unfold maxProcessDataSize at hle; omega
  have hbuf : (if UInt32.ofNat n > 0 then (UInt32.ofNat n).toNat else maxProcessDataSize) = n := by
    rw [if_pos (by rw [GT.gt, UInt32.lt_iff_toNat_lt, hn]; exact hpos), hn]
  unfold initSharedMemory at h
  simp only [hbuf] at h
  split at h
  · cases h
  split at h
  · cases h
  split at h
  · cases h
  cases h
  have hlen : ∀ b : Fin 2, (((truncate object (headerSize + 2 * n)).drop
      (headerSize + b.val * n)).take n).length = n := by
    intro b
    have : b.val * n ≤ n := by
      have := Nat.mul_le_mul_right n (Nat.le_of_lt_succ b.isLt); omega
    simp only [List.length_take, List.length_drop, truncate_length]; omega
  refine ⟨⟨rfl, rfl, hpos, hle, rfl, hn, hlen, hd⟩, hlen _, ?_⟩
  intro i hi
  show rd (((truncate object (headerSize + 2 * n)).drop (headerSize + 0 * n)).take n) i = _
  rw [rd_take hi, rd_drop, rd_truncate _ (by omega)]
  simp only [Nat.zero_mul, Nat.add_zero]

/-- The outputs of a first cycle, byte by byte. -/
theorem outputs_firstCycle {sys : ShmSys} {object domain : Bytes} {m : SharedMemory}
    {rs : List RuntimeEntry} (now : UInt64)
    (hd : arenaSize (buildMirrorEntries rs) ≤ domain.length)
    (h : initSharedMemory sys object (UInt32.ofNat (arenaSize (buildMirrorEntries rs))) = .ok m) :
    let n := arenaSize (buildMirrorEntries rs)
    ∃ domain' active', outputs (firstCycle sys object rs domain now) = some (domain', active') ∧
      domain'.length = domain.length ∧ active'.length = n ∧
      (∀ i, i < n → rd domain' i = (if covered n (buildMirrorEntries rs) i
          then rd object (headerSize + i) else rd domain i) ∧
        rd active' i = if rs = [] ∨ covered n (buildMirrorEntries rs) i
          then rd object (headerSize + i) else rd domain i) ∧
      ∀ i, n ≤ i → rd domain' i = rd domain i := by
  intro n
  obtain ⟨hr, hl, hb⟩ := initSharedMemory_running (buildMirrorEntries rs)
    (arenaSize_pos _) (arenaSize_le _) hd h
  by_cases he : rs = []
  · -- no entries: the mirror never runs
    subst he
    refine ⟨domain, m.activeData, ?_, rfl, hl, fun i hi => ⟨?_, ?_⟩, fun _ _ => rfl⟩
    · simp only [firstCycle, h]; rfl
    · rw [if_neg (by simp [covered, buildMirrorEntries])]
    · rw [if_pos (.inl rfl), hb i hi]
  · have he' : buildMirrorEntries rs ≠ [] := by simpa [buildMirrorEntries] using he
    obtain ⟨m', d', hr', -, hdl, -, h1, h2⟩ := cycle_bytes hr he' now
    refine ⟨d', m'.activeData, ?_, hdl, hr'.data_length _, ?_, h2⟩
    · simp only [firstCycle, h, bind, Except.bind, pure, Except.pure, outputs, hr'.shm, hr'.dom]
    · intro i hi
      have := h1 i hi
      rw [hb i hi] at this
      simpa only [he, false_or] using this

/-- **Restart isolation, exactly.** Two prior contents of the object give the
same domain bytes and the same active buffer after the first cycle if and only
if no mapping is made, or the contents agree behind the header at every byte
of the data area that an output covers (at every byte of it when the layout is
empty). -/
theorem restart_isolation_iff (sys : ShmSys) (object₁ object₂ domain : Bytes)
    (rs : List RuntimeEntry) (now₁ now₂ : UInt64)
    (hd : arenaSize (buildMirrorEntries rs) ≤ domain.length) :
    outputs (firstCycle sys object₁ rs domain now₁) =
        outputs (firstCycle sys object₂ rs domain now₂) ↔
      (sys.shmOpen && sys.ftruncate && sys.mmap) = false ∨
      ∀ i, i < arenaSize (buildMirrorEntries rs) →
        (rs = [] ∨ covered (arenaSize (buildMirrorEntries rs)) (buildMirrorEntries rs) i) →
        rd object₁ (headerSize + i) = rd object₂ (headerSize + i) := by
  rcases initSharedMemory_cases sys (UInt32.ofNat (arenaSize (buildMirrorEntries rs))) with
    ⟨hs, h⟩ | ⟨hs, e, h⟩
  · obtain ⟨m₁, h₁⟩ := h object₁
    obtain ⟨m₂, h₂⟩ := h object₂
    obtain ⟨d₁, a₁, e₁, hd₁, ha₁, hb₁, hf₁⟩ := outputs_firstCycle now₁ hd h₁
    obtain ⟨d₂, a₂, e₂, hd₂, ha₂, hb₂, hf₂⟩ := outputs_firstCycle now₂ hd h₂
    rw [e₁, e₂, hs, Option.some.injEq, Prod.mk.injEq]
    constructor
    · rintro ⟨_, hact⟩
      right
      intro i hi hc
      -- the active buffers show the prior bytes of every covered position
      have := congrArg (rd · i) hact
      simpa only [(hb₁ i hi).2, (hb₂ i hi).2, if_pos hc] using this
    · intro hor
      have hag := hor.resolve_left (by decide)
      refine ⟨bytes_ext (hd₁.trans hd₂.symm) ?_, bytes_ext (ha₁.trans ha₂.symm) ?_⟩
      · intro i _
        by_cases hi : i < arenaSize (buildMirrorEntries rs)
        · rw [(hb₁ i hi).1, (hb₂ i hi).1]
          split
          · exact hag i hi (.inr ‹_›)
          · rfl
        · rw [hf₁ i (Nat.le_of_not_lt hi), hf₂ i (Nat.le_of_not_lt hi)]
      · intro i hi
        rw [ha₁] at hi
        rw [(hb₁ i hi).2, (hb₂ i hi).2]
        split
        · exact hag i hi ‹_›
        · rfl
  · simp only [firstCycle, h]
    exact ⟨fun _ => .inl hs, fun _ => rfl⟩

/-- An 8-bit output at offset 0. -/
def byteOutput : RuntimeEntry where
  slavePosition := 0
  syncIndex := 2
  direction := "RxPDO"
  pdoIndex := 0x1600
  index := 0x7000
  subindex := 1
  bitLength := 8
  name := "Output"
  offset := some 0
  bitPosition := some 0

/-- An object left behind by an owner that could not unlink it. -/
def staleObject : Bytes := List.replicate headerSize 0 ++ [7]

theorem restart_isolation_iff_stale :
    outputs (firstCycle ⟨true, true, true⟩ [] [byteOutput] [0] 1) =
        outputs (firstCycle ⟨true, true, true⟩ staleObject [byteOutput] [0] 1) ↔
      (true && true && true) = false ∨
      ∀ i, i < arenaSize (buildMirrorEntries [byteOutput]) →
        ([byteOutput] = [] ∨ covered (arenaSize (buildMirrorEntries [byteOutput]))
          (buildMirrorEntries [byteOutput]) i) →
        rd [] (headerSize + i) = rd staleObject (headerSize + i) :=
  restart_isolation_iff ⟨true, true, true⟩ [] staleObject [0] [byteOutput] 1 1 (by decide)

/-- **The stale output reaches the bus**: with a fresh object the first cycle
sends 0, with the object of a killed owner it sends the old 7. -/
theorem stale_output_driven :
    outputs (firstCycle ⟨true, true, true⟩ [] [byteOutput] [0] 1) = some ([0], [0]) ∧
    outputs (firstCycle ⟨true, true, true⟩ staleObject [byteOutput] [0] 1) = some ([7], [7]) := by
  decide

end NekoEcat.L2.FreeRun
