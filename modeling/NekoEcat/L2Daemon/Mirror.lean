import Mathlib.Logic.Function.Basic
import NekoEcat.L1Abi.Shm

/-!
# One mirror cycle (`mirrorToShm`)

`apps/ecatd/freerun_shm_mirror.cpp`. A cycle copies the domain into the
inactive buffer, overlays the accepted client outputs (RxPDO entries) from the
active buffer into the inactive buffer and into the domain, and publishes.

The context's pointers are `Option`s of what they point to (`none`:
`nullptr`); the pointees are distinct objects, so the cycle is a function from
the context to the context with the new pointees.

* `overlay_spec`: the overlay loop, byte by byte, for any entry list.
* `mirrorToShm_eq`, `cycleOverlay_bytes`: the cycle in closed form and what its
  overlay makes of every byte.
* `mirrorToShm_cycle`: the whole specification of a cycle with its frame.
-/
namespace NekoEcat.L2.Mirror
open NekoEcat.Bytes NekoEcat.L1.Shm

/-- mirrors apps/ecatd/freerun_shm_mirror.cpp:4-15 -/
def computeProcessDataSize (entries : List ShmMirrorEntry) : Nat :=
  entries.foldl (fun maxEnd e => max maxEnd (e.offset.toNat + byteLength e.bitLength)) 0

/-- mirrors src/core/nekoecat_shm.h:87-101 -/
structure ShmMirrorContext where
  domainData : Option Bytes
  shmData : Fin 2 → Option Bytes
  entries : List ShmMirrorEntry
  dataSize : Nat
  timestampNs : UInt64
  activeBuffer : UInt32
  version : Option UInt64
  cycleCount : Option UInt64
  timestampNsField : Option UInt64
  statusFlags : Option UInt32
  ignoredWrites : Option UInt32

/-- `strcmp(e.direction, "RxPDO") == 0` with a non-zero length: the entries
the overlay looks at. -/
def isOutput (e : ShmMirrorEntry) : Bool := e.direction == "RxPDO" && byteLength e.bitLength != 0

/-- The overlay's bounds check. -/
def fits (dataSize : Nat) (e : ShmMirrorEntry) : Bool :=
  !(decide (e.offset.toNat > dataSize) || decide (byteLength e.bitLength > dataSize - e.offset.toNat))

/-- The loop's variables: the inactive buffer, the domain and `ignored`. -/
structure Overlay where
  inactive : Bytes
  domain : Bytes
  ignored : UInt32

/-- One iteration of the overlay loop.
mirrors apps/ecatd/freerun_shm_mirror.cpp:44-58 -/
def overlayEntry (dataSize : Nat) (active : Bytes) (o : Overlay) (e : ShmMirrorEntry) : Overlay :=
  if e.direction ≠ "RxPDO" then o
  else
    let bl := byteLength e.bitLength
    if bl = 0 then o
    else if e.offset.toNat > dataSize ∨ bl > dataSize - e.offset.toNat then
      { o with ignored := o.ignored + 1 }
    else
      { o with inactive := memcpy o.inactive e.offset.toNat active e.offset.toNat bl,
               domain := memcpy o.domain e.offset.toNat active e.offset.toNat bl }

/-- mirrors apps/ecatd/freerun_shm_mirror.cpp:17-82 -/
def mirrorToShm (ctx : ShmMirrorContext) : ShmMirrorContext :=
  match ctx.domainData, ctx.shmData 0, ctx.shmData 1 with
  | some domain, some d0, some d1 =>
    let dataSize := if ctx.dataSize > maxProcessDataSize then maxProcessDataSize else ctx.dataSize
    if dataSize = 0 then ctx
    else
      let active := activeIndex ctx.activeBuffer
      let inactive := other active
      let data : Fin 2 → Bytes := fun b => if b = 0 then d0 else d1
      let start : Overlay := ⟨memcpy (data inactive) 0 domain 0 dataSize, domain, 0⟩
      let o := ctx.entries.foldl (overlayEntry dataSize (data active)) start
      { ctx with
        domainData := some o.domain
        shmData := Function.update ctx.shmData inactive (some o.inactive)
        ignoredWrites := if o.ignored > 0 then ctx.ignoredWrites.map (· + o.ignored)
          else ctx.ignoredWrites
        timestampNsField := ctx.timestampNsField.map fun _ => ctx.timestampNs
        statusFlags := ctx.statusFlags.map (· ||| flagRunning)
        cycleCount := ctx.cycleCount.map (· + 1)
        activeBuffer := bufferWord inactive
        version := ctx.version.map (· + 1) }
  | _, _, _ => ctx

/-! ## The overlay loop -/

/-- Byte `i` lies in the range of an output entry whose range fits in
`dataSize`. -/
def covers (dataSize : Nat) (e : ShmMirrorEntry) (i : Nat) : Prop :=
  isOutput e = true ∧ e.offset.toNat + byteLength e.bitLength ≤ dataSize ∧
    e.offset.toNat ≤ i ∧ i < e.offset.toNat + byteLength e.bitLength

def covered (dataSize : Nat) (es : List ShmMirrorEntry) (i : Nat) : Prop :=
  ∃ e ∈ es, covers dataSize e i

instance (n : Nat) (e : ShmMirrorEntry) (i : Nat) : Decidable (covers n e i) := by
  unfold covers; exact inferInstance

instance (n : Nat) (es : List ShmMirrorEntry) (i : Nat) : Decidable (covered n es i) := by
  unfold covered; exact inferInstance

/-- The outputs whose range does not fit in `dataSize`. -/
def rejected (dataSize : Nat) (es : List ShmMirrorEntry) : List ShmMirrorEntry :=
  es.filter fun e => isOutput e && decide (dataSize < e.offset.toNat + byteLength e.bitLength)

/-- The subtraction in the bounds check never hides an overflow. -/
theorem fits_iff {n : Nat} {e : ShmMirrorEntry} :
    fits n e = true ↔ e.offset.toNat + byteLength e.bitLength ≤ n := by
  simp only [fits, Bool.not_eq_true', Bool.or_eq_false_iff, decide_eq_false_iff_not]; omega

theorem isOutput_iff {e : ShmMirrorEntry} :
    isOutput e = true ↔ e.direction = "RxPDO" ∧ byteLength e.bitLength ≠ 0 := by
  simp [isOutput]

theorem covers_lt {n i : Nat} {e : ShmMirrorEntry} (h : covers n e i) : i < n := by
  obtain ⟨-, hf, -, hi⟩ := h
  omega

theorem covered_lt {n i : Nat} {es : List ShmMirrorEntry} (h : covered n es i) : i < n := by
  obtain ⟨e, -, h⟩ := h
  exact covers_lt h

theorem covered_cons {n i : Nat} {e : ShmMirrorEntry} {es : List ShmMirrorEntry} :
    covered n (e :: es) i ↔ covers n e i ∨ covered n es i := by
  simp [covered]

/-- What one iteration does, by the three cases of the loop body. -/
theorem overlayEntry_cases (n : Nat) (active : Bytes) (o : Overlay) (e : ShmMirrorEntry) :
    (isOutput e = false ∧ overlayEntry n active o e = o) ∨
    (isOutput e = true ∧ fits n e = false ∧
      overlayEntry n active o e = { o with ignored := o.ignored + 1 }) ∨
    (isOutput e = true ∧ fits n e = true ∧ overlayEntry n active o e =
      { o with inactive := memcpy o.inactive e.offset.toNat active e.offset.toNat (byteLength e.bitLength),
               domain := memcpy o.domain e.offset.toNat active e.offset.toNat (byteLength e.bitLength) }) := by
  unfold overlayEntry
  by_cases hd : e.direction = "RxPDO"
  · by_cases hb : byteLength e.bitLength = 0
    · left; simp [isOutput, hd, hb]
    · right
      by_cases hf : fits n e = true
      · right
        have h' := fits_iff.1 hf
        refine ⟨isOutput_iff.2 ⟨hd, hb⟩, hf, ?_⟩
        simp only [hd, ne_eq, not_true_eq_false, if_false, hb]
        rw [if_neg (by omega)]
      · left
        have h' := mt fits_iff.2 hf
        refine ⟨isOutput_iff.2 ⟨hd, hb⟩, by simpa using hf, ?_⟩
        simp only [hd, ne_eq, not_true_eq_false, if_false, hb]
        rw [if_pos (by omega)]
  · left; simp [isOutput, hd]

/-- An accepted copy, byte by byte. -/
theorem rd_overlayCopy {n i : Nat} {active dst : Bytes} {e : ShmMirrorEntry}
    (ho : isOutput e = true) (hf : fits n e = true) (hl : n ≤ dst.length) :
    rd (memcpy dst e.offset.toNat active e.offset.toNat (byteLength e.bitLength)) i =
      if covers n e i then rd active i else rd dst i := by
  have hb := fits_iff.1 hf
  by_cases hc : covers n e i
  · obtain ⟨-, -, h1, h2⟩ := id hc
    rw [if_pos hc, rd_memcpy_in h1 h2 (by omega)]
    congr 1; omega
  · rw [if_neg hc, rd_memcpy_out]
    have : ¬ (e.offset.toNat ≤ i ∧ i < e.offset.toNat + byteLength e.bitLength) :=
      fun h => hc ⟨ho, hb, h.1, h.2⟩
    omega

/-- **The overlay loop**, for any entry list: both destinations keep their
length, a covered byte of either becomes the active buffer's byte, every other
byte stays, and `ignored` counts the rejected outputs. -/
theorem overlay_spec (n : Nat) (active : Bytes) : ∀ (es : List ShmMirrorEntry) (o : Overlay),
    let r := es.foldl (overlayEntry n active) o
    r.inactive.length = o.inactive.length ∧ r.domain.length = o.domain.length ∧
    r.ignored = o.ignored + UInt32.ofNat (rejected n es).length ∧
    (∀ i, n ≤ o.inactive.length →
      rd r.inactive i = if covered n es i then rd active i else rd o.inactive i) ∧
    (∀ i, n ≤ o.domain.length →
      rd r.domain i = if covered n es i then rd active i else rd o.domain i)
  | [], o => by simp [rejected, covered]
  | e :: es, o => by
    obtain ⟨h1, h2, h3, h4, h5⟩ := overlay_spec n active es (overlayEntry n active o e)
    simp only [List.foldl_cons]
    rcases overlayEntry_cases n active o e with ⟨ho, he⟩ | ⟨ho, hf, he⟩ | ⟨ho, hf, he⟩
    · -- not an output: the iteration does nothing
      have hc : ∀ i, ¬ covers n e i := fun i h => by rw [h.1] at ho; cases ho
      rw [he] at h1 h2 h3 h4 h5 ⊢
      refine ⟨h1, h2, by rw [h3]; simp [rejected, ho], ?_, ?_⟩
      · intro i hl
        simp only [h4 i hl, covered_cons, hc i, false_or]
      · intro i hl
        simp only [h5 i hl, covered_cons, hc i, false_or]
    · -- out of range: only the counter moves
      have hlt := mt (fits_iff (n := n) (e := e)).2 (by simp [hf])
      have hc : ∀ i, ¬ covers n e i := fun i h => hlt h.2.1
      rw [he] at h1 h2 h3 h4 h5 ⊢
      refine ⟨h1, h2, ?_, ?_, ?_⟩
      · have hr : (rejected n (e :: es)).length = (rejected n es).length + 1 := by
          simp [rejected, ho, Nat.lt_of_not_le hlt]
        rw [h3, hr, UInt32.ofNat_add, UInt32.add_assoc, UInt32.add_comm 1]
        rfl
      · intro i hl
        simp only [h4 i hl, covered_cons, hc i, false_or]
      · intro i hl
        simp only [h5 i hl, covered_cons, hc i, false_or]
    · -- accepted: both destinations take the active bytes of the range
      rw [he] at h1 h2 h3 h4 h5 ⊢
      simp only [memcpy_length] at h1 h2 h4 h5
      have hr : rejected n (e :: es) = rejected n es := by
        simp [rejected, fits_iff.1 hf]
      refine ⟨h1, h2, by rw [h3, hr], ?_, ?_⟩
      · intro i hl
        rw [h4 i hl, rd_overlayCopy ho hf hl]
        by_cases h : covered n es i <;> by_cases h' : covers n e i <;> simp [covered_cons, h, h']
      · intro i hl
        rw [h5 i hl, rd_overlayCopy ho hf hl]
        by_cases h : covered n es i <;> by_cases h' : covers n e i <;> simp [covered_cons, h, h']

/-! ## The cycle -/

/-- The overlay of one cycle over data areas of `n` bytes. -/
def cycleOverlay (n : Nat) (es : List ShmMirrorEntry) (active inactive domain : Bytes) : Overlay :=
  es.foldl (overlayEntry n active) ⟨memcpy inactive 0 domain 0 n, domain, 0⟩

/-- A cycle through non-null pointers, in closed form. -/
theorem mirrorToShm_eq (ctx : ShmMirrorContext) (domain : Bytes) (data : Fin 2 → Bytes)
    (hd : ctx.domainData = some domain) (hs : ∀ b, ctx.shmData b = some (data b))
    (hn : 1 ≤ ctx.dataSize) (hm : ctx.dataSize ≤ maxProcessDataSize) :
    let a := activeIndex ctx.activeBuffer
    let o := cycleOverlay ctx.dataSize ctx.entries (data a) (data (other a)) domain
    mirrorToShm ctx =
      { ctx with
        domainData := some o.domain
        shmData := Function.update ctx.shmData (other a) (some o.inactive)
        ignoredWrites := if o.ignored > 0 then ctx.ignoredWrites.map (· + o.ignored)
          else ctx.ignoredWrites
        timestampNsField := ctx.timestampNsField.map fun _ => ctx.timestampNs
        statusFlags := ctx.statusFlags.map (· ||| flagRunning)
        cycleCount := ctx.cycleCount.map (· + 1)
        activeBuffer := bufferWord (other a)
        version := ctx.version.map (· + 1) } := by
  have hdata : ∀ b : Fin 2, (if b = 0 then data 0 else data 1) = data b
    | 0 => rfl
    | 1 => rfl
  unfold mirrorToShm cycleOverlay
  rw [hd, hs 0, hs 1]
  simp only [if_neg (Nat.not_lt.2 hm), if_neg (Nat.pos_iff_ne_zero.1 hn), hdata]

/-- **What every byte holds after a cycle**: inside the data area the active
buffer's byte where an accepted output covers it and the old domain byte
elsewhere, beyond the data area what it held. -/
theorem cycleOverlay_bytes (n : Nat) (es : List ShmMirrorEntry) (active inactive domain : Bytes)
    (hi : n ≤ inactive.length) (hd : n ≤ domain.length) :
    let o := cycleOverlay n es active inactive domain
    o.inactive.length = inactive.length ∧ o.domain.length = domain.length ∧
    o.ignored = UInt32.ofNat (rejected n es).length ∧
    (∀ i, i < n → rd o.domain i = (if covered n es i then rd active i else rd domain i) ∧
      rd o.inactive i = if covered n es i then rd active i else rd domain i) ∧
    ∀ i, n ≤ i → rd o.domain i = rd domain i ∧ rd o.inactive i = rd inactive i := by
  obtain ⟨h1, h2, h3, h4, h5⟩ :=
    overlay_spec n active es ⟨memcpy inactive 0 domain 0 n, domain, 0⟩
  simp only [memcpy_length] at h1 h4
  unfold cycleOverlay
  refine ⟨h1, h2, by simpa using h3, fun i hlt => ⟨h5 i hd, ?_⟩,
    fun i hge => ⟨?_, ?_⟩⟩
  · have := h4 i hi
    rw [rd_memcpy_in (Nat.zero_le i) (by omega) (by omega)] at this
    simpa using this
  · have hc : ¬ covered n es i := fun h => by have := covered_lt h; omega
    simpa [hc] using h5 i hd
  · have hc : ¬ covered n es i := fun h => by have := covered_lt h; omega
    have := h4 i hi
    rw [if_neg hc, rd_memcpy_out (by omega)] at this
    exact this

theorem ignored_add (ig k : UInt32) :
    (if k > 0 then (some ig).map (· + k) else some ig) = some (ig + k) := by
  split
  · rfl
  · rename_i h
    simp [eq_zero_of_not_pos h]

/-- **Mirror cycle.** For any entry list and any `active_buffer` value: inside
the data area the domain and the inactive buffer hold the active buffer's byte
where an accepted output covers it and the old domain byte elsewhere; the
active buffer and everything beyond the data area are unchanged;
`ignored_writes` grew by the number of rejected outputs; the other buffer is
active and both counters grew by one. -/
theorem mirrorToShm_cycle (ctx : ShmMirrorContext) (domain : Bytes) (data : Fin 2 → Bytes)
    (v cc : UInt64) (ig : UInt32) (hd : ctx.domainData = some domain)
    (hs : ∀ b, ctx.shmData b = some (data b)) (hv : ctx.version = some v)
    (hc : ctx.cycleCount = some cc) (hg : ctx.ignoredWrites = some ig)
    (hn : 1 ≤ ctx.dataSize) (hm : ctx.dataSize ≤ maxProcessDataSize)
    (hdl : ctx.dataSize ≤ domain.length) (hbl : ∀ b, ctx.dataSize ≤ (data b).length) :
    let a := activeIndex ctx.activeBuffer
    ∃ domain' inactive' : Bytes,
      (mirrorToShm ctx).domainData = some domain' ∧
      (mirrorToShm ctx).shmData (other a) = some inactive' ∧
      (mirrorToShm ctx).shmData a = some (data a) ∧
      domain'.length = domain.length ∧ inactive'.length = (data (other a)).length ∧
      (∀ i, i < ctx.dataSize →
        rd domain' i =
          (if covered ctx.dataSize ctx.entries i then rd (data a) i else rd domain i) ∧
        rd inactive' i =
          if covered ctx.dataSize ctx.entries i then rd (data a) i else rd domain i) ∧
      (∀ i, ctx.dataSize ≤ i →
        rd domain' i = rd domain i ∧ rd inactive' i = rd (data (other a)) i) ∧
      (mirrorToShm ctx).ignoredWrites =
        some (ig + UInt32.ofNat (rejected ctx.dataSize ctx.entries).length) ∧
      (mirrorToShm ctx).activeBuffer = bufferWord (other a) ∧
      (mirrorToShm ctx).version = some (v + 1) ∧ (mirrorToShm ctx).cycleCount = some (cc + 1) := by
  intro a
  have he := mirrorToShm_eq ctx domain data hd hs hn hm
  obtain ⟨h1, h2, h3, h4, h5⟩ := cycleOverlay_bytes ctx.dataSize ctx.entries (data a)
    (data (other a)) domain (hbl _) hdl
  refine ⟨_, _, by rw [he], ?_, ?_, h2, h1, h4, h5, ?_, by rw [he], ?_, ?_⟩
  · rw [he]; exact Function.update_self ..
  · rw [he]
    simp only
    rw [Function.update_of_ne (other_ne _).symm, hs]
  · rw [he]
    simp only [hg]
    rw [ignored_add]
    exact congrArg (fun k => some (ig + k)) h3
  · rw [he, hv]; rfl
  · rw [he, hc]; rfl

/-- The context of the unit test of the mirror: a 16-bit input at 0 and a
16-bit output at 2, the client's bytes in buffer 0. -/
def unitContext : ShmMirrorContext where
  domainData := some [0x11, 0x22, 0x33, 0x44, 0x55, 0x66, 0x77, 0x88]
  shmData b := some (if b = 0 then [0xAA, 0xBB, 0xCC, 0xDD] else [0, 0, 0, 0])
  entries := [⟨0, 0x6000, 0, 16, "TxPDO", 0⟩, ⟨0, 0x6000, 1, 16, "RxPDO", 2⟩]
  dataSize := 4
  timestampNs := 123456789
  activeBuffer := 0
  version := some 0
  cycleCount := some 0
  timestampNsField := some 0
  statusFlags := some 0
  ignoredWrites := some 0

theorem mirrorToShm_cycle_unit : ∃ domain' : Bytes,
    (mirrorToShm unitContext).domainData = some domain' ∧ rd domain' 0 = 0x11 ∧
    rd domain' 2 = 0xCC ∧ rd domain' 4 = 0x55 ∧ (mirrorToShm unitContext).activeBuffer = 1 ∧
    (mirrorToShm unitContext).version = some 1 := by
  obtain ⟨d, _, h1, -, -, -, -, h2, h3, -, h4, h5, -⟩ := mirrorToShm_cycle unitContext
    [0x11, 0x22, 0x33, 0x44, 0x55, 0x66, 0x77, 0x88]
    (fun b => if b = 0 then [0xAA, 0xBB, 0xCC, 0xDD] else [0, 0, 0, 0]) 0 0 0
    rfl (fun _ => rfl) rfl rfl rfl (by decide) (by decide) (by decide) (by decide)
  exact ⟨d, h1, (h2 0 (by decide)).1.trans (by decide), (h2 2 (by decide)).1.trans (by decide),
    (h3 4 (by decide)).1.trans (by decide), h4, h5⟩

end NekoEcat.L2.Mirror
