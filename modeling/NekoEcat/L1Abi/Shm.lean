import NekoEcat.Core.Bytes

/-!
# The shared-memory ABI (`nekoecat_shm.h`)

The header, the daemon-side mirror entry and the client-side layout, with the
constants both sides share. `reserved[3]` of the header and the padding are
left out: nothing reads them. A `char direction[8]` holds a NUL-terminated
text and is its `String`; the two buffers of the arena are indexed by `Fin 2`.
-/
namespace NekoEcat.L1.Shm

/-- `NEKOECAT_SHM_MAX_PROCESS_DATA_SIZE` -/
def maxProcessDataSize : Nat := 4096

/-- `NEKOECAT_SHM_LAYOUT_MAX_ENTRIES` -/
def layoutMaxEntries : Nat := 64

/-- `NEKOECAT_SHM_LAYOUT_VERSION` -/
def layoutVersion : UInt32 := 1

/-- `NEKOECAT_FLAG_RUNNING` -/
def flagRunning : UInt32 := 1

/-- `sizeof(ShmHeader)` -/
def headerSize : Nat := 56

/-- mirrors src/core/nekoecat_shm.h:59-70 -/
structure ShmHeader where
  version : UInt64
  cycleCount : UInt64
  timestampNs : UInt64
  activeBuffer : UInt32
  dataSize : UInt32
  layoutVersion : UInt32
  statusFlags : UInt32
  ignoredWrites : UInt32
  deriving DecidableEq, Repr

/-- mirrors src/core/nekoecat_shm.h:77-84 -/
structure ShmMirrorEntry where
  slave : UInt16
  index : UInt16
  sub : UInt8
  bitLength : UInt8
  direction : String
  offset : UInt32
  deriving DecidableEq, Repr

/-- mirrors src/core/nekoecat_shm.h:106-113 -/
structure ShmLayoutEntry where
  slave : UInt16
  index : UInt16
  sub : UInt8
  bitLength : UInt8
  direction : String
  offset : UInt32
  deriving DecidableEq, Repr

/-- The filled part of the fixed array `entries`; `count` is its length.
mirrors src/core/nekoecat_shm.h:115-120 -/
structure ShmLayout where
  entries : List ShmLayoutEntry
  count_le : entries.length ≤ layoutMaxEntries
  dataSize : UInt32
  truncated : Bool

/-- `memset(&layout, 0, sizeof(layout))` -/
def ShmLayout.zero : ShmLayout := ⟨[], Nat.zero_le _, 0, false⟩

/-- `(bitLength + 7) / 8` -/
def byteLength (bitLength : UInt8) : Nat := (bitLength.toNat + 7) / 8

theorem eq_zero_of_not_pos {k : UInt32} (h : ¬ k > 0) : k = 0 := by
  rw [← UInt32.toNat_inj]
  have hle := mt UInt32.lt_iff_toNat_lt.2 h
  simp only [UInt32.toNat_zero] at hle ⊢; omega

/-- What the numbers of the two buffers are read with. -/
instance neZero_two : NeZero (2 : Nat) := ⟨Nat.succ_ne_zero 1⟩

/-- The buffer an `active_buffer` value names for the daemon: a corrupt value
counts as 0. -/
def activeIndex (b : UInt32) : Fin 2 := if h : b.toNat ≤ 1 then ⟨b.toNat, by omega⟩ else 0

/-- `1 - active` -/
def other (a : Fin 2) : Fin 2 := 1 - a

theorem other_ne (a : Fin 2) : other a ≠ a := by revert a; decide

@[simp] theorem other_other (a : Fin 2) : other (other a) = a := by revert a; decide

theorem eq_other_of_ne {a b : Fin 2} (h : b ≠ a) : b = other a := by revert a b; decide

/-- The value stored into `active_buffer` to name buffer `a`. -/
def bufferWord (a : Fin 2) : UInt32 := UInt32.ofNat a.val

@[simp] theorem activeIndex_bufferWord (a : Fin 2) : activeIndex (bufferWord a) = a := by
  revert a; decide

/-- The part of the shared object both sides work on: the header and the two
data buffers. -/
structure Arena where
  hdr : ShmHeader
  data : Fin 2 → Bytes

end NekoEcat.L1.Shm
