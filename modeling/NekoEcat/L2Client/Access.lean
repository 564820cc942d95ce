import NekoEcat.Core.Bytes
import NekoEcat.L2Client.Layout

/-!
# Process-data access of the C client (`client/nekoecat_client.c`)

The client record, the bounds check against the effective data size, the raw
read and write, and the typed writes by offset and by index. A pointer into
the mapping is its offset from `shm_ptr`; every load of a shared header field
is an argument, since another process may change the header between two loads.
The client and output pointers are not null.

* `checkBounds_iff`: the subtraction in the check hides no overflow.
* `writeRawAt_cases`: a raw write copies one range or changes nothing.
* `writeByIndex_frame`: what a typed write by index changes.
-/
namespace NekoEcat.L2.Client
open NekoEcat.Bytes NekoEcat.L1.Shm NekoEcat.L2.Layout

/-- mirrors client/nekoecat_client.c:34-48 -/
structure NekoEcatClient where
  sock : Int
  shmFd : Int
  /-- `shm_ptr` is not null. -/
  shmPtr : Bool
  shmSize : Nat
  /-- `hdr` is not null; it points to the start of the mapping. -/
  hdr : Bool
  /-- Offsets from `shm_ptr`; `none`: null. -/
  data : Fin 2 → Option Nat
  attached : Bool
  stateError : Bool
  mappedDataSize : UInt32
  knownLayoutVersion : UInt32
  lastErr : String
  lastVersion : UInt64
  layout : ShmLayout

/-- `calloc`, then `sock = -1`.
mirrors client/nekoecat_client.c:70-74 -/
def create : NekoEcatClient where
  sock := -1
  shmFd := 0
  shmPtr := false
  shmSize := 0
  hdr := false
  data _ := none
  attached := false
  stateError := false
  mappedDataSize := 0
  knownLayoutVersion := 0
  lastErr := ""
  lastVersion := 0
  layout := ShmLayout.zero

/-- `vsnprintf` into `char last_err[256]` -/
def setError (c : NekoEcatClient) (msg : String) : NekoEcatClient :=
  { c with lastErr := String.ofList (msg.toList.take 255) }

/-- `%u` -/
def fmtU (n : UInt32) : String := String.ofList (Nat.toDigits 10 n.toNat)

/-- `%x` -/
def fmtX (n : Nat) : String := String.ofList (Nat.toDigits 16 n)

/-! ## Bounds -/

/-- `hsz` is the loaded `hdr->data_size`.
mirrors client/nekoecat_client.c:414-427 -/
def effectiveDataSize (c : NekoEcatClient) (hsz : UInt32) : UInt32 :=
  if !c.hdr then 0
  else
    let maxSize := UInt32.ofNat maxProcessDataSize
    let mapped := if c.mappedDataSize = 0 ∨ c.mappedDataSize > maxSize then maxSize else c.mappedDataSize
    if hsz = 0 ∨ hsz > maxSize ∨ hsz > mapped then mapped else hsz

/-- mirrors client/nekoecat_client.c:429-435 -/
def checkBounds (c : NekoEcatClient) (hsz off width : UInt32) : Bool :=
  if off = 0xFFFFFFFF then false
  else
    let sz := effectiveDataSize c hsz
    if width > sz then false
    else if off > sz - width then false
    else true

/-- `b` is the loaded `hdr->active_buffer`.
mirrors client/nekoecat_client.c:439-445 -/
def getActiveData (c : NekoEcatClient) (b : UInt32) : Option Nat :=
  if !c.hdr then none
  else if h : b.toNat > 1 then none
  else c.data ⟨b.toNat, by omega⟩

theorem checkBounds_iff {c : NekoEcatClient} {hsz off width : UInt32} :
    checkBounds c hsz off width = true ↔
      off ≠ 0xFFFFFFFF ∧ off.toNat + width.toNat ≤ (effectiveDataSize c hsz).toNat := by
  unfold checkBounds
  by_cases ho : off = 0xFFFFFFFF
  · simp [ho]
  dsimp only
  generalize effectiveDataSize c hsz = sz
  rw [if_neg ho]
  by_cases hw : width > sz
  · have := UInt32.lt_iff_toNat_lt.1 hw
    rw [if_pos hw]
    simp only [Bool.false_eq_true, ne_eq, ho, not_false_eq_true, true_and, false_iff]; omega
  · have hle : width.toNat ≤ sz.toNat := Nat.le_of_not_lt (mt UInt32.lt_iff_toNat_lt.2 hw)
    have hsub : (sz - width).toNat = sz.toNat - width.toNat :=
      UInt32.toNat_sub_of_le _ _ (UInt32.le_iff_toNat_le.2 hle)
    rw [if_neg hw]
    by_cases hoff : off > sz - width
    · have := UInt32.lt_iff_toNat_lt.1 hoff
      rw [if_pos hoff]
      simp only [Bool.false_eq_true, ne_eq, ho, not_false_eq_true, true_and, false_iff]; omega
    · have := Nat.le_of_not_lt (mt UInt32.lt_iff_toNat_lt.2 hoff)
      rw [if_neg hoff]
      simp only [ne_eq, ho, not_false_eq_true, true_and, true_iff]; omega

/-- For a client whose stride is within the limit the effective size is at
most the stride, whatever the header says. -/
theorem effectiveDataSize_le {c : NekoEcatClient} (h1 : c.mappedDataSize ≠ 0)
    (h2 : c.mappedDataSize.toNat ≤ maxProcessDataSize) (hsz : UInt32) :
    (effectiveDataSize c hsz).toNat ≤ c.mappedDataSize.toNat := by
  have hmax : ¬ c.mappedDataSize > UInt32.ofNat maxProcessDataSize := fun h =>
    absurd (UInt32.lt_iff_toNat_lt.1 h) (Nat.not_lt.2 h2)
  have hm : ¬ (c.mappedDataSize = 0 ∨ c.mappedDataSize > UInt32.ofNat maxProcessDataSize) :=
    not_or.2 ⟨h1, hmax⟩
  unfold effectiveDataSize
  split
  · simp
  · simp only [if_neg hm]
    split
    · exact Nat.le_refl _
    · rename_i h
      exact Nat.le_of_not_lt fun hlt => h (.inr (.inr (UInt32.lt_iff_toNat_lt.2 hlt)))

theorem effectiveDataSize_zero {c : NekoEcatClient} (h : c.hdr = true) (h1 : c.mappedDataSize ≠ 0)
    (h2 : c.mappedDataSize.toNat ≤ maxProcessDataSize) :
    effectiveDataSize c 0 = c.mappedDataSize := by
  have hmax : ¬ c.mappedDataSize > UInt32.ofNat maxProcessDataSize := fun h =>
    absurd (UInt32.lt_iff_toNat_lt.1 h) (Nat.not_lt.2 h2)
  unfold effectiveDataSize
  simp [h, h1, hmax]

/-! ## Raw access -/

/-- What the loads of one read attempt return, and the mapping during its
copy. -/
structure ReadAttempt where
  version1 : UInt64
  activeBuffer : UInt32
  mem : Bytes
  version2 : UInt64

/-- The outcome of a read; `touched` lists the ranges (address, length) of the
mapping that were copied. -/
structure ReadResult where
  ok : Bool
  client : NekoEcatClient
  buf : Bytes
  touched : List (Nat × Nat)

/-- The retry loop over the attempts that are left.
mirrors client/nekoecat_client.c:457-472 -/
def readLoop (c : NekoEcatClient) (off nbytes : Nat) (buf : Bytes) : List ReadAttempt → ReadResult
  | [] => ⟨false, setError c "read_raw_at: version changed during read", buf, []⟩
  | a :: attempts =>
    match getActiveData c a.activeBuffer with
    | none => ⟨false, setError c "read_raw_at: invalid active buffer", buf, []⟩
    | some d =>
      let buf := slice a.mem (d + off) nbytes
      if a.version1 = a.version2 then ⟨true, c, buf, [(d + off, nbytes)]⟩
      else
        let r := readLoop c off nbytes buf attempts
        { r with touched := (d + off, nbytes) :: r.touched }

/-- `buf = none`: null.
mirrors client/nekoecat_client.c:447-473 -/
def readRawAt (c : NekoEcatClient) (hsz : UInt32) (attempts : Fin 4 → ReadAttempt)
    (off : UInt32) (buf : Option Bytes) (nbytes : UInt32) : ReadResult :=
  match buf with
  | none => ⟨false, setError c "read_raw_at: not attached", [], []⟩
  | some buf =>
    if !c.attached || !c.hdr then ⟨false, setError c "read_raw_at: not attached", buf, []⟩
    else if !checkBounds c hsz off nbytes then
      ⟨false, setError c ("read_raw_at: out of bounds (off=" ++ fmtU off ++ " len=" ++ fmtU nbytes ++ ")"),
        buf, []⟩
    else readLoop c off.toNat nbytes.toNat buf (List.ofFn attempts)

structure WriteResult where
  ok : Bool
  client : NekoEcatClient
  mem : Bytes
  touched : List (Nat × Nat)

/-- mirrors client/nekoecat_client.c:475-496 -/
def writeRawAt (c : NekoEcatClient) (hsz activeBuffer : UInt32) (mem : Bytes) (off : UInt32)
    (buf : Option Bytes) (nbytes : UInt32) : WriteResult :=
  match buf with
  | none => ⟨false, setError c "write_raw_at: not attached", mem, []⟩
  | some buf =>
    if !c.attached || !c.hdr then ⟨false, setError c "write_raw_at: not attached", mem, []⟩
    else if !checkBounds c hsz off nbytes then
      ⟨false, setError c ("write_raw_at: out of bounds (off=" ++ fmtU off ++ " len=" ++ fmtU nbytes ++ ")"),
        mem, []⟩
    else
      match getActiveData c activeBuffer with
      | none => ⟨false, setError c "write_raw_at: invalid active buffer", mem, []⟩
      | some d =>
        ⟨true, c, memcpy mem (d + off.toNat) buf 0 nbytes.toNat, [(d + off.toNat, nbytes.toNat)]⟩

/-- **A raw write** changes nothing and reports failure, or copies one
accepted range into the active buffer. -/
theorem writeRawAt_cases (c : NekoEcatClient) (hsz activeBuffer : UInt32) (mem : Bytes) (off : UInt32)
    (buf : Option Bytes) (nbytes : UInt32) :
    let r := writeRawAt c hsz activeBuffer mem off buf nbytes
    (r.ok = false ∧ r.mem = mem ∧ r.touched = []) ∨
    ∃ d b, r.ok = true ∧ buf = some b ∧ getActiveData c activeBuffer = some d ∧
      c.attached = true ∧ c.hdr = true ∧ checkBounds c hsz off nbytes = true ∧
      r.mem = memcpy mem (d + off.toNat) b 0 nbytes.toNat ∧
      r.touched = [(d + off.toNat, nbytes.toNat)] := by
  unfold writeRawAt
  cases buf with
  | none => exact .inl ⟨rfl, rfl, rfl⟩
  | some b =>
    dsimp only
    split
    · exact .inl ⟨rfl, rfl, rfl⟩
    · rename_i ha
      simp only [Bool.or_eq_true, Bool.not_eq_true', not_or, Bool.not_eq_false] at ha
      split
      · exact .inl ⟨rfl, rfl, rfl⟩
      · rename_i hb
        simp only [Bool.not_eq_true', Bool.not_eq_false] at hb
        split
        · exact .inl ⟨rfl, rfl, rfl⟩
        · rename_i d hd
          exact .inr ⟨d, b, rfl, rfl, hd, ha.1, ha.2, hb, rfl, rfl⟩

/-- Every range a read copies starts at the offset in a buffer that some
attempt's `active_buffer` named. -/
theorem readLoop_touched {c : NekoEcatClient} {off n : Nat} {r : Nat × Nat} :
    ∀ {attempts : List ReadAttempt} {buf : Bytes}, r ∈ (readLoop c off n buf attempts).touched →
    ∃ b d, getActiveData c b = some d ∧ r = (d + off, n)
  | [], _, h => by cases h
  | a :: attempts, buf, h => by
    unfold readLoop at h
    split at h
    · cases h
    · rename_i d hd
      dsimp only at h
      split at h
      · rw [List.mem_singleton.1 h]
        exact ⟨_, d, hd, rfl⟩
      · rcases List.mem_cons.1 h with rfl | h
        · exact ⟨_, d, hd, rfl⟩
        · exact readLoop_touched h

theorem readRawAt_touched {c : NekoEcatClient} {hsz off nbytes : UInt32} {buf : Option Bytes}
    {attempts : Fin 4 → ReadAttempt} {r : Nat × Nat}
    (h : r ∈ (readRawAt c hsz attempts off buf nbytes).touched) :
    checkBounds c hsz off nbytes = true ∧
      ∃ b d, getActiveData c b = some d ∧ r = (d + off.toNat, nbytes.toNat) := by
  unfold readRawAt at h
  split at h
  · cases h
  split at h
  · cases h
  split at h
  · cases h
  · rename_i hb
    exact ⟨by simpa using hb, readLoop_touched h⟩

/-! ## Typed writes -/

/-- The header and the mapping, for a call during which nobody else writes. -/
structure Shared where
  hdr : ShmHeader
  mem : Bytes

/-- The body of the typed writes by offset: the value's `w` little-endian bytes. -/
def writeValueAt (w : Nat) (c : NekoEcatClient) (sh : Shared) (off : UInt32) (value : Nat) : WriteResult :=
  writeRawAt c sh.hdr.dataSize sh.hdr.activeBuffer sh.mem off (some (leBytes w value)) (UInt32.ofNat w)

/-- mirrors client/nekoecat_client.c:533-552; a float is its 32 bits. -/
def writeU8At (c : NekoEcatClient) (sh : Shared) (off : UInt32) (value : UInt8) : WriteResult :=
  writeValueAt 1 c sh off value.toNat

def writeU16At (c : NekoEcatClient) (sh : Shared) (off : UInt32) (value : UInt16) : WriteResult :=
  writeValueAt 2 c sh off value.toNat

def writeU32At (c : NekoEcatClient) (sh : Shared) (off : UInt32) (value : UInt32) : WriteResult :=
  writeValueAt 4 c sh off value.toNat

def writeU64At (c : NekoEcatClient) (sh : Shared) (off : UInt32) (value : UInt64) : WriteResult :=
  writeValueAt 8 c sh off value.toNat

def writeFloatAt (c : NekoEcatClient) (sh : Shared) (off : UInt32) (bits : UInt32) : WriteResult :=
  writeValueAt 4 c sh off bits.toNat

/-- mirrors client/nekoecat_client.c:555-564 -/
def resolveOffset (c : NekoEcatClient) (slave idx : UInt16) (sub : UInt8) :
    Except NekoEcatClient UInt32 :=
  let off := layoutByteOffset c.layout slave idx sub
  if off = 0xFFFFFFFF then
    .error (setError c ("layout entry not found (slave=" ++ fmtU slave.toUInt32 ++ " index=0x" ++
      fmtX idx.toNat ++ " sub=0x" ++ fmtX sub.toNat ++ ")"))
  else .ok off

/-- The body of the writes by index: resolve, then write by offset. -/
def writeResolved (writeAt : UInt32 → WriteResult) (c : NekoEcatClient) (sh : Shared)
    (slave idx : UInt16) (sub : UInt8) : WriteResult :=
  match resolveOffset c slave idx sub with
  | .error c => ⟨false, c, sh.mem, []⟩
  | .ok off => writeAt off

/-- mirrors client/nekoecat_client.c:592-616 -/
def writeU8ByIndex (c : NekoEcatClient) (sh : Shared) (slave idx : UInt16) (sub : UInt8) (val : UInt8) :
    WriteResult :=
  writeResolved (writeU8At c sh · val) c sh slave idx sub

def writeU16ByIndex (c : NekoEcatClient) (sh : Shared) (slave idx : UInt16) (sub : UInt8) (val : UInt16) :
    WriteResult :=
  writeResolved (writeU16At c sh · val) c sh slave idx sub

def writeU32ByIndex (c : NekoEcatClient) (sh : Shared) (slave idx : UInt16) (sub : UInt8) (val : UInt32) :
    WriteResult :=
  writeResolved (writeU32At c sh · val) c sh slave idx sub

def writeU64ByIndex (c : NekoEcatClient) (sh : Shared) (slave idx : UInt16) (sub : UInt8) (val : UInt64) :
    WriteResult :=
  writeResolved (writeU64At c sh · val) c sh slave idx sub

def writeFloatByIndex (c : NekoEcatClient) (sh : Shared) (slave idx : UInt16) (sub : UInt8)
    (bits : UInt32) : WriteResult :=
  writeResolved (writeFloatAt c sh · bits) c sh slave idx sub

/-- A typed value of one of the five widths. -/
inductive Value where
  | u8 (v : UInt8)
  | u16 (v : UInt16)
  | u32 (v : UInt32)
  | u64 (v : UInt64)
  | float (bits : UInt32)

/-- `sizeof` -/
def Value.size : Value → Nat
  | .u8 _ => 1
  | .u16 _ => 2
  | .u32 _ => 4
  | .u64 _ => 8
  | .float _ => 4

/-- The write by index of the value's width. -/
def writeByIndex (c : NekoEcatClient) (sh : Shared) (slave idx : UInt16) (sub : UInt8) :
    Value → WriteResult
  | .u8 v => writeU8ByIndex c sh slave idx sub v
  | .u16 v => writeU16ByIndex c sh slave idx sub v
  | .u32 v => writeU32ByIndex c sh slave idx sub v
  | .u64 v => writeU64ByIndex c sh slave idx sub v
  | .float bits => writeFloatByIndex c sh slave idx sub bits

theorem writeByIndex_eq (c : NekoEcatClient) (sh : Shared) (slave idx : UInt16) (sub : UInt8) (v : Value) :
    ∃ n, writeByIndex c sh slave idx sub v =
      writeResolved (writeValueAt v.size c sh · n) c sh slave idx sub := by
  cases v <;> exact ⟨_, rfl⟩

theorem writeResolved_cases (writeAt : UInt32 → WriteResult) (c : NekoEcatClient) (sh : Shared)
    (slave idx : UInt16) (sub : UInt8) :
    ((writeResolved writeAt c sh slave idx sub).ok = false ∧
      (writeResolved writeAt c sh slave idx sub).mem = sh.mem) ∨
    ∃ e, addressed c.layout slave idx sub e ∧
      writeResolved writeAt c sh slave idx sub = writeAt e.offset := by
  unfold writeResolved resolveOffset
  dsimp only
  by_cases h : layoutByteOffset c.layout slave idx sub = 0xFFFFFFFF
  · rw [if_pos h]
    exact .inl ⟨rfl, rfl⟩
  · rw [if_neg h]
    obtain ⟨e, he, ho⟩ := layoutByteOffset_found h
    exact .inr ⟨e, he, by rw [ho]⟩

/-- **Frame of a write by index.** A write that succeeds changes only bytes of
the active buffer inside `[offset, offset + width)` of the addressed entry,
which lies inside the effective data size; so it stays inside the entry's
range whenever the value is no wider than the entry. A write that fails
changes nothing. -/
theorem writeByIndex_frame (c : NekoEcatClient) (sh : Shared) (slave idx : UInt16) (sub : UInt8)
    (v : Value) :
    let r := writeByIndex c sh slave idx sub v
    (r.ok = false → r.mem = sh.mem) ∧
    (r.ok = true → ∃ e d, addressed c.layout slave idx sub e ∧
      getActiveData c sh.hdr.activeBuffer = some d ∧
      e.offset.toNat + v.size ≤ (effectiveDataSize c sh.hdr.dataSize).toNat ∧
      ∀ i, rd r.mem i ≠ rd sh.mem i →
        ∃ j, i = d + j ∧ e.offset.toNat ≤ j ∧ j < e.offset.toNat + v.size ∧
          (v.size ≤ byteLength e.bitLength → j < e.offset.toNat + byteLength e.bitLength)) := by
  intro r
  obtain ⟨n, hr⟩ := writeByIndex_eq c sh slave idx sub v
  have hsize : (UInt32.ofNat v.size).toNat = v.size := by cases v <;> rfl
  change r = _ at hr
  rcases writeResolved_cases (writeValueAt v.size c sh · n) c sh slave idx sub with ⟨hf, hm⟩ | ⟨e, he, hw⟩
  · rw [hr]
    exact ⟨fun _ => hm, fun ht => absurd (hf.symm.trans ht) (by decide)⟩
  · rw [hr, hw]
    rcases writeRawAt_cases c sh.hdr.dataSize sh.hdr.activeBuffer sh.mem e.offset
      (some (leBytes v.size n)) (UInt32.ofNat v.size) with
      ⟨hf, hm, -⟩ | ⟨d, b, ht, -, hd, -, -, hb, hm, -⟩
    · exact ⟨fun _ => hm, fun ht => absurd (hf.symm.trans ht) (by decide)⟩
    · refine ⟨fun hf => absurd (ht.symm.trans hf) (by decide), ?_⟩
      intro _
      have hbound := (checkBounds_iff.1 hb).2
      rw [hsize] at hbound hm
      refine ⟨e, d, he, hd, hbound, ?_⟩
      intro i hne
      have hin : d + e.offset.toNat ≤ i ∧ i < d + e.offset.toNat + v.size := by
        by_contra hout
        exact hne (by rw [writeValueAt, hm, rd_memcpy_out (by omega)])
      exact ⟨i - d, by omega, by omega, by omega, fun _ => by omega⟩

/-- Two adjacent 8-bit outputs in a data area of two bytes. -/
def adjacentLayout : ShmLayout where
  entries := [⟨0, 0x7000, 1, 8, "RxPDO", 0⟩, ⟨0, 0x7000, 2, 8, "RxPDO", 1⟩]
  count_le := by decide
  dataSize := 2
  truncated := false

def adjacentClient : NekoEcatClient :=
  { create with
    shmPtr := true, shmSize := headerSize + 4, hdr := true, attached := true, mappedDataSize := 2,
    data := fun b => some (headerSize + b.val * 2), layout := adjacentLayout }

def adjacentShared : Shared := ⟨⟨0, 0, 0, 0, 2, layoutVersion, 0, 0⟩, List.replicate (headerSize + 4) 0⟩

/-- **A wide write reaches the neighbour**: the two entries are disjoint and
inside the data area, and writing a 16-bit value to the first succeeds and
changes the byte of the second. -/
theorem wide_write_changes_neighbour :
    adjacentLayout.entries.Pairwise (fun a b =>
      a.offset.toNat + byteLength a.bitLength ≤ b.offset.toNat) ∧
    (∀ e ∈ adjacentLayout.entries, e.offset.toNat + byteLength e.bitLength ≤ 2) ∧
    (writeByIndex adjacentClient adjacentShared 0 0x7000 1 (.u16 0x0102)).ok = true ∧
    rd (writeByIndex adjacentClient adjacentShared 0 0x7000 1 (.u16 0x0102)).mem (headerSize + 1) ≠
      rd adjacentShared.mem (headerSize + 1) := by
  decide

end NekoEcat.L2.Client
