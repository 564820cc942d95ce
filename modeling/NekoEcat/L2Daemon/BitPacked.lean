import NekoEcat.L2Daemon.FreeRunShm

/-!
# Bit-packed entries

The domain registration gives an entry a byte offset and a bit position; the
mirror layout keeps the byte offset and the bit length only, so a cycle moves
the bytes `[offset, offset + (bitLength + 7) / 8)`. An entry whose bits run
past them spills into one more byte.

* `lt_computeProcessDataSize`: the computed size reaches exactly the bytes
  below some entry's end.
* `transferred_iff`: a cycle carries a bit of the active buffer for every
  state exactly when its byte lies in an accepted output.
* `bitCoverage_iff`: exactly when the byte ranges carry every bit.
-/
namespace NekoEcat.L2.FreeRun
open NekoEcat.Bytes NekoEcat.L1.Shm NekoEcat.L2.Mirror

namespace RuntimeEntry

def byteOffset (e : RuntimeEntry) : Nat := (e.offset.getD 0).toNat

def bitPos (e : RuntimeEntry) : Nat := (e.bitPosition.getD 0).toNat

/-- One past the last byte of the entry's mirror range. -/
def byteEnd (e : RuntimeEntry) : Nat := e.byteOffset + byteLength e.bitLength

/-- Bit `k` of the process image belongs to the entry. -/
def hasBit (e : RuntimeEntry) (k : Nat) : Prop :=
  8 * e.byteOffset + e.bitPos ≤ k ∧ k < 8 * e.byteOffset + e.bitPos + e.bitLength.toNat

/-- The entry's bits run past its mirror range. -/
def Spills (e : RuntimeEntry) : Prop :=
  e.bitLength ≠ 0 ∧ 8 * byteLength e.bitLength < e.bitPos + e.bitLength.toNat

end RuntimeEntry

/-- Byte `j` lies in the mirror range of an output that ends within the data
area of `n` bytes. -/
def outputByte (n : Nat) (rs : List RuntimeEntry) (j : Nat) : Prop :=
  ∃ e ∈ rs, e.direction = "RxPDO" ∧ e.byteEnd ≤ n ∧ e.byteOffset ≤ j ∧ j < e.byteEnd

/-- Bit `k` of a byte image. -/
def imageBit (b : Bytes) (k : Nat) : Bool := (rd b (k / 8)).toNat.testBit (k % 8)

/-- The arena size computed from the mirror layout covers every bit. -/
def SizeCoversBits (rs : List RuntimeEntry) : Prop :=
  ∀ e ∈ rs, ∀ k, e.hasBit k → k / 8 < computeProcessDataSize (buildMirrorEntries rs)

/-- Every cycle of every running controller of this layout transfers every
output bit its active buffer holds to the domain. -/
def BitsTransferred (rs : List RuntimeEntry) : Prop :=
  ∀ (c : FreeRunController) (m : SharedMemory) (domain : Bytes) (now : UInt64),
    c.mirrorEntries = buildMirrorEntries rs →
    Running c m domain (arenaSize (buildMirrorEntries rs)) →
    ∃ domain', (c.mirrorToShm now).domainData = some domain' ∧
      ∀ e ∈ rs, e.direction = "RxPDO" → ∀ k, e.hasBit k →
        k / 8 < arenaSize (buildMirrorEntries rs) → imageBit domain' k = imageBit m.activeData k

/-! ## The computed size -/

theorem foldl_max_lt (es : List ShmMirrorEntry) (j : Nat) : ∀ a,
    j < es.foldl (fun maxEnd e => max maxEnd (e.offset.toNat + byteLength e.bitLength)) a ↔
      j < a ∨ ∃ e ∈ es, j < e.offset.toNat + byteLength e.bitLength := by
  induction es with
  | nil => simp
  | cons e es ih =>
    intro a
    have hmax : j < max a (e.offset.toNat + byteLength e.bitLength) ↔
        j < a ∨ j < e.offset.toNat + byteLength e.bitLength := by omega
    simp only [List.foldl_cons, ih, List.mem_cons, exists_eq_or_imp, hmax, or_assoc]

theorem lt_computeProcessDataSize {es : List ShmMirrorEntry} {j : Nat} :
    j < computeProcessDataSize es ↔ ∃ e ∈ es, j < e.offset.toNat + byteLength e.bitLength := by
  unfold computeProcessDataSize
  rw [foldl_max_lt]
  simp

theorem lt_computeProcessDataSize_build {rs : List RuntimeEntry} {j : Nat} :
    j < computeProcessDataSize (buildMirrorEntries rs) ↔ ∃ e ∈ rs, j < e.byteEnd := by
  rw [lt_computeProcessDataSize]
  simp only [buildMirrorEntries, List.mem_map, exists_exists_and_eq_and]
  rfl

theorem lt_arenaSize {es : List ShmMirrorEntry} {j : Nat} (h : j < computeProcessDataSize es) :
    j < arenaSize es ↔ j < maxProcessDataSize := by
  unfold arenaSize
  have h0 : computeProcessDataSize es ≠ 0 := by omega
  simp only [if_neg h0]
  split <;> omega

theorem hasBit_range {e : RuntimeEntry} {k : Nat} (hp : e.bitPos ≤ 7) (h : e.hasBit k) :
    e.byteOffset ≤ k / 8 ∧ k / 8 ≤ e.byteEnd ∧ (k / 8 = e.byteEnd → e.Spills) := by
  obtain ⟨h1, h2⟩ := h
  have hl : e.bitLength ≠ 0 := by
    rintro hl; rw [hl, UInt8.toNat_zero] at h2; omega
  unfold RuntimeEntry.byteEnd RuntimeEntry.Spills byteLength
  refine ⟨by omega, by omega, fun h => ⟨hl, by omega⟩⟩

/-- Every byte between the first and the last bit of an entry holds one of its
bits. -/
theorem exists_hasBit {e : RuntimeEntry} {j : Nat} (hp : e.bitPos ≤ 7) (h1 : e.byteOffset ≤ j)
    (h2 : j < e.byteEnd ∨ e.Spills ∧ j = e.byteEnd) : ∃ k, e.hasBit k ∧ k / 8 = j := by
  unfold RuntimeEntry.byteEnd RuntimeEntry.Spills byteLength at h2
  have hl : e.bitLength.toNat ≠ 0 := by
    rcases h2 with h2 | ⟨⟨h2, -⟩, -⟩
    · omega
    · rw [← UInt8.toNat_zero]; exact fun h => h2 (UInt8.toNat_inj.1 h)
  refine ⟨max (8 * j) (8 * e.byteOffset + e.bitPos), ⟨by omega, ?_⟩, by omega⟩
  rcases h2 with h2 | ⟨⟨-, h2⟩, h3⟩ <;> omega

theorem sizeCoversBits_iff {rs : List RuntimeEntry} (hp : ∀ e ∈ rs, e.bitPos ≤ 7) :
    SizeCoversBits rs ↔ ∀ e ∈ rs, e.Spills → ∃ e' ∈ rs, e.byteEnd < e'.byteEnd := by
  constructor
  · intro h e he hs
    obtain ⟨k, hk, hkj⟩ := exists_hasBit (hp e he) (Nat.le_add_right _ _) (.inr ⟨hs, rfl⟩)
    have := lt_computeProcessDataSize_build.1 (h e he k hk)
    rwa [hkj] at this
  · intro h e he k hk
    rw [lt_computeProcessDataSize_build]
    obtain ⟨-, h2, h3⟩ := hasBit_range (hp e he) hk
    by_cases hlt : k / 8 < e.byteEnd
    · exact ⟨e, he, hlt⟩
    · have heq : k / 8 = e.byteEnd := by omega
      rw [heq]
      exact h e he (h3 heq)

/-! ## The transfer -/

theorem directionField_eq_RxPDO {d : String} : directionField d = "RxPDO" ↔ d = "RxPDO" := by
  unfold directionField
  constructor
  · intro h
    have h' : d.toList.take 7 = "RxPDO".toList := by
      rw [← h]; simp
    have hlen := congrArg List.length h'
    rw [List.length_take] at hlen
    have hl : d.toList.length = 5 := by
      have : "RxPDO".toList.length = 5 := by decide
      omega
    rw [List.take_of_length_le (by omega)] at h'
    exact String.toList_inj.1 h'
  · rintro rfl; decide

theorem covered_build {n : Nat} {rs : List RuntimeEntry} {j : Nat} :
    covered n (buildMirrorEntries rs) j ↔ outputByte n rs j := by
  unfold covered outputByte
  simp only [buildMirrorEntries, List.mem_map, exists_exists_and_eq_and]
  refine exists_congr fun e => and_congr_right fun _ => ?_
  simp only [covers, isOutput_iff]
  show (directionField e.direction = "RxPDO" ∧ _) ∧ _ ↔ _
  rw [directionField_eq_RxPDO]
  simp only [RuntimeEntry.byteEnd, RuntimeEntry.byteOffset, mirrorEntry]
  constructor
  · rintro ⟨⟨h1, -⟩, h2, h3, h4⟩; exact ⟨h1, h2, h3, h4⟩
  · rintro ⟨h1, h2, h3, h4⟩; exact ⟨⟨h1, by omega⟩, h2, h3, h4⟩

/-- The fitting outputs are the same for the arena and for the largest one. -/
theorem outputByte_arenaSize {rs : List RuntimeEntry} {j : Nat} :
    outputByte (arenaSize (buildMirrorEntries rs)) rs j ↔ outputByte maxProcessDataSize rs j := by
  refine exists_congr fun e => and_congr_right fun he => and_congr_right fun _ =>
    and_congr_left fun ⟨h1, h2⟩ => ?_
  have hlt := fun j h => lt_arenaSize (lt_computeProcessDataSize_build.2 ⟨e, he, h⟩) (j := j)
  have := hlt (e.byteEnd - 1) (by omega)
  omega

/-- A mapping whose two buffers are all ones. -/
def onesMemory (n : Nat) : SharedMemory where
  arena := {
    hdr := ⟨0, 0, 0, 0, UInt32.ofNat n, layoutVersion, 0, 0⟩
    data := fun _ => List.replicate n 0xFF }
  stride := n
  size := headerSize + 2 * n

theorem rd_replicate (n : Nat) (v : UInt8) {i : Nat} (h : i < n) : rd (List.replicate n v) i = v := by
  simp [rd, List.getD_eq_getElem?_getD, h]

theorem onesMemory_running (es : List ShmMirrorEntry) {n : Nat} (h1 : 1 ≤ n)
    (h2 : n ≤ maxProcessDataSize) :
    Running ⟨some (onesMemory n), some (List.replicate n 0), es⟩ (onesMemory n)
      (List.replicate n 0) n := by
  refine ⟨rfl, rfl, h1, h2, rfl, ?_, fun _ => List.length_replicate, by simp⟩
  show (UInt32.ofNat n).toNat = n
  rw [UInt32.toNat_ofNat']; unfold maxProcessDataSize at h2; omega

/-- **What a cycle carries.** Every output bit of the active buffer reaches
the domain in every state exactly when its byte lies in the mirror range of an
output that fits. -/
theorem transferred_iff {rs : List RuntimeEntry} :
    BitsTransferred rs ↔ ∀ e ∈ rs, e.direction = "RxPDO" → ∀ k, e.hasBit k →
      k / 8 < arenaSize (buildMirrorEntries rs) →
      outputByte (arenaSize (buildMirrorEntries rs)) rs (k / 8) := by
  have hne : ∀ e ∈ rs, buildMirrorEntries rs ≠ [] := fun e he h => by
    rw [buildMirrorEntries, List.map_eq_nil_iff] at h
    rw [h] at he; cases he
  constructor
  · intro h e he hd k hk hlt
    have hr := onesMemory_running (buildMirrorEntries rs) (arenaSize_pos (buildMirrorEntries rs))
      (arenaSize_le _)
    obtain ⟨d, hd1, hd2⟩ := h _ _ _ 0 rfl hr
    obtain ⟨_, d', hr', -, -, -, hb, -⟩ := cycle_bytes hr (hne e he) 0
    obtain rfl : d = d' := Option.some.inj (hd1.symm.trans hr'.dom)
    by_contra hc
    -- the byte is not covered: the domain keeps its 0, the active buffer holds 0xFF
    have hz := (hb _ hlt).1
    rw [if_neg (mt covered_build.1 hc), rd_replicate _ _ hlt] at hz
    have ho := hd2 e he hd k hk hlt
    have ha : rd (onesMemory (arenaSize (buildMirrorEntries rs))).activeData (k / 8) = 0xFF :=
      rd_replicate _ _ hlt
    rw [imageBit, imageBit, hz, ha] at ho
    have : ∀ i, i < 8 → (0 : UInt8).toNat.testBit i ≠ (0xFF : UInt8).toNat.testBit i := by decide
    exact this (k % 8) (Nat.mod_lt _ (by decide)) ho
  · intro h c m domain now hc hr
    by_cases he : rs = []
    · subst he
      refine ⟨domain, ?_, fun e he => by cases he⟩
      unfold FreeRunController.mirrorToShm
      simp only [hr.shm, hr.dom, hc]
      exact hr.dom
    · obtain ⟨m', d', hr', -, -, -, hb, -⟩ := cycle_bytes hr
        (by rw [hc]; simpa [buildMirrorEntries] using he) now
      refine ⟨d', hr'.dom, ?_⟩
      intro e he hd k hk hlt
      have := (hb _ hlt).1
      rw [hc, if_pos (covered_build.2 (h e he hd k hk hlt))] at this
      rw [imageBit, imageBit, this]

/-- Every byte an output's bits occupy below the size limit, beyond its own
accepted mirror range, lies in the mirror range of another accepted output. -/
def OutputsCarried (rs : List RuntimeEntry) : Prop :=
  ∀ e ∈ rs, e.direction = "RxPDO" →
    (e.byteEnd < maxProcessDataSize → e.Spills → outputByte maxProcessDataSize rs e.byteEnd) ∧
    (maxProcessDataSize < e.byteEnd → ∀ j, e.byteOffset ≤ j → j < maxProcessDataSize →
      outputByte maxProcessDataSize rs j)

theorem outputsCarried_iff {rs : List RuntimeEntry} (hp : ∀ e ∈ rs, e.bitPos ≤ 7) :
    OutputsCarried rs ↔ ∀ e ∈ rs, e.direction = "RxPDO" → ∀ k, e.hasBit k →
      k / 8 < maxProcessDataSize → outputByte maxProcessDataSize rs (k / 8) := by
  refine ⟨?_, fun h e he hd => ⟨?_, ?_⟩⟩
  · intro h e he hd k hk hlt
    obtain ⟨h1, h2, h3⟩ := hasBit_range (hp e he) hk
    by_cases hfit : e.byteEnd ≤ maxProcessDataSize
    · by_cases hin : k / 8 < e.byteEnd
      · exact ⟨e, he, hd, hfit, h1, hin⟩
      · have heq : k / 8 = e.byteEnd := by omega
        rw [heq]
        exact (h e he hd).1 (heq ▸ hlt) (h3 heq)
    · exact (h e he hd).2 (by omega) _ h1 hlt
  · intro hlt hs
    obtain ⟨k, hk, hkj⟩ := exists_hasBit (hp e he) (Nat.le_add_right _ _) (.inr ⟨hs, rfl⟩)
    have := h e he hd k hk (hkj ▸ hlt)
    rwa [hkj] at this
  · intro hlt j h1 h2
    obtain ⟨k, hk, hkj⟩ := exists_hasBit (hp e he) h1 (.inl (by omega))
    have := h e he hd k hk (hkj ▸ h2)
    rwa [hkj] at this

/-- **Bit coverage, exactly.** The computed size covers every bit and every
cycle transfers every output bit of the active buffer if and only if every
spilling entry has an entry whose mirror range reaches past its own, and every
byte an output's bits occupy beyond its own accepted range lies in the range
of another accepted output. -/
theorem bitCoverage_iff (rs : List RuntimeEntry) (hp : ∀ e ∈ rs, e.bitPos ≤ 7) :
    SizeCoversBits rs ∧ BitsTransferred rs ↔
      (∀ e ∈ rs, e.Spills → ∃ e' ∈ rs, e.byteEnd < e'.byteEnd) ∧ OutputsCarried rs := by
  rw [sizeCoversBits_iff hp, outputsCarried_iff hp, transferred_iff]
  apply and_congr_right
  intro hs
  have hsize := (sizeCoversBits_iff hp).2 hs
  refine forall₂_congr fun e he => forall_congr' fun _ => forall₂_congr fun k hk => ?_
  rw [lt_arenaSize (hsize e he k hk), outputByte_arenaSize]

/-- The aligned layout of a drive: a 16-bit input at 0, a 16-bit output at 2. -/
def alignedEntries : List RuntimeEntry :=
  [⟨0, 3, "TxPDO", 0x1A00, 0x6041, 0, 16, "Statusword", some 0, some 0⟩,
    ⟨0, 2, "RxPDO", 0x1600, 0x6040, 0, 16, "Controlword", some 2, some 0⟩]

theorem bitCoverage_iff_aligned : SizeCoversBits alignedEntries ∧ BitsTransferred alignedEntries := by
  have hs : ∀ e ∈ alignedEntries, ¬ e.Spills := by
    simp only [alignedEntries, List.forall_mem_cons, List.not_mem_nil, false_implies, implies_true,
      and_true, RuntimeEntry.Spills]
    decide
  have hb : ∀ e ∈ alignedEntries, ¬ maxProcessDataSize < e.byteEnd := by decide
  exact (bitCoverage_iff alignedEntries (by decide)).2
    ⟨fun e he h => absurd h (hs e he), fun e he _ =>
      ⟨fun _ h => absurd h (hs e he), fun h => absurd h (hb e he)⟩⟩

/-- A 4-bit and an 8-bit output packed from bit 0 on. -/
def packedEntries : List RuntimeEntry :=
  [⟨0, 2, "RxPDO", 0x1600, 0x7000, 1, 4, "Mode", some 0, some 0⟩,
    ⟨0, 2, "RxPDO", 0x1600, 0x7000, 2, 8, "Level", some 0, some 4⟩]

/-- The same with an 8-bit input at byte 2. -/
def packedEntriesIn : List RuntimeEntry :=
  packedEntries ++ [⟨0, 3, "TxPDO", 0x1A00, 0x6000, 1, 8, "Input", some 2, some 0⟩]

/-- **The spilled bits are lost.** For the packed outputs alone the arena is
one byte and misses bits 8 to 11; with the input behind them the arena has
room, and the cycle still leaves bit 8 of the output in the active buffer. -/
theorem packed_bits_lost : ¬ SizeCoversBits packedEntries ∧ ¬ BitsTransferred packedEntriesIn := by
  constructor
  · intro h
    have := h _ (List.mem_cons_of_mem _ List.mem_cons_self) 8 (by unfold RuntimeEntry.hasBit; decide)
    exact absurd this (by decide)
  · intro h
    have := transferred_iff.1 h _ (List.mem_cons_of_mem _ List.mem_cons_self) rfl 8
      (by unfold RuntimeEntry.hasBit; decide) (by decide)
    rw [← covered_build] at this
    exact absurd this (by decide)

end NekoEcat.L2.FreeRun
