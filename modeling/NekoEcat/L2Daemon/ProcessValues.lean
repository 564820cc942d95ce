import NekoEcat.Core.QArg
import NekoEcat.Core.Regex
import NekoEcat.L2Daemon.BitPacked
import NekoEcat.L2Daemon.CliBackend
import NekoEcat.L2Daemon.CStruct
import Mathlib.Data.List.Infix
import Mathlib.Data.Nat.Init

/-!
# Process values

Telemetry shows an entry's value as a decimal text read from the domain. An
entry of one bit is read at its bit position; the wider ones are read from
their byte offset on, wherever in that byte they start.

* `testBit_readLE`: the bits of an integer read from a buffer.
* `readEntryRawValue_eq`: the text for each width.
* `rawValue_iff`: exactly when it is the value of the entry's own bits.
-/
namespace NekoEcat.L2.FreeRun
open NekoEcat.Bytes NekoEcat.Regex

/-! ## Reading integers -/

/-- The integer in the `n` bytes from `i` on, the lowest byte first:
`EC_READ_U8` to `EC_READ_U64`.
mirrors .github/workflows/ci/ecrt_stub.h:39-44 -/
def readLE (b : Bytes) : Nat → Nat → Nat
  | _, 0 => 0
  | i, n + 1 => 2 ^ 8 * readLE b (i + 1) n + (rd b i).toNat

/-- `EC_READ_BIT(data, pos)` -/
def readBit (b : Bytes) (i pos : Nat) : Nat := ((rd b i).toNat >>> pos) % 2

/-- The integer formed by `w` bits from bit `k` of the image on, the lowest first. -/
def bitField (b : Bytes) (k w : Nat) : Nat := Nat.ofBits fun i : Fin w => imageBit b (k + i)

theorem imageBit_byte (b : Bytes) (i : Nat) {j : Nat} (hj : j < 8) :
    imageBit b (8 * i + j) = (rd b i).toNat.testBit j := by
  unfold imageBit
  rw [show (8 * i + j) / 8 = i by omega, show (8 * i + j) % 8 = j by omega]

theorem testBit_readLE (b : Bytes) (i n j : Nat) :
    (readLE b i n).testBit j = (decide (j < 8 * n) && imageBit b (8 * i + j)) := by
  induction n generalizing i j with
  | zero => simp [readLE]
  | succ n ih =>
    rw [readLE, Nat.testBit_two_pow_mul_add _ (rd b i).toNat_lt]
    by_cases hj : j < 8
    · rw [if_pos hj, imageBit_byte b i hj, decide_eq_true (by omega), Bool.true_and]
    · rw [if_neg hj, ih, show 8 * (i + 1) + (j - 8) = 8 * i + j by omega]
      congr 1
      exact decide_eq_decide.2 (by omega)

theorem testBit_bitField (b : Bytes) (k w j : Nat) :
    (bitField b k w).testBit j = (decide (j < w) && imageBit b (k + j)) := by
  unfold bitField
  rw [Nat.testBit_ofBits]
  by_cases hj : j < w <;> simp [hj]

/-- An integer read from a byte boundary is the bit field that starts there. -/
theorem readLE_eq (b : Bytes) (i n : Nat) : readLE b i n = bitField b (8 * i) (8 * n) := by
  apply Nat.eq_of_testBit_eq
  intro j
  rw [testBit_readLE, testBit_bitField]

theorem readBit_eq (b : Bytes) (i : Nat) {pos : Nat} (h : pos < 8) :
    readBit b i pos = bitField b (8 * i + pos) 1 := by
  apply Nat.eq_of_testBit_eq
  intro j
  unfold readBit
  rw [testBit_bitField, show (2 : Nat) = 2 ^ 1 from rfl, Nat.testBit_mod_two_pow, Nat.testBit_shiftRight]
  by_cases hj : j < 1
  · obtain rfl : j = 0 := by omega
    rw [Nat.add_zero, Nat.add_zero, imageBit_byte b i h]
  · simp [hj]

/-- Two fields have one value exactly when they agree bit by bit. -/
theorem bitField_eq_iff {b : Bytes} {k k' w : Nat} :
    bitField b k w = bitField b k' w ↔ ∀ i < w, imageBit b (k + i) = imageBit b (k' + i) := by
  constructor
  · intro h i hi
    have := congrArg (·.testBit i) h
    simpa only [testBit_bitField, decide_eq_true hi, Bool.true_and] using this
  · intro h
    apply Nat.eq_of_testBit_eq
    intro j
    rw [testBit_bitField, testBit_bitField]
    by_cases hj : j < w
    · rw [h j hj]
    · simp [hj]

/-! ## The texts of an entry -/

/-- The buffer pointer and the offset are there, and the offset is a real one. -/
def readable (domainData : Option Bytes) (entry : RuntimeEntry) : Option (Bytes × Nat) :=
  match domainData, entry.offset with
  | some data, some offset => if offset = 0xFFFFFFFF then none else some (data, offset.toNat)
  | _, _ => none

/-- mirrors apps/ecatd/FreeRunController.cpp:892-913 -/
def readEntryRawValue (domainData : Option Bytes) (entry : RuntimeEntry) : String :=
  match readable domainData entry with
  | none => ""
  | some (data, i) =>
    if entry.bitLength = 1 then QString.number (readBit data i (entry.bitPosition.getD 0).toNat)
    else if entry.bitLength = 8 then QString.number (readLE data i 1)
    else if entry.bitLength = 16 then QString.number (readLE data i 2)
    else if entry.bitLength = 32 then QString.number (readLE data i 4)
    else if entry.bitLength = 64 then QString.number (readLE data i 8)
    else QString.arg "raw %1 bit" (QString.number entry.bitLength.toNat)

/-- `real` is `QString::number(value, 'f', 6)` of the IEEE single with the given bits.
mirrors apps/ecatd/FreeRunController.cpp:915-926 -/
def readEntryDecodedValue (real : Nat → String) (domainData : Option Bytes) (entry : RuntimeEntry) : String :=
  match readable domainData entry with
  | none => ""
  | some (data, i) =>
    if entry.bitLength = 32 then real (readLE data i 4) else readEntryRawValue domainData entry

/-- `\s*\[[^\]]+\]\s*` -/
def bracketed : Re :=
  .seq [.many CliBackend.isBlank, .lit ['['], .plus (· != ']'), .lit [']'], .many CliBackend.isBlank]

/-- `QString::remove` of every match, `skip` characters of one still to be dropped. -/
def removeMatches (r : Re) : Nat → List Char → List Char
  | _, [] => []
  | skip + 1, _ :: s => removeMatches r skip s
  | 0, c :: s =>
    match matchStart r (c :: s) with
    | some (_, rest) => removeMatches r (s.length - rest.length) s
    | none => c :: removeMatches r 0 s

/-- mirrors apps/ecatd/FreeRunController.cpp:849-854 -/
def normalizedEntryName (name : String) : String :=
  QString.trimmed (String.ofList (removeMatches bracketed 0 name.toList))

/-- `QString("0x%1").arg(n, w, 16, QLatin1Char('0'))` -/
def hexAddress (w n : Nat) : String := "0x" ++ String.ofList (CStruct.hexField w n)

/-- mirrors apps/ecatd/FreeRunController.cpp:856-865 -/
def entryDisplayName (entry : RuntimeEntry) : String :=
  let cleaned := normalizedEntryName entry.name
  if cleaned ≠ "" then cleaned
  else entry.direction ++ " " ++ hexAddress 4 entry.index.toNat ++ ":" ++ hexAddress 2 entry.subindex.toNat

/-- The keywords are ASCII: no other letter's lower case completes one.
mirrors apps/ecatd/FreeRunController.cpp:867-890 -/
def entryMeaning (entry : RuntimeEntry) : String :=
  let name := QNumber.lower (entryDisplayName entry).toList
  let contains (word : String) : Bool := decide (word.toList <:+: name)
  if contains "flow" then "Flow"
  else if contains "pressure" then "Pressure"
  else if contains "temperature" then "Temperature"
  else if contains "position" then "Position"
  else if contains "exception" || contains "status" then "Status"
  else if contains "actuator" || contains "valve" then "Actuator"
  else entry.direction

/-- `p ? static_cast<int>(*p) : -1` -/
def pointee (p : Option UInt32) : Int := p.elim (-1) fun n => n.toInt32.toInt

/-- mirrors apps/ecatd/FreeRunController.cpp:829-845 -/
def entryTelemetry (real : Nat → String) (domainData : Option Bytes) (entry : RuntimeEntry) : QJsonObject :=
  QJson.ofList
    [("slave", .int entry.slavePosition.toNat), ("sync", .int entry.syncIndex.toNat),
      ("direction", .string entry.direction), ("pdo", .string (hexAddress 4 entry.pdoIndex.toNat)),
      ("index", .string (hexAddress 4 entry.index.toNat)), ("subindex", .string (hexAddress 2 entry.subindex.toNat)),
      ("bits", .int entry.bitLength.toNat), ("offset", .int (pointee entry.offset)),
      ("bit", .int (pointee entry.bitPosition)), ("name", .string entry.name),
      ("displayName", .string (entryDisplayName entry)), ("rawValue", .string (readEntryRawValue domainData entry)),
      ("decodedValue", .string (readEntryDecodedValue real domainData entry)), ("meaning", .string (entryMeaning entry))]

/-- mirrors apps/ecatd/FreeRunController.cpp:824-847 -/
def entryTelemetryLocked (real : Nat → String) (domainData : Option Bytes) (entries : List RuntimeEntry) :
    List QJsonObject := entries.map (entryTelemetry real domainData)

/-! ## The value shown -/

/-- What the telemetry row of an entry shows as its raw value. -/
def shownRaw (row : QJsonObject) : QJsonValue := QJson.value row "rawValue"

theorem shownRaw_entryTelemetry (real : Nat → String) (domainData : Option Bytes) (entry : RuntimeEntry) :
    shownRaw (entryTelemetry real domainData entry) = .string (readEntryRawValue domainData entry) := by
  unfold shownRaw entryTelemetry QJson.ofList
  simp only [List.foldl_cons, List.foldl_nil, QJson.value_insert]
  rfl

/-- The widths that are read as integers. -/
def widths : List UInt8 := [1, 8, 16, 32, 64]

/-- The wider entries are read from their byte offset on. -/
theorem readEntryRawValue_eq {data : Bytes} {entry : RuntimeEntry} {i : Nat}
    (hr : readable (some data) entry = some (data, i)) (hp : entry.bitPos < 8) (hw : entry.bitLength ∈ widths) :
    readEntryRawValue (some data) entry = QString.number (bitField data
      (8 * i + if entry.bitLength = 1 then entry.bitPos else 0) entry.bitLength.toNat) := by
  unfold readEntryRawValue
  rw [hr]
  simp only [widths, List.mem_cons, List.not_mem_nil, or_false] at hw
  rcases hw with hw | hw | hw | hw | hw <;> rw [hw]
  · exact congrArg (fun n : Nat => QString.number n) (readBit_eq data i hp)
  all_goals exact congrArg (fun n : Nat => QString.number n) (readLE_eq data i _)

/-- **The value shown, exactly.** The telemetry row of an entry shows the
unsigned integer of the entry's own bits if and only if its offset is not the
unset one and either the entry has one bit or the bits from its byte boundary
on agree with its own. -/
theorem rawValue_iff (real : Nat → String) (data : Bytes) (entries : List RuntimeEntry) {n : Nat}
    {entry : RuntimeEntry} (hn : entries[n]? = some entry) (hw : entry.bitLength ∈ widths) {offset bit : UInt32}
    (ho : entry.offset = some offset) (hb : entry.bitPosition = some bit) (hbit : bit.toNat < 8) :
    (entryTelemetryLocked real (some data) entries)[n]?.map shownRaw =
        some (.string (QString.number (bitField data (8 * offset.toNat + bit.toNat) entry.bitLength.toNat))) ↔
      offset ≠ 0xFFFFFFFF ∧ (entry.bitLength = 1 ∨ ∀ i < entry.bitLength.toNat,
        imageBit data (8 * offset.toNat + i) = imageBit data (8 * offset.toNat + bit.toNat + i)) := by
  have hpos : entry.bitPos = bit.toNat := by unfold RuntimeEntry.bitPos; rw [hb]; rfl
  unfold entryTelemetryLocked
  rw [List.getElem?_map, hn, Option.map_some, Option.map_some, shownRaw_entryTelemetry, Option.some_inj,
    QJsonValue.string.injEq]
  by_cases hset : offset = 0xFFFFFFFF
  · have hread : readEntryRawValue (some data) entry = "" := by
      unfold readEntryRawValue readable
      simp only [ho, if_pos hset]
    rw [hread]
    simp only [hset, ne_eq, not_true_eq_false, false_and, iff_false]
    intro h
    have := congrArg (fun s => QNumber.integer 10 s.toList) h
    simp only [QString.number, String.toList_ofList, QNumber.integer_intText] at this
    cases this
  · have hr : readable (some data) entry = some (data, offset.toNat) := by
      unfold readable
      simp only [ho, if_neg hset]
    rw [readEntryRawValue_eq hr (by omega) hw, hpos, and_iff_right hset]
    by_cases h1 : entry.bitLength = 1
    · rw [if_pos h1]
      simp only [h1, true_or]
    · rw [if_neg h1, or_iff_right h1, ← bitField_eq_iff, Nat.add_zero]
      exact ⟨fun h => Int.ofNat.inj (QString.number_injective h), fun h => by rw [h]⟩

/-- The statusword of the aligned drive, read from the four bytes of its domain. -/
theorem rawValue_iff_aligned :
    (entryTelemetryLocked (fun _ => "") (some [0x37, 0x06, 0x0F, 0x00]) alignedEntries)[0]?.map shownRaw =
      some (.string (QString.number (bitField [0x37, 0x06, 0x0F, 0x00]
        (8 * (0 : UInt32).toNat + (0 : UInt32).toNat) (16 : UInt8).toNat))) :=
  have hn : alignedEntries[0]? =
    some ⟨0, 3, "TxPDO", 0x1A00, 0x6041, 0, 16, "Statusword", some 0, some 0⟩ := rfl
  have ho : (some 0 : Option UInt32) = some 0 := rfl
  (rawValue_iff _ _ alignedEntries hn (by decide) ho ho (by decide)).2
    ⟨by decide, .inr fun i _ => by rw [UInt32.toNat_zero, Nat.mul_zero, Nat.add_zero]⟩

/-- **The wrong byte is shown.** The 8-bit output that starts at bit 4 of the
bytes 0x21 0x03 has the value 0x32; its row shows 0x21. -/
theorem packed_value_shifted :
    (entryTelemetryLocked (fun _ => "") (some [0x21, 0x03]) packedEntries)[1]?.map shownRaw =
        some (.string (QString.number 0x21)) ∧
      bitField [0x21, 0x03] (8 * 0 + 4) 8 = 0x32 ∧
      (entryTelemetryLocked (fun _ => "") (some [0x21, 0x03]) packedEntries)[1]?.map shownRaw ≠
        some (.string (QString.number (bitField [0x21, 0x03] (8 * 0 + 4) 8))) := by
  have hfield : bitField [0x21, 0x03] (8 * 0 + 4) 8 = 0x32 := by decide
  have hshown : (entryTelemetryLocked (fun _ => "") (some [0x21, 0x03]) packedEntries)[1]?.map shownRaw =
      some (.string (QString.number 0x21)) := by
    refine congrArg some ((shownRaw_entryTelemetry _ _ _).trans ?_)
    exact congrArg QJsonValue.string (readEntryRawValue_eq (i := 0) rfl (by decide) (by decide))
  refine ⟨hshown, hfield, ?_⟩
  rw [hshown, hfield]
  intro h
  have := QString.number_injective (QJsonValue.string.inj (Option.some.inj h))
  exact absurd this (by decide)

end NekoEcat.L2.FreeRun
