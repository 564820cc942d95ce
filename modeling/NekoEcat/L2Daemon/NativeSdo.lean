import NekoEcat.Core.QNumber

/-!
# SDO transfers of the native backend

`EthercatNativeBackend::upload` and `download`: from the texts of a request to
the bytes on the bus and back. Texts are lists of characters.
-/
namespace NekoEcat.L2.NativeSdo
open NekoEcat.Bytes NekoEcat.QNumber

/-- `MAX_SDO_DATA_SIZE` -/
def maxSdoDataSize : Nat := 4096

/-- The branches of the comparison of `typeLower`. -/
inductive SdoType where
  | unsigned (bits : Nat)
  | signed (bits : Nat)
  | text
  | other
  deriving DecidableEq, Repr

/-- mirrors src/igh/EthercatNativeBackend.cpp:400-433, 484-546 -/
def sdoTypeOf (typeLower : List Char) : SdoType :=
  if typeLower = "uint8".toList ∨ typeLower = "u8".toList then .unsigned 8
  else if typeLower = "uint16".toList ∨ typeLower = "u16".toList then .unsigned 16
  else if typeLower = "uint32".toList ∨ typeLower = "u32".toList then .unsigned 32
  else if typeLower = "int8".toList ∨ typeLower = "s8".toList then .signed 8
  else if typeLower = "int16".toList ∨ typeLower = "s16".toList then .signed 16
  else if typeLower = "int32".toList ∨ typeLower = "s32".toList then .signed 32
  else if typeLower = "string".toList ∨ typeLower = "visible_string".toList then .text
  else .other

def sdoType (type : List Char) : SdoType := sdoTypeOf (lower (trim type))

/-- `QString::toLatin1` -/
def toLatin1 (cs : List Char) : Bytes := cs.map fun c => if c.toNat < 256 then UInt8.ofNat c.toNat else 63

/-- `QString::fromLatin1` -/
def fromLatin1 (bs : Bytes) : List Char := bs.map fun b => Char.ofNat b.toNat

/-- `"Invalid uint8 value"` and its like -/
def invalidValue (kind : String) (bits : Nat) : String := "Invalid " ++ kind ++ QString.number bits ++ " value"

/-- The bytes of a value.
mirrors src/igh/EthercatNativeBackend.cpp:482-556 -/
def encode (value type : List Char) : Except String Bytes :=
  match sdoType type with
  | .unsigned bits =>
    match toUInt 10 value with
    | none => .error (invalidValue "uint" bits)
    | some n => .ok (leBytes (bits / 8) n)
  | .signed bits =>
    match toInt 10 value with
    | none => .error (invalidValue "int" bits)
    | some n => .ok (leBytes (bits / 8) (n % 2 ^ bits).toNat)
  | .text => .ok ((toLatin1 value).take maxSdoDataSize)
  | .other =>
    let hex := trim value
    let hex := if startsWith0x hex then hex.drop 2 else hex
    .ok ((fromHex hex).take maxSdoDataSize)

/-- mirrors src/igh/EthercatNativeBackend.cpp:375-386, 468-479 -/
def address (index subIndex : List Char) : Except String (UInt16 × UInt8) :=
  match toUShort 16 index with
  | none => .error ("Invalid SDO index: " ++ String.ofList index)
  | some idx =>
    match toUShort 16 subIndex with
    | none => .error ("Invalid SDO subindex: " ++ String.ofList subIndex)
    | some sub => .ok (UInt16.ofNat idx, UInt8.ofNat sub)

/-- What one request meets: whether the master opens, what the library call
returns and, for an upload, the bytes of the device. -/
structure Bus where
  opens : Bool
  ret : Int
  abortCode : UInt32
  data : Bytes

/-- A transfer that was asked of the master. -/
structure Transfer where
  position : UInt16
  index : UInt16
  subindex : UInt8
  data : Bytes
  deriving DecidableEq, Repr

/-- `arg(abortCode, 8, 16, QChar('0'))` -/
def abortText (abortCode : UInt32) : String :=
  let ds := Nat.toDigits 16 abortCode.toNat
  String.ofList (List.replicate (8 - ds.length) '0' ++ ds)

def failed (what : String) (bus : Bus) : String :=
  QString.arg (QString.arg (what ++ " failed (ret=%1, abort=0x%2)") (QString.number bus.ret)) (abortText bus.abortCode)

/-- The transfer a download asks for, if any, and how it ends.
mirrors src/igh/EthercatNativeBackend.cpp:458-569 -/
def download (bus : Bus) (position : Int) (index subIndex value type : List Char) :
    Option Transfer × Except String Unit :=
  if !bus.opens then (none, .error "Failed to open EtherCAT master")
  else
    match address index subIndex with
    | .error e => (none, .error e)
    | .ok (idx, sub) =>
      match encode value type with
      | .error e => (none, .error e)
      | .ok data =>
        (some ⟨UInt16.ofNat (position % 2 ^ 16).toNat, idx, sub, data⟩,
          if bus.ret ≠ 0 then .error (failed "SDO download" bus) else .ok ())

/-- The number of little-endian bytes. -/
def ofLe : Bytes → Nat
  | [] => 0
  | b :: bs => b.toNat + 256 * ofLe bs

/-- The number in two's complement. -/
def ofLeSigned (bits : Nat) (bs : Bytes) : Int :=
  if ofLe bs < 2 ^ (bits - 1) then ofLe bs else (ofLe bs : Int) - 2 ^ bits

/-- The text of the bytes of an object.
mirrors src/igh/EthercatNativeBackend.cpp:400-441 -/
def format (type : List Char) (data : Bytes) : List Char :=
  if data = [] then []
  else
    match sdoType type with
    | .unsigned bits =>
      if data.length ≥ bits / 8 then QJson.intText (ofLe (data.take (bits / 8))) else hexDump data
    | .signed bits =>
      if data.length ≥ bits / 8 then QJson.intText (ofLeSigned bits (data.take (bits / 8))) else hexDump data
    | .text => fromLatin1 data
    | .other => hexDump data

/-- mirrors src/igh/EthercatNativeBackend.cpp:364-443 -/
def upload (bus : Bus) (index subIndex type : List Char) : Except String (List Char) :=
  if !bus.opens then .error "Failed to open EtherCAT master"
  else
    match address index subIndex with
    | .error e => .error e
    | .ok _ =>
      if bus.ret ≠ 0 then .error (failed "SDO upload" bus)
      else .ok (format type (bus.data.take maxSdoDataSize))

/-- The widths of the integer types. -/
theorem sdoType_bits {type : List Char} {bits : Nat} (h : sdoType type = .unsigned bits ∨ sdoType type = .signed bits) :
    bits = 8 ∨ bits = 16 ∨ bits = 32 := by
  unfold sdoType at h
  generalize lower (trim type) = typeLower at h
  unfold sdoTypeOf at h
  repeat' split at h
  all_goals simp only [SdoType.unsigned.injEq, SdoType.signed.injEq, reduceCtorEq, or_false, false_or] at h
  all_goals omega

end NekoEcat.L2.NativeSdo
