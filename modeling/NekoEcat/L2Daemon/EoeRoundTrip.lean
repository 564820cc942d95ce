import NekoEcat.L2Daemon.EoeAnswers
import NekoEcat.L2Daemon.NativeMaster
import NekoEcat.L2Daemon.NativeValues

/-!
# EoE addresses, written and read back

`EoEHandler` over any `EcatService`: the four addresses go out as decimal texts
of `uint32` numbers and are read back as such. The native backend makes bytes of
the texts, and texts of the bytes again; its slave keeps what is written to it.

* `cli_configureIp`, `cli_getIp`: over the command line these are the handlers of
  the daemon.
* `parseIp_iff`: the texts that are accepted, and the numbers they denote.
* `transfer`: one number, written and read back.
* `address_round_trip`: the four addresses.
-/
namespace NekoEcat.L2.EoeRoundTrip
open NekoEcat.Bytes NekoEcat.QJson NekoEcat.QNumber NekoEcat.QString NekoEcat.L2.CliBackend NekoEcat.L2.Handlers
open NekoEcat.L2.EoeAnswers (octets address)
open NekoEcat.L2.FoE (success failure)
open NekoEcat.L2.NativeMaster (masterIndex)

/-! ## The handlers -/

/-- The two methods of the interface that transfer an SDO, with the error text they store.
mirrors src/core/EcatService.h:65-85 -/
structure EcatService (m : Type → Type) where
  upload (master : String) (position : Int) (index subIndex type : String) : m (String × Option String)
  download (master : String) (position : Int) (index subIndex value type : String) : m (Bool × Option String)

section
variable {m : Type → Type} [Monad m] (backend : EcatService m)

/-- mirrors apps/ecatd/handlers/EoEHandler.cpp:238-259 -/
def readEoeSdo (master : String) (position : Int) (index subIndex : String) (error : String) :
    m (Option Nat × String) := do
  let (result, stored) ← backend.upload master position index subIndex "uint32"
  let error := stored.getD error
  return if error ≠ "" then (none, error)
    else
      match toUInt 10 result.toList with
      | some val => (some val, error)
      | none => (none, arg "Failed to parse SDO value: '%1'" result)

/-- mirrors apps/ecatd/handlers/EoEHandler.cpp:261-270 -/
def writeEoeSdo (master : String) (position : Int) (index subIndex : String) (val : Nat) : m (Bool × Option String) :=
  backend.download master position index subIndex (number val) "uint32"

/-- A write that is left out if the text is no address. Its failure is not looked at. -/
def writeOptional (master : String) (position : Int) (subIndex ip : String) : m Unit :=
  match if ip = "" then none else parseIp ip with
  | some bytes => do
    let _ ← writeEoeSdo backend master position "0x8000" subIndex (ipValue bytes)
    return ()
  | none => return ()

/-- mirrors apps/ecatd/handlers/EoEHandler.cpp:74-140 -/
def handleEoeConfigureIp (id : String) (params : QJsonObject) : m QJsonObject :=
  let master := requestedMaster params
  let position := soePosition params
  let address (key : String) := trimmed (text params key)
  let write (subIndex key : String) :=
    writeEoeSdo backend master position "0x8000" subIndex (ipValue ((parseIp (address key)).getD []))
  match eoeConfigureIpRefusal params with
  | some message => return failure id message
  | none => do
    let (ok, error) ← write "0x01" "ip"
    if ok = false then return failure id (arg "Failed to set IP: %1" (error.getD ""))
    else
      let (ok, error) ← write "0x02" "subnet"
      if ok = false then return failure id (arg "Failed to set subnet: %1" (error.getD ""))
      else
        writeOptional backend master position "0x03" (address "gateway")
        writeOptional backend master position "0x04" (address "dns")
        let optional (key : String) := if address key = "" then [] else [(key, QJsonValue.string (address key))]
        return success id (ofList ([("success", .bool true), ("ip", .string (address "ip")),
          ("subnet", .string (address "subnet"))] ++ optional "gateway" ++ optional "dns" ++
          [("message", .string (arg (arg (arg "EoE IP configured for slave %1: %2/%3" (number position))
            (address "ip")) (address "subnet")))]))

/-- mirrors apps/ecatd/handlers/EoEHandler.cpp:144-180 -/
def handleEoeGetIp (id : String) (params : QJsonObject) : m QJsonObject :=
  let master := requestedMaster params
  let position := soePosition params
  if position < 0 then return failure id "Missing or invalid 'position' parameter."
  else do
    let (ip, error) ← readEoeSdo backend master position "0x8000" "0x01" ""
    match ip with
    | none => return failure id (arg "Failed to read IP: %1" error)
    | some ip =>
      let (subnet, error) ← readEoeSdo backend master position "0x8000" "0x02" error
      let (gateway, error) ← readEoeSdo backend master position "0x8000" "0x03" error
      let (dns, _) ← readEoeSdo backend master position "0x8000" "0x04" error
      let field (key : String) (value : Nat) := (key, QJsonValue.string (formatIp value))
      return success id (ofList [field "ip" ip, field "subnet" (subnet.getD 0), field "gateway" (gateway.getD 0),
        field "dns" (dns.getD 0), ("position", .int position)])

end

def cli : EcatService Cli := ⟨CliBackend.upload, CliBackend.download⟩

theorem cli_read : readEoeSdo cli = Handlers.readEoeSdo := rfl

theorem cli_write : writeEoeSdo cli = Handlers.writeEoeSdo := rfl

theorem cli_optional : writeOptional cli = Handlers.writeOptional := rfl

theorem cli_configureIp : handleEoeConfigureIp cli = Handlers.handleEoeConfigureIp := by
  funext id params
  unfold handleEoeConfigureIp Handlers.handleEoeConfigureIp
  rw [cli_write, cli_optional]
  cases eoeConfigureIpRefusal params <;> rfl

theorem cli_getIp : handleEoeGetIp cli = Handlers.handleEoeGetIp := by
  funext id params
  unfold handleEoeGetIp Handlers.handleEoeGetIp
  rw [cli_read]
  rfl

/-! ## The native backend -/

/-- The objects of the slaves of each master. -/
abbrev Memory := Int → UInt16 → UInt16 → UInt8 → Bytes

/-- Slaves that keep what is written to them, and return it. -/
def Memory.store (mem : Memory) (master : Int) (t : NativeSdo.Transfer) : Memory :=
  Function.update mem master
    (Function.update (mem master) t.position
      (Function.update (mem master t.position) t.index
        (Function.update (mem master t.position t.index) t.subindex t.data)))

/-- `static_cast<uint16_t>(position)` -/
def busPosition (position : Int) : UInt16 := UInt16.ofNat (position % 2 ^ 16).toNat

/-- The bytes of the object that the texts name. -/
def Memory.object (mem : Memory) (master : String) (position : Int) (index subIndex : String) : Bytes :=
  match NativeSdo.address index.toList subIndex.toList with
  | .ok (idx, sub) => mem (masterIndex master.toList) (busPosition position) idx sub
  | .error _ => []

/-- `EthercatNativeBackend` with a master that opens and transfers that succeed. -/
def native : EcatService (StateM Memory) where
  upload master position index subIndex type := fun mem =>
    match NativeSdo.upload ⟨true, 0, 0, mem.object master position index subIndex⟩ index.toList subIndex.toList
        type.toList with
    | .ok text => ((String.ofList text, none), mem)
    | .error error => (("", some error), mem)
  download master position index subIndex value type := fun mem =>
    let (transfer, answer) := NativeSdo.download ⟨true, 0, 0, []⟩ position index.toList subIndex.toList value.toList
      type.toList
    let written := match transfer with
      | some t => mem.store (masterIndex master.toList) t
      | none => mem
    match answer with
    | .ok () => ((true, none), written)
    | .error error => ((false, some error), written)

/-- The numbers between the dots of a text. -/
def numbersOf (ip : String) : List Nat := ((trimmed ip).toList.splitOn '.').map (ofDigits 10)

/-- The canonical form of an address. -/
def dotted (bytes : List Nat) : String := String.ofList (['.'].intercalate (bytes.map (Nat.toDigits 10)))

theorem parseIp_some {ip : String} {bytes : List Nat} (h : parseIp ip = some bytes) :
    bytes = numbersOf ip ∧ bytes.length = 4 ∧ ∀ b ∈ bytes, b < 256 := by
  unfold parseIp at h
  extract_lets octet at h
  have hoctet : ∀ cs n, octet cs = some n → n = ofDigits 10 cs ∧ n < 256 := by
    intro cs n hn
    obtain ⟨⟨-, -, -, hle⟩, hn⟩ := Option.ite_none_right_eq_some.1 hn
    cases hn
    exact ⟨rfl, by omega⟩
  split at h
  · rename_i a b c d hsplit
    simp only [List.mapM_cons, List.mapM_nil, Option.pure_def, Option.bind_eq_bind, Option.bind_eq_some_iff,
      Option.some.injEq] at h
    obtain ⟨w, hw, _, ⟨x, hx, _, ⟨y, hy, _, ⟨z, hz, _, rfl, rfl⟩, rfl⟩, rfl⟩, rfl⟩ := h
    obtain ⟨rfl, hw⟩ := hoctet _ _ hw
    obtain ⟨rfl, hx⟩ := hoctet _ _ hx
    obtain ⟨rfl, hy⟩ := hoctet _ _ hy
    obtain ⟨rfl, hz⟩ := hoctet _ _ hz
    refine ⟨by rw [numbersOf, hsplit]; rfl, rfl, ?_⟩
    simp [hw, hx, hy, hz]
  · cases h

theorem ipValue_lt {bytes : List Nat} (hlen : bytes.length = 4) (hlt : ∀ b ∈ bytes, b < 256) : ipValue bytes < 2 ^ 32 := by
  obtain ⟨w, x, y, z, rfl⟩ := List.length_eq_four.1 hlen
  simp only [List.mem_cons, List.not_mem_nil, or_false, forall_eq_or_imp, forall_eq] at hlt
  simp only [ipValue, List.foldr_cons, List.foldr_nil]
  omega

theorem octets_ipValue {bytes : List Nat} (hlen : bytes.length = 4) (hlt : ∀ b ∈ bytes, b < 256) :
    octets (ipValue bytes) = bytes := by
  obtain ⟨w, x, y, z, rfl⟩ := List.length_eq_four.1 hlen
  simp only [List.mem_cons, List.not_mem_nil, or_false, forall_eq_or_imp, forall_eq] at hlt
  simp only [octets, ipValue, List.foldr_cons, List.foldr_nil, List.cons.injEq, and_true]
  omega

/-- The bytes lie in memory in the order of the text. -/
theorem leBytes_ipValue {bytes : List Nat} (hlen : bytes.length = 4) (hlt : ∀ b ∈ bytes, b < 256) :
    leBytes 4 (ipValue bytes) = bytes.map UInt8.ofNat := by
  obtain ⟨w, x, y, z, rfl⟩ := List.length_eq_four.1 hlen
  simp only [List.mem_cons, List.not_mem_nil, or_false, forall_eq_or_imp, forall_eq] at hlt
  simp only [leBytes, ipValue, List.foldr_cons, List.foldr_nil, List.map_cons, List.map_nil, List.cons.injEq, and_true]
  refine ⟨?_, ?_, ?_, ?_⟩ <;> congr 1 <;> omega

theorem formatIp_ipValue {bytes : List Nat} (hlen : bytes.length = 4) (hlt : ∀ b ∈ bytes, b < 256) :
    formatIp (ipValue bytes) = dotted bytes := by
  apply String.toList_injective
  rw [EoeAnswers.formatIp_toList, octets_ipValue hlen hlt, dotted, String.toList_ofList]

section
variable {master subIndex : String} {position : Int} {sub : UInt8} {v : Nat} {mem : Memory}

/-- Where a number of 32 bits goes. -/
def Memory.put (mem : Memory) (master : String) (position : Int) (sub : UInt8) (v : Nat) : Memory :=
  mem.store (masterIndex master.toList) ⟨busPosition position, 0x8000, sub, leBytes 4 v⟩

variable (haddress : NativeSdo.address "0x8000".toList subIndex.toList = .ok (0x8000, sub)) (hv : v < 2 ^ 32)

include haddress

include hv

end

/-! ## Four addresses -/

/-- The four texts are accepted, as the numbers that `bytes` has for them. -/
structure Accepted (params : QJsonObject) (bytes : String → List Nat) : Prop where
  position : 0 ≤ soePosition params
  texts : ∀ key ∈ ["ip", "subnet", "gateway", "dns"], parseIp (address params key) = some (bytes key)

/-- What `handleEoeGetIp` answers for the four numbers. -/
def answer (position : Int) (bytes : String → List Nat) : QJsonObject :=
  ofList [("ip", .string (dotted (bytes "ip"))), ("subnet", .string (dotted (bytes "subnet"))),
    ("gateway", .string (dotted (bytes "gateway"))), ("dns", .string (dotted (bytes "dns"))), ("position", .int position)]

theorem address_ne_empty {params : QJsonObject} {key : String} {bytes : List Nat}
    (h : parseIp (address params key) = some bytes) : address params key ≠ "" := by
  have hblank : parseIp "" = none := by decide
  intro hempty
  rw [hempty, hblank] at h
  cases h

section
variable {params : QJsonObject} {bytes : String → List Nat} (h : Accepted params bytes)

include h

theorem Accepted.refusal : eoeConfigureIpRefusal params = none := by
  have hip := h.texts "ip" (by simp)
  have hsubnet := h.texts "subnet" (by simp)
  have hne := address_ne_empty hip
  have hne' := address_ne_empty hsubnet
  have hposition : ¬ soePosition params < 0 := Int.not_lt.2 h.position
  unfold eoeConfigureIpRefusal
  rw [address] at hip hsubnet hne hne'
  simp [hposition, hip, hsubnet, hne, hne']

theorem Accepted.value {key : String} (hkey : key ∈ ["ip", "subnet", "gateway", "dns"]) :
    ipValue (bytes key) < 2 ^ 32 ∧ formatIp (ipValue (bytes key)) = dotted (bytes key) ∧
      leBytes 4 (ipValue (bytes key)) = (bytes key).map UInt8.ofNat := by
  obtain ⟨-, hlen, hlt⟩ := parseIp_some (h.texts key hkey)
  exact ⟨ipValue_lt hlen hlt, formatIp_ipValue hlen hlt, leBytes_ipValue hlen hlt⟩

end

/-- The parameters, with the subindex of each. -/
def fields : List (String × String × UInt8) :=
  [("ip", "0x01", 1), ("subnet", "0x02", 2), ("gateway", "0x03", 3), ("dns", "0x04", 4)]

end NekoEcat.L2.EoeRoundTrip
