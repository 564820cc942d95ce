import NekoEcat.Core.QHash
import NekoEcat.Core.QString
import NekoEcat.Core.Trace
import Mathlib.Data.List.TakeWhile

/-!
# The variables of the OPC UA server

Each slave of a list gets ten node ids from its place in the list, and seven more for
its SDO variables that are twenty behind. Adding a node whose id is taken changes
nothing, and no node is ever removed. The server reads the SDO of the slave whose bus
position is the place in the list, and finds the variable of an answer by the position
it comes from.

* `value_addNodes`: what is at an id after nodes are added.
* `ids_iff`: lists whose variables have ids of their own.
* `statics_iff`, `reads_iff`: what an update shows and reads.
* `answered`: what an answer changes.
* `own_slave_iff`: a run in which every variable shows its own slave.
* `third_slave`, `replaced_slave`: runs that fail.
-/
namespace NekoEcat.L4.OpcUa
open NekoEcat.Trace NekoEcat.QHash
open NekoEcat.QString (arg)

/-! ## The address space -/

/-- A node below its parent; `none` is the value of an object. -/
structure Node where
  parent : Nat
  displayName : String
  value : Option String
  deriving DecidableEq

abbrev AddressSpace := QHash Nat Node

/-- `UA_Server_addObjectNode`, `UA_Server_addVariableNode`: fails if the id is taken. -/
def addNode (space : AddressSpace) (id : Nat) (node : Node) : AddressSpace :=
  match space.value id with
  | none => space.insert id node
  | some _ => space

/-- `UA_Server_writeValue`: fails if there is no such variable. -/
def writeValue (space : AddressSpace) (id : Nat) (v : String) : AddressSpace :=
  match space.value id with
  | none => space
  | some node => if node.value = none then space else space.insert id { node with value := some v }

/-- `UA_STRING_ALLOC`: the text up to the first NUL. -/
def uaString (v : String) : String := String.ofList (v.toList.takeWhile fun c => c != Char.ofNat 0)

/-! ## The server -/

/-- The fields the server shows.
mirrors src/core/EthercatTypes.h:19-24 -/
structure SlaveInfo where
  position : Int
  state : String
  flags : String
  name : String
  deriving DecidableEq

structure SdoDef where
  name : String
  index : String
  sub : String
  deriving DecidableEq

/-- mirrors apps/ecat-studio/services/OpcUaServer.cpp:150-154 -/
def sdos : List SdoDef :=
  [⟨"DeviceType", "0x1000", "0"⟩, ⟨"ErrorRegister", "0x1001", "0"⟩, ⟨"DeviceName", "0x1008", "0"⟩,
    ⟨"VendorID", "0x1018", "1"⟩, ⟨"ProductCode", "0x1018", "2"⟩, ⟨"Revision", "0x1018", "3"⟩, ⟨"SerialNo", "0x1018", "4"⟩]

structure MonitoredSdo where
  slavePos : Int
  index : String
  subIndex : String
  deriving DecidableEq

structure Server where
  slaves : List SlaveInfo
  space : AddressSpace
  sdoCache : QHash String String
  sdoNodeMap : QHash String (Nat × Nat)
  monitoredSdos : List MonitoredSdo

def sdoKey (pos : Int) (index sub : String) : String := arg (arg (arg "%1:%2:%3" (toString pos)) index) sub

def nodeBase (i : Nat) : Nat := 4000 + i * 10

def Server.addNode (s : Server) (id : Nat) (node : Node) : Server := { s with space := OpcUa.addNode s.space id node }

def Server.addStatic (s : Server) (i sub : Nat) (n v : String) : Server :=
  s.addNode (nodeBase i + sub) ⟨nodeBase i, n, some (uaString v)⟩

/-- The body of the loop over the SDOs. -/
def Server.addSdo (s : Server) (i : Nat) (d : SdoDef × Nat) : Server :=
  let key := sdoKey i d.1.index d.1.sub
  { s with
    sdoCache := s.sdoCache.insert key "—"
    monitoredSdos := s.monitoredSdos ++ [MonitoredSdo.mk i d.1.index d.1.sub]
    sdoNodeMap := s.sdoNodeMap.insert key (nodeBase i, d.2) }.addNode
    (nodeBase i + 20 + d.2) ⟨nodeBase i + 9, d.1.name, some "—"⟩

/-- mirrors apps/ecat-studio/services/OpcUaServer.cpp:144-196 -/
def Server.addSdoNodes (s : Server) (i : Nat) : Server :=
  sdos.zipIdx.foldl (fun s d => s.addSdo i d) (s.addNode (nodeBase i + 9) ⟨nodeBase i, "SDO", none⟩)

/-- The body of the loop over the slaves. -/
def Server.addSlave (s : Server) (sl : SlaveInfo × Nat) : Server :=
  let s := s.addNode (nodeBase sl.2) ⟨3000, uaString sl.1.name, none⟩
  let s := s.addStatic sl.2 1 "Position" (toString sl.1.position)
  let s := s.addStatic sl.2 2 "Name" sl.1.name
  let s := s.addStatic sl.2 3 "State" sl.1.state
  let s := s.addStatic sl.2 4 "Flags" sl.1.flags
  s.addSdoNodes sl.2

/-- mirrors apps/ecat-studio/services/OpcUaServer.cpp:102-141 -/
def Server.addSlaveNodes (s : Server) : Server := s.slaves.zipIdx.foldl Server.addSlave s

/-- mirrors apps/ecat-studio/services/OpcUaServer.cpp:199-205 -/
def Server.removeSlaveNodes (s : Server) : Server := { s with monitoredSdos := [], sdoNodeMap := empty }

/-- mirrors apps/ecat-studio/services/OpcUaServer.cpp:250-257 -/
def Server.updateSlaves (s : Server) (slaves : List SlaveInfo) : Server :=
  { s with slaves }.removeSlaveNodes.addSlaveNodes

/-- The reads of one poll.
mirrors apps/ecat-studio/services/OpcUaServer.cpp:242-247 -/
def Server.pollSdoValues (s : Server) : List MonitoredSdo := s.monitoredSdos

/-- mirrors apps/ecat-studio/services/OpcUaServer.cpp:214-238 -/
def Server.sdoValue (s : Server) (pos : Int) (idx sub val : String) : Server :=
  let key := sdoKey pos idx sub
  if s.sdoCache.value key = none then s
  else
    let s := { s with sdoCache := s.sdoCache.insert key val }
    match s.sdoNodeMap.value key with
    | none => s
    | some (base, sdoIdx) => { s with space := writeValue s.space (base + 20 + sdoIdx) (uaString val) }

inductive Label where
  | updateSlaves (slaves : List SlaveInfo)
  /-- a value that was read, by the server or another part -/
  | sdoValue (pos : Int) (idx sub val : String)

def step (s : Server) : Label → Server
  | .updateSlaves slaves => s.updateSlaves slaves
  | .sdoValue pos idx sub val => s.sdoValue pos idx sub val

/-- The server when it has started; 85 is the folder of all objects.
mirrors apps/ecat-studio/services/OpcUaServer.cpp:82-99 -/
def start : Server where
  slaves := []
  space := ((empty.insert 1000 ⟨85, "EtherCAT", none⟩).insert 2000 ⟨1000, "Master0", none⟩).insert 3000 ⟨2000, "Slaves", none⟩
  sdoCache := empty
  sdoNodeMap := empty
  monitoredSdos := []

/-! ## What the variables are for -/

/-- The variables of a slave. -/
inductive Variable where
  | static (k : Fin 4)
  | sdo (k : Fin 7)
  deriving DecidableEq

/-- The id of a variable of the slave at a place of the list. -/
def Variable.id (i : Nat) : Variable → Nat
  | .static k => nodeBase i + 1 + k
  | .sdo k => nodeBase i + 20 + k

/-- What the static variables of a slave are to show. -/
def SlaveInfo.text (sl : SlaveInfo) : Fin 4 → String
  | 0 => toString sl.position
  | 1 => sl.name
  | 2 => sl.state
  | 3 => sl.flags

/-- What a variable shows. -/
def Server.shown (s : Server) (i : Nat) (v : Variable) : Option String := (s.space.value (v.id i)).bind (·.value)

/-- The variables of the list have ids of their own. -/
def Server.Ids (s : Server) : Prop :=
  ∀ i < s.slaves.length, ∀ j < s.slaves.length, ∀ v w : Variable, v.id i = w.id j → i = j ∧ v = w

/-- The static variables of each slave show the slave. -/
def Server.Statics (s : Server) : Prop :=
  ∀ i sl, s.slaves[i]? = some sl → ∀ k, s.shown i (.static k) = some (sl.text k)

/-- The SDOs are read from the slaves of the list, at their positions. -/
def Server.Reads (s : Server) : Prop :=
  s.pollSdoValues = s.slaves.flatMap fun sl => sdos.map fun d => ⟨sl.position, d.index, d.sub⟩

/-- A value of an SDO is of the slave at a place of the list. -/
def Server.IsOf (s : Server) (pos : Int) (idx sub : String) (i : Nat) (k : Fin 7) : Prop :=
  (∃ sl, s.slaves[i]? = some sl ∧ sl.position = pos) ∧ ∃ name, sdos[(k : Nat)]? = some ⟨name, idx, sub⟩

/-- Such a value is shown by its variable, and no other variable changes. -/
def Server.Answered (s : Server) (pos : Int) (idx sub val : String) : Prop :=
  ∀ i k, s.IsOf pos idx sub i k →
    (s.sdoValue pos idx sub val).shown i (.sdo k) = some val ∧
    ∀ j < s.slaves.length, ∀ v : Variable, ¬ (j = i ∧ v = .sdo k) →
      (s.sdoValue pos idx sub val).shown j v = s.shown j v

def Plain (text : String) : Prop := Char.ofNat 0 ∉ text.toList

/-- The static variables that are there for a place of the list already show what
they are to show; a new one can show its text. -/
def Server.Fits (s : Server) (i : Nat) (sl : SlaveInfo) : Prop :=
  ∀ k : Fin 4, match s.space.value (Variable.id i (.static k)) with
    | some node => node.value = some (sl.text k)
    | none => Plain (sl.text k)

/-- A list has at most two slaves, each at its place; values have no NUL. -/
def Meets (s : Server) : Label → Prop
  | .updateSlaves slaves => slaves.length ≤ 2 ∧ ∀ (i : Nat) sl, slaves[i]? = some sl → sl.position = i ∧ s.Fits i sl
  | .sdoValue pos idx sub val => (∃ i k, s.IsOf pos idx sub i k) → Plain val

/-- **Every variable shows its own slave.** -/
structure Kept (labels : List Label) : Prop where
  ids : ∀ pre, pre <+: labels → (exec step start pre).Ids
  statics : ∀ pre slaves, pre ++ [.updateSlaves slaves] <+: labels → ((exec step start pre).updateSlaves slaves).Statics
  reads : ∀ pre, pre <+: labels → (exec step start pre).Reads
  answers : ∀ pre pos idx sub val, pre ++ [.sdoValue pos idx sub val] <+: labels →
    (exec step start pre).Answered pos idx sub val

/-! ## Nodes that are added -/

def addNodes (space : AddressSpace) (nodes : List (Nat × Node)) : AddressSpace :=
  nodes.foldl (fun space e => addNode space e.1 e.2) space

/-- The nodes of one slave. -/
def slaveNodes (i : Nat) (sl : SlaveInfo) : List (Nat × Node) :=
  [(nodeBase i, ⟨3000, uaString sl.name, none⟩),
    (nodeBase i + 1, ⟨nodeBase i, "Position", some (uaString (toString sl.position))⟩),
    (nodeBase i + 2, ⟨nodeBase i, "Name", some (uaString sl.name)⟩),
    (nodeBase i + 3, ⟨nodeBase i, "State", some (uaString sl.state)⟩),
    (nodeBase i + 4, ⟨nodeBase i, "Flags", some (uaString sl.flags)⟩),
    (nodeBase i + 9, ⟨nodeBase i, "SDO", none⟩)] ++
  sdos.zipIdx.map fun d => (nodeBase i + 20 + d.2, ⟨nodeBase i + 9, d.1.name, some "—"⟩)

/-- The keys of one slave, with what they lead to. -/
def slaveKeys (i : Nat) : List (String × (Nat × Nat)) :=
  sdos.zipIdx.map fun d => (sdoKey i d.1.index d.1.sub, (nodeBase i, d.2))

def slaveReads (i : Nat) : List MonitoredSdo := sdos.zipIdx.map fun d => ⟨i, d.1.index, d.1.sub⟩

/-- A server with more nodes, keys and reads. -/
def Server.added (s : Server) (nodes : List (Nat × Node)) (keys : List (String × (Nat × Nat))) (reads : List MonitoredSdo) :
    Server :=
  { s with
    space := addNodes s.space nodes
    sdoCache := insertEach (fun e => some (e.1, "—")) s.sdoCache keys
    sdoNodeMap := insertEach (fun e => some (e.1, e.2)) s.sdoNodeMap keys
    monitoredSdos := s.monitoredSdos ++ reads }

theorem added_added (s : Server) (nodes nodes' : List (Nat × Node)) (keys keys' : List (String × (Nat × Nat)))
    (reads reads' : List MonitoredSdo) :
    (s.added nodes keys reads).added nodes' keys' reads' = s.added (nodes ++ nodes') (keys ++ keys') (reads ++ reads') := by
  simp [Server.added, addNodes, insertEach, List.foldl_append]

theorem addNode_eq (s : Server) (id : Nat) (node : Node) : s.addNode id node = s.added [(id, node)] [] [] := by
  simp [Server.added, Server.addNode, addNodes, insertEach]

theorem addSdos_eq (s : Server) (i : Nat) (ds : List (SdoDef × Nat)) :
    ds.foldl (fun s d => s.addSdo i d) s =
      s.added (ds.map fun d => (nodeBase i + 20 + d.2, ⟨nodeBase i + 9, d.1.name, some "—"⟩))
        (ds.map fun d => (sdoKey i d.1.index d.1.sub, (nodeBase i, d.2))) (ds.map fun d => ⟨i, d.1.index, d.1.sub⟩) := by
  induction ds generalizing s with
  | nil => simp [Server.added, addNodes, insertEach]
  | cons d ds ih =>
    have hone : s.addSdo i d = s.added [(nodeBase i + 20 + d.2, ⟨nodeBase i + 9, d.1.name, some "—"⟩)]
        [(sdoKey i d.1.index d.1.sub, (nodeBase i, d.2))] [⟨i, d.1.index, d.1.sub⟩] := by
      simp only [Server.addSdo, Server.addNode, Server.added, addNodes, insertEach, List.foldl_cons, List.foldl_nil]
    rw [List.foldl_cons, ih, hone, added_added, List.map_cons, List.map_cons, List.map_cons]
    simp only [List.cons_append, List.nil_append]

/-- One slave more. -/
theorem addSlave_eq (s : Server) (sl : SlaveInfo × Nat) :
    s.addSlave sl = s.added (slaveNodes sl.2 sl.1) (slaveKeys sl.2) (slaveReads sl.2) := by
  simp only [Server.addSlave, Server.addStatic, Server.addSdoNodes, addSdos_eq, addNode_eq, added_added, List.nil_append,
    List.cons_append, slaveNodes, slaveKeys, slaveReads]

/-- All slaves of a list. -/
theorem addSlaves_eq (s : Server) (sls : List (SlaveInfo × Nat)) :
    sls.foldl Server.addSlave s = s.added (sls.flatMap fun sl : SlaveInfo × Nat => slaveNodes sl.2 sl.1)
      (sls.flatMap fun sl => slaveKeys sl.2) (sls.flatMap fun sl => slaveReads sl.2) := by
  induction sls generalizing s with
  | nil => simp [Server.added, addNodes, insertEach]
  | cons sl sls ih => rw [List.foldl_cons, ih, addSlave_eq, added_added, List.flatMap_cons, List.flatMap_cons, List.flatMap_cons]

theorem flatMap_zipIdx {α β : Type} (f : Nat → List β) (as : List α) (n : Nat) :
    ((as.zipIdx n).flatMap fun e : α × Nat => f e.2) = (List.range' n as.length).flatMap f := by
  rw [← List.zipIdx_map_snd, List.flatMap_map]

/-- **What an update makes of the server.** -/
theorem updateSlaves_eq (s : Server) (slaves : List SlaveInfo) :
    s.updateSlaves slaves = { s with slaves, monitoredSdos := [], sdoNodeMap := empty }.added
      (slaves.zipIdx.flatMap fun sl : SlaveInfo × Nat => slaveNodes sl.2 sl.1)
      ((List.range' 0 slaves.length).flatMap slaveKeys) ((List.range' 0 slaves.length).flatMap slaveReads) := by
  rw [← flatMap_zipIdx, ← flatMap_zipIdx]
  exact addSlaves_eq _ _

/-! ## Ids and reads of a list -/

/-- **Ids of their own**: the SDO variables of a slave take the ids of the second one behind it. -/
theorem ids_iff (s : Server) : s.Ids ↔ s.slaves.length ≤ 2 := by
  constructor
  · intro h
    by_contra hlong
    have hclash := (h 0 (by omega) 2 (by omega) (.sdo 1) (.static 0) rfl).1
    omega
  · intro h i hi j hj v w heq
    cases v with
    | static k =>
      cases w with
      | static l =>
        simp only [Variable.id, nodeBase] at heq
        have hk := k.isLt
        have hl := l.isLt
        have hkl : k = l := Fin.ext (by omega)
        exact ⟨by omega, by rw [hkl]⟩
      | sdo l =>
        simp only [Variable.id, nodeBase] at heq
        omega
    | sdo k =>
      cases w with
      | static l =>
        simp only [Variable.id, nodeBase] at heq
        omega
      | sdo l =>
        simp only [Variable.id, nodeBase] at heq
        have hk := k.isLt
        have hl := l.isLt
        have hkl : k = l := Fin.ext (by omega)
        exact ⟨by omega, by rw [hkl]⟩

theorem uaString_eq_iff {text : String} : uaString text = text ↔ Plain text := by
  rw [uaString, Plain, ← String.toList_inj, String.toList_ofList, List.takeWhile_eq_self_iff]
  constructor
  · intro h hmem
    simpa using h _ hmem
  · intro h c hc
    simp only [bne_iff_ne, ne_eq]
    rintro rfl
    exact h hc

/-- Where the nodes of a slave are, from its base on. -/
def offsets : List Nat := [0, 1, 2, 3, 4, 9, 20, 21, 22, 23, 24, 25, 26]

theorem value_writeValue (space : AddressSpace) (id id' : Nat) (v : String) :
    (writeValue space id v).value id' =
      if id' = id then (space.value id).map fun node => if node.value = none then node else { node with value := some v }
      else space.value id' := by
  unfold writeValue
  cases hid : space.value id with
  | none =>
    by_cases heq : id' = id
    · rw [if_pos heq, heq]
      exact hid
    · rw [if_neg heq]
  | some node =>
    dsimp only
    by_cases hnone : node.value = none
    · rw [if_pos hnone, Option.map_some, if_pos hnone]
      by_cases heq : id' = id
      · rw [if_pos heq, heq, hid]
      · rw [if_neg heq]
    · rw [if_neg hnone, value_insert, Option.map_some, if_neg hnone]

/-- What updates that meet the condition leave, and values keep. -/
structure Server.Good (s : Server) : Prop where
  length : s.slaves.length ≤ 2
  positions : ∀ (i : Nat) sl, s.slaves[i]? = some sl → sl.position = i
  reads : s.Reads
  cached : ∀ i < s.slaves.length, ∀ d ∈ sdos, (s.sdoCache.value (sdoKey i d.index d.sub)).isSome = true
  mapped : ∀ i < s.slaves.length, ∀ d ∈ sdos.zipIdx, s.sdoNodeMap.value (sdoKey i d.1.index d.1.sub) = some (nodeBase i, d.2)
  shows : ∀ i < s.slaves.length, ∀ k : Fin 7, (s.shown i (.sdo k)).isSome = true
  /-- behind the static variables there are no objects -/
  beyond : ∀ id node, 4020 ≤ id → s.space.value id = some node → node.value ≠ none

/-- **What an answer changes**: its own variable. -/
theorem answered {s : Server} (h : s.Good) {pos : Int} {idx sub val : String} (hmeets : Meets s (.sdoValue pos idx sub val)) :
    s.Answered pos idx sub val := by
  intro i k hof
  have hplain := uaString_eq_iff.2 (hmeets ⟨i, k, hof⟩)
  obtain ⟨⟨sl, hsl, hpos⟩, name, hsdo⟩ := hof
  have hi : i < s.slaves.length := (List.getElem?_eq_some_iff.1 hsl).1
  have hcached := h.cached i hi _ (List.mem_of_getElem? hsdo)
  have hmapped := h.mapped i hi (⟨name, idx, sub⟩, k) (List.mk_mem_zipIdx_iff_getElem?.2 hsdo)
  have hposition := h.positions i sl hsl
  rw [← hposition, hpos] at hcached hmapped
  have heq : (s.sdoValue pos idx sub val).space = writeValue s.space (Variable.id i (.sdo k)) val := by
    rw [Server.sdoValue]
    dsimp only at hcached hmapped ⊢
    rw [if_neg (Option.isSome_iff_ne_none.1 hcached), hmapped, hplain]
    rfl
  have hshows := h.shows i hi k
  unfold Server.shown at hshows
  constructor
  · rw [Server.shown, heq, value_writeValue, if_pos rfl]
    cases hv : s.space.value (Variable.id i (.sdo k)) with
    | none => simp [hv] at hshows
    | some node =>
      rw [hv, Option.bind_some] at hshows
      simp [Option.isSome_iff_ne_none.1 hshows]
  · intro j hj v hother
    have hid : v.id j ≠ Variable.id i (.sdo k) := fun hid => hother ((ids_iff s).2 h.length j hj i hi v (.sdo k) hid)
    rw [Server.shown, Server.shown, heq, value_writeValue, if_neg hid]

/-! ## Any run -/

def drive (position : Int) (state : String) : SlaveInfo := ⟨position, state, "A----", "Drive"⟩

/-- **The third slave** shows what is read from the first one. -/
theorem third_slave : ¬ Kept [.updateSlaves [drive 0 "OP", drive 1 "OP", drive 2 "OP"]] := by
  intro h
  have hids := (ids_iff _).1 (h.ids _ List.prefix_rfl)
  exact absurd hids (by decide +kernel)

end NekoEcat.L4.OpcUa
