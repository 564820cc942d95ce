import NekoEcat.Core.QHash
import NekoEcat.Core.Trace

/-!
# The SDO cache

`SdoCacheService` keeps for each slave a hash from keys to the nodes of a list. A
new node goes to the front, and room is made at the back. Expired nodes are erased
from the back on with a reverse iterator, which after the first of them stands on
the node that was erased.

* `run_iff`: the runs that touch no erased node, and keep hash, list and bound.
* `policy_iff`: the runs in which the policy names each victim.

Limitations: the hashes of nodes and of lists, which have the same slaves, are one;
a step that touches an erased node ends the run.
-/
namespace NekoEcat.L4.SdoCache
open NekoEcat.Trace

/-! ## The service -/

inductive EvictionPolicy where
  | lru
  | lfu
  | fifo
  deriving DecidableEq

/-- There is room for an entry.
mirrors apps/ecat-studio/services/SdoCacheService.h:71-83 -/
structure SdoCacheConfig where
  maxEntriesPerSlave : Int := 2048
  ttlMs : Int := 60000
  evictionPolicy : EvictionPolicy := .lru
  room : 1 ≤ maxEntriesPerSlave := by decide

structure SdoCacheEntry where
  value : String
  timestampMs : Int := 0
  accessCount : Int := 0

structure LruNode where
  /-- where it was allocated; a later node has a greater address -/
  address : Nat
  key : String
  entry : SdoCacheEntry
  /-- ghost: when the entry was last written or read -/
  used : Nat

/-- The nodes of a slave, by key and in their order. -/
structure Slave where
  index : QHash String Nat := QHash.empty
  order : List LruNode := []

/-- ghost: a node that made room, and the nodes there were -/
structure Eviction where
  victim : LruNode
  present : List LruNode

structure Service where
  config : SdoCacheConfig := {}
  slaves : QHash Int Slave := QHash.empty
  hits : Nat := 0
  misses : Nat := 0
  /-- what the clock shows -/
  now : Int := 0
  /-- the address of the next node -/
  next : Nat := 0
  /-- ghost: how many operations there were -/
  ticks : Nat := 0
  evictions : List Eviction := []

def makeKey (index subIndex : String) : String := index ++ ":" ++ subIndex

def expired (config : SdoCacheConfig) (now : Int) (node : LruNode) : Bool :=
  decide (0 < config.ttlMs) && decide (config.ttlMs < now - node.entry.timestampMs)

/-- The node at an address is written or read, if it is there.
mirrors apps/ecat-studio/services/SdoCacheService.cpp:37-42 -/
def Slave.access (slave : Slave) (policy : EvictionPolicy) (ticks address : Nat) (f : SdoCacheEntry → SdoCacheEntry) :
    Option Slave :=
  (slave.order.find? (·.address = address)).map fun node =>
    let node := { node with entry := f node.entry, used := ticks }
    { slave with
      order :=
        if policy = .lru then node :: slave.order.filter (·.address ≠ address)
        else slave.order.map fun other => if other.address = address then node else other }

/-! ## Making room -/

/-- The node that a reverse iterator refers to is the one before its base. -/
def before (order : List LruNode) : Option Nat → Option LruNode
  | none => order.getLast?
  | some address => (order.takeWhile (·.address ≠ address)).getLast?

/-- The base is a node of the list, or its end. -/
def stands (order : List LruNode) : Option Nat → Bool
  | none => true
  | some address => order.any (·.address = address)

def Slave.erase (slave : Slave) (node : LruNode) : Slave :=
  ⟨slave.index.erase node.key, slave.order.filter (·.address ≠ node.address)⟩

/-- The loop, with the base of `node`.
mirrors apps/ecat-studio/services/SdoCacheService.cpp:129-135 -/
def expireFrom (config : SdoCacheConfig) (now : Int) : Nat → Option Nat → Slave → Option Slave
  | 0, _, slave => some slave
  | fuel + 1, base, slave =>
    if !stands slave.order base then none
    else
      match before slave.order base with
      | none => some slave
      | some node =>
        -- `toErase` is the node itself, and the base of `++node`
        if expired config now node then expireFrom config now fuel (some node.address) (slave.erase node) else some slave

/-- mirrors apps/ecat-studio/services/SdoCacheService.cpp:119-136 -/
def evictExpired (config : SdoCacheConfig) (now : Int) (slave : Slave) : Option Slave :=
  expireFrom config now (slave.order.length + 1) none slave

/-- mirrors apps/ecat-studio/services/SdoCacheService.cpp:148-152 -/
def evictLoop (config : SdoCacheConfig) : Nat → Slave → List Eviction → Slave × List Eviction
  | 0, slave, evictions => (slave, evictions)
  | fuel + 1, slave, evictions =>
    if config.maxEntriesPerSlave ≤ slave.index.entries.length then
      match slave.order.getLast? with
      | none => (slave, evictions)
      | some victim =>
        evictLoop config fuel ⟨slave.index.erase victim.key, slave.order.dropLast⟩ (evictions ++ [⟨victim, slave.order⟩])
    else (slave, evictions)

/-- mirrors apps/ecat-studio/services/SdoCacheService.cpp:138-153 -/
def evictIfNeeded (config : SdoCacheConfig) (now : Int) (slave : Slave) : Option (Slave × List Eviction) :=
  (evictExpired config now slave).map fun slave => evictLoop config slave.order.length slave []

/-! ## The operations -/

def Service.slave (s : Service) (position : Int) : Slave := (s.slaves.value position).getD {}

/-- mirrors apps/ecat-studio/services/SdoCacheService.cpp:29-54 -/
def cacheValue (position : Int) (index subIndex value : String) (s : Service) : Option Service :=
  let key := makeKey index subIndex
  let slave := s.slave position
  match slave.index.value key with
  | some address =>
    let write (entry : SdoCacheEntry) : SdoCacheEntry := ⟨value, s.now, entry.accessCount + 1⟩
    (slave.access s.config.evictionPolicy s.ticks address write).map fun slave =>
      { s with slaves := s.slaves.insert position slave }
  | none =>
    (evictIfNeeded s.config s.now slave).map fun (slave, evictions) =>
      let node := ⟨s.next, key, ⟨value, s.now, 1⟩, s.ticks⟩
      { s with
        slaves := s.slaves.insert position ⟨slave.index.insert key s.next, node :: slave.order⟩
        next := s.next + 1
        evictions := s.evictions ++ evictions }

/-- mirrors apps/ecat-studio/services/SdoCacheService.cpp:56-84 -/
def getCachedValue (position : Int) (index subIndex : String) (s : Service) : Option (String × Service) :=
  match s.slaves.value position with
  | none => some ("", { s with misses := s.misses + 1 })
  | some slave =>
    match slave.index.value (makeKey index subIndex) with
    | none => some ("", { s with misses := s.misses + 1 })
    | some address =>
      (slave.order.find? (·.address = address)).bind fun node =>
        if expired s.config s.now node then some ("", { s with misses := s.misses + 1 })
        else
          let read (entry : SdoCacheEntry) : SdoCacheEntry := { entry with accessCount := entry.accessCount + 1 }
          (slave.access s.config.evictionPolicy s.ticks address read).map fun slave =>
            (node.entry.value, { s with slaves := s.slaves.insert position slave, hits := s.hits + 1 })

inductive Op where
  | cacheValue (position : Int) (index subIndex value : String)
  | getCachedValue (position : Int) (index subIndex : String)
  | invalidateCache (position : Int)
  | invalidateAll
  | advance (ms : Nat)

inductive Ev where
  | op (o : Op)
  | setConfig (config : SdoCacheConfig)

def Service.run (s : Service) : Op → Option Service
  | .cacheValue position index subIndex value => cacheValue position index subIndex value s
  | .getCachedValue position index subIndex => (getCachedValue position index subIndex s).map (·.2)
  | .invalidateCache position => some { s with slaves := s.slaves.erase position }
  | .invalidateAll => some { s with slaves := QHash.empty, hits := 0, misses := 0 }
  | .advance ms => some { s with now := s.now + ms }

/-- An operation; a run that touched an erased node goes on nowhere. -/
def stepOp (s : Option Service) (o : Op) : Option Service :=
  s.bind fun s => (s.run o).map fun after => { after with ticks := after.ticks + 1 }

def step (s : Option Service) : Ev → Option Service
  | .op o => stepOp s o
  | .setConfig config => s.map fun s => { s with config := config }

/-! ## Hash and list -/

def Slave.pairs (slave : Slave) : List (String × Nat) := slave.order.map fun node => (node.key, node.address)

/-- The entries of the hash are the nodes of the list: each key has the address of
the one node with that key. -/
structure Linked (slave : Slave) (next : Nat) : Prop where
  entries : slave.index.entries.Perm slave.pairs
  addresses : (slave.pairs.map (·.2)).Nodup
  allocated : ∀ p ∈ slave.pairs, p.2 < next

section
variable {slave after : Slave} {next : Nat}

theorem Linked.length (h : Linked slave next) : slave.index.entries.length = slave.order.length := by
  rw [h.entries.length_eq, Slave.pairs, List.length_map]

theorem Linked.keys (h : Linked slave next) : (Assoc.keys slave.pairs).Nodup :=
  (h.entries.map Prod.fst).nodup_iff.1 slave.index.nodup

theorem Linked.value_iff (h : Linked slave next) {key : String} {address : Nat} :
    slave.index.value key = some address ↔ ∃ node ∈ slave.order, node.key = key ∧ node.address = address := by
  rw [← QHash.mem_iff, h.entries.mem_iff, Slave.pairs, List.mem_map]
  simp

theorem Linked.of_perm (h : Linked slave next) (hindex : after.index = slave.index) (hperm : after.pairs.Perm slave.pairs) :
    Linked after next where
  entries := hindex ▸ h.entries.trans hperm.symm
  addresses := (hperm.map Prod.snd).nodup_iff.2 h.addresses
  allocated := fun p hp => h.allocated p (hperm.mem_iff.1 hp)

theorem linked_empty (next : Nat) : Linked {} next :=
  ⟨List.Perm.refl _, List.nodup_nil, fun _ hp => (nomatch hp)⟩

/-- The nodes are the one at an address and the others. -/
theorem perm_at {order : List LruNode} {node : LruNode} (hnodup : (order.map (·.address)).Nodup) (hnode : node ∈ order) :
    order.Perm (node :: order.filter (·.address ≠ node.address)) := by
  induction order with
  | nil => cases hnode
  | cons first order ih =>
    obtain ⟨hnot, hrest⟩ := List.nodup_cons.1 hnodup
    rw [List.filter_cons]
    rcases List.mem_cons.1 hnode with rfl | hnode
    · have hall : order.filter (·.address ≠ node.address) = order :=
        List.filter_eq_self.2 fun other hother => decide_eq_true fun heq => hnot (List.mem_map.2 ⟨other, hother, heq⟩)
      rw [if_neg (by simp), hall]
    · have hne : first.address ≠ node.address := fun heq => hnot (List.mem_map.2 ⟨node, hnode, heq.symm⟩)
      rw [if_pos (decide_eq_true hne)]
      exact ((ih hrest hnode).cons first).trans (List.Perm.swap ..)

/-- Writing or reading a node that is there keeps the pairs. -/
theorem Linked.access (h : Linked slave next) {address : Nat} {node : LruNode}
    (hfind : slave.order.find? (·.address = address) = some node) (policy : EvictionPolicy) (ticks : Nat)
    (f : SdoCacheEntry → SdoCacheEntry) :
    ∃ after, slave.access policy ticks address f = some after ∧ after.index = slave.index ∧ Linked after next := by
  have hnode := List.mem_of_find?_eq_some hfind
  have haddress : node.address = address := by simpa using List.find?_some hfind
  have hnodup : (slave.order.map (·.address)).Nodup := by
    have haddresses := h.addresses
    rw [Slave.pairs, List.map_map] at haddresses
    exact haddresses
  unfold Slave.access
  rw [hfind]
  refine ⟨_, rfl, rfl, h.of_perm rfl ?_⟩
  simp only [Slave.pairs]
  split
  · rw [List.map_cons]
    subst haddress
    exact ((perm_at hnodup hnode).map fun node => (node.key, node.address)).symm
  · rw [List.map_map]
    refine List.Perm.of_eq (List.map_congr_left fun other hother => ?_)
    simp only [Function.comp]
    split
    · rename_i hsame
      rw [List.inj_on_of_nodup_map hnodup hother hnode (hsame.trans haddress.symm)]
    · rfl

theorem Linked.popBack (h : Linked slave next) {victim : LruNode} (hlast : slave.order.getLast? = some victim) :
    Linked ⟨slave.index.erase victim.key, slave.order.dropLast⟩ next := by
  have hpairs : slave.pairs = (slave.order.dropLast.map fun node => (node.key, node.address)) ++ [(victim.key, victim.address)] := by
    rw [Slave.pairs, ← List.map_singleton (f := fun node : LruNode => (node.key, node.address)), ← List.map_append,
      List.dropLast_append_getLast? victim hlast]
  have hkeys := h.keys
  have haddresses := h.addresses
  have hallocated := h.allocated
  have hentries := h.entries
  rw [hpairs] at hkeys haddresses hallocated hentries
  rw [Assoc.keys, List.map_append, List.nodup_append] at hkeys
  rw [List.map_append] at haddresses
  have hself : ((slave.order.dropLast.map fun node => (node.key, node.address)) ++ [(victim.key, victim.address)]).filter
      (fun e => e.1 != victim.key) = slave.order.dropLast.map fun node => (node.key, node.address) := by
    rw [List.filter_append, List.filter_eq_self.2 fun p hp => ?_]
    · simp
    · have hne := hkeys.2.2 p.1 (List.mem_map.2 ⟨p, hp, rfl⟩) victim.key (by simp)
      simpa using hne
  have hremove := hentries.filter fun e => e.1 != victim.key
  rw [hself] at hremove
  exact ⟨hremove, (List.nodup_append.1 haddresses).1, fun p hp => hallocated p (List.mem_append_left _ hp)⟩

theorem Linked.pushFront (h : Linked slave next) {key : String} (hkey : slave.index.value key = none) (entry : SdoCacheEntry)
    (used : Nat) : Linked ⟨slave.index.insert key next, ⟨next, key, entry, used⟩ :: slave.order⟩ (next + 1) := by
  refine ⟨?_, ?_, fun p hp => ?_⟩
  · have hentries : (slave.index.insert key next).entries = (key, next) :: slave.index.entries :=
      congrArg _ (Assoc.remove_eq_self hkey)
    exact (List.Perm.of_eq hentries).trans (h.entries.cons _)
  · refine List.nodup_cons.2 ⟨fun hmem => ?_, h.addresses⟩
    obtain ⟨p, hp, heq⟩ := List.mem_map.1 hmem
    have hless := h.allocated p hp
    change p.2 = next at heq
    omega
  · rcases List.mem_cons.1 hp with rfl | hp
    · exact Nat.lt_succ_self next
    · exact Nat.lt_succ_of_lt (h.allocated p hp)

/-- No entry comes back. -/
theorem evictLoop_value (config : SdoCacheConfig) {key : String} (fuel : Nat) (hkey : slave.index.value key = none)
    (evictions : List Eviction) : (evictLoop config fuel slave evictions).1.index.value key = none := by
  induction fuel generalizing slave evictions with
  | zero => exact hkey
  | succ fuel ih =>
    rw [evictLoop]
    split
    · split
      · exact hkey
      · refine ih ?_ _
        rw [QHash.value_erase, hkey, ite_self]
    · exact hkey

/-- **Room is made**: fewer nodes are left than there may be. -/
theorem Linked.evictLoop (h : Linked slave next) (config : SdoCacheConfig) {fuel : Nat} (hfuel : slave.order.length ≤ fuel)
    (evictions : List Eviction) : Linked (evictLoop config fuel slave evictions).1 next ∧
      ((evictLoop config fuel slave evictions).1.index.entries.length : Int) < config.maxEntriesPerSlave := by
  have hroom := config.room
  induction fuel generalizing slave evictions with
  | zero =>
    refine ⟨h, ?_⟩
    have hlength := h.length
    change (slave.index.entries.length : Int) < _
    omega
  | succ fuel ih =>
    rw [SdoCache.evictLoop]
    split
    · cases hlast : slave.order.getLast? with
      | none =>
        have hlength := h.length
        rw [List.getLast?_eq_none_iff.1 hlast, List.length_nil] at hlength
        exact ⟨h, by omega⟩
      | some victim =>
        exact ih (h.popBack hlast) (by rw [List.length_dropLast]; omega) _
    · rename_i hless
      exact ⟨h, Int.not_le.1 hless⟩

end

/-! ## Expired nodes -/

/-- The last node is expired. -/
def backExpired (config : SdoCacheConfig) (now : Int) (slave : Slave) : Bool := slave.order.getLast?.any (expired config now)

/-- Nothing is expired at the back, or the loop goes on from the node it erased. -/
theorem evictExpired_eq (config : SdoCacheConfig) (now : Int) (slave : Slave) :
    evictExpired config now slave = if backExpired config now slave then none else some slave := by
  unfold evictExpired backExpired
  rw [expireFrom]
  simp only [stands, Bool.not_true, Bool.false_eq_true, if_false, before]
  cases hlast : slave.order.getLast? with
  | none => rfl
  | some node =>
    simp only [Option.any_some]
    split
    · have hpositive : 0 < slave.order.length := List.length_pos_iff.2 fun hnil => by simp [hnil] at hlast
      obtain ⟨fuel, hfuel⟩ : ∃ fuel, slave.order.length = fuel + 1 := ⟨slave.order.length - 1, by omega⟩
      have herased : stands (slave.erase node).order (some node.address) = false := by
        simp [stands, Slave.erase]
      rw [hfuel, expireFrom, herased]
      rfl
    · rfl

/-! ## Runs -/

def AllLinked (slaves : QHash Int Slave) (next : Nat) : Prop :=
  ∀ position slave, slaves.value position = some slave → Linked slave next

/-- Hash and list of every slave are in step. -/
def Sound (s : Service) : Prop := AllLinked s.slaves s.next

/-- The operation does not cache a new key while the last node is expired. -/
def Fresh (s : Service) : Ev → Prop
  | .op (.cacheValue position index subIndex _) => (s.slave position).index.value (makeKey index subIndex) = none →
      backExpired s.config s.now (s.slave position) = false
  | _ => True

/-- A new key is there, and there are not too many. -/
def Bounded (s after : Service) : Ev → Prop
  | .op (.cacheValue position index subIndex _) => (s.slave position).index.value (makeKey index subIndex) = none →
      (after.slave position).index.value (makeKey index subIndex) ≠ none ∧
        ((after.slave position).index.entries.length : Int) ≤ s.config.maxEntriesPerSlave
  | _ => True

/-- The step touches no erased node, and leaves the service as it should. -/
def StepFine (s : Option Service) (ev : Ev) : Prop :=
  ∃ before after, s = some before ∧ step s ev = some after ∧ Sound after ∧ Bounded before after ev

section
variable {s : Service} {slaves : QHash Int Slave} {slave : Slave} {next : Nat}

theorem Linked.mono (h : Linked slave next) {next' : Nat} (hle : next ≤ next') : Linked slave next' :=
  ⟨h.entries, h.addresses, fun p hp => Nat.lt_of_lt_of_le (h.allocated p hp) hle⟩

theorem AllLinked.insert (h : AllLinked slaves next) {next' : Nat} (hle : next ≤ next') (hslave : Linked slave next')
    (position : Int) : AllLinked (slaves.insert position slave) next' := by
  intro position' slave' hvalue
  rw [QHash.value_insert] at hvalue
  split at hvalue
  · cases hvalue
    exact hslave
  · exact (h position' slave' hvalue).mono hle

theorem Sound.linked (h : Sound s) (position : Int) : Linked (s.slave position) s.next := by
  unfold Service.slave
  cases hvalue : s.slaves.value position with
  | none => exact linked_empty s.next
  | some slave => exact h position slave hvalue

theorem slave_inserted (position : Int) (slave : Slave) (next : Nat) (evictions : List Eviction) :
    Service.slave { s with slaves := s.slaves.insert position slave, next := next, evictions := evictions } position = slave := by
  simp [Service.slave]

theorem Linked.find (h : Linked slave next) {key : String} {address : Nat} (hvalue : slave.index.value key = some address) :
    ∃ node, slave.order.find? (·.address = address) = some node := by
  obtain ⟨node, hnode, -, haddress⟩ := h.value_iff.1 hvalue
  exact Option.isSome_iff_exists.1 (List.find?_isSome.2 ⟨node, hnode, decide_eq_true haddress⟩)

variable (h : Sound s) (position : Int) (index subIndex value : String)
include h

theorem cacheValue_cached {address : Nat} (hkey : (s.slave position).index.value (makeKey index subIndex) = some address) :
    ∃ after, cacheValue position index subIndex value s = some after ∧ Sound after := by
  have hslave := h.linked position
  obtain ⟨node, hfind⟩ := hslave.find hkey
  unfold cacheValue
  simp only [hkey]
  obtain ⟨slave, haccess, -, hlinked⟩ := hslave.access hfind s.config.evictionPolicy s.ticks
    fun entry => ⟨value, s.now, entry.accessCount + 1⟩
  rw [haccess]
  exact ⟨_, rfl, AllLinked.insert h (Nat.le_refl _) hlinked position⟩

theorem cacheValue_new (hkey : (s.slave position).index.value (makeKey index subIndex) = none)
    (hfresh : backExpired s.config s.now (s.slave position) = false) :
    ∃ after, cacheValue position index subIndex value s = some after ∧ Sound after ∧
      (after.slave position).index.value (makeKey index subIndex) ≠ none ∧
        ((after.slave position).index.entries.length : Int) ≤ s.config.maxEntriesPerSlave := by
  obtain ⟨hlinked, hroom⟩ := (h.linked position).evictLoop s.config (Nat.le_refl _) []
  have hgone := evictLoop_value s.config (s.slave position).order.length hkey []
  unfold cacheValue
  simp only [hkey, evictIfNeeded]
  rw [evictExpired_eq, hfresh]
  refine ⟨_, rfl, AllLinked.insert h (Nat.le_succ _) (hlinked.pushFront hgone _ _) position, ?_⟩
  rw [slave_inserted, QHash.value_insert, if_pos rfl, QHash.length_insert hgone]
  exact ⟨fun hnone => (by cases hnone), Int.add_one_le_of_lt hroom⟩

omit h in
theorem cacheValue_expired (hkey : (s.slave position).index.value (makeKey index subIndex) = none)
    (hexpired : backExpired s.config s.now (s.slave position) = true) : cacheValue position index subIndex value s = none := by
  unfold cacheValue
  simp only [hkey, evictIfNeeded]
  rw [evictExpired_eq, hexpired]
  rfl

theorem getCachedValue_sound : ∃ r, getCachedValue position index subIndex s = some r ∧ Sound r.2 := by
  unfold getCachedValue
  split
  · exact ⟨_, rfl, h⟩
  · rename_i slave hslave
    have hlinked := h position slave hslave
    split
    · exact ⟨_, rfl, h⟩
    · rename_i address hkey
      obtain ⟨node, hfind⟩ := hlinked.find hkey
      rw [hfind, Option.bind_some]
      split
      · exact ⟨_, rfl, h⟩
      · obtain ⟨slave, haccess, -, hlinked⟩ := hlinked.access hfind s.config.evictionPolicy s.ticks
          fun entry => { entry with accessCount := entry.accessCount + 1 }
        simp only [haccess, Option.map_some]
        exact ⟨_, rfl, AllLinked.insert h (Nat.le_refl _) hlinked position⟩

omit h in
theorem stepFine_of_run {o : Op} {after : Service} (hrun : s.run o = some after) (hsound : Sound after)
    (hbounded : Bounded s after (.op o)) : StepFine (some s) (.op o) := by
  refine ⟨s, { after with ticks := after.ticks + 1 }, rfl, ?_, hsound, ?_⟩
  · simp only [step, stepOp, Option.bind_some, hrun, Option.map_some]
  · cases o <;> exact hbounded

/-- **A step is fine** iff it does not make room behind an expired node. -/
theorem stepFine_iff (ev : Ev) : StepFine (some s) ev ↔ Fresh s ev := by
  constructor
  · rintro ⟨before, after, hbefore, hstep, -, -⟩
    cases hbefore
    cases ev with
    | setConfig config => trivial
    | op o =>
      cases o with
      | cacheValue position index subIndex value =>
        intro hkey
        by_contra hexpired
        have hnone := cacheValue_expired position index subIndex value hkey (Bool.not_eq_false _ ▸ hexpired)
        simp only [step, stepOp, Option.bind_some, Service.run, hnone, Option.map_none] at hstep
        cases hstep
      | _ => trivial
  · intro hfresh
    cases ev with
    | setConfig config => exact ⟨s, _, rfl, rfl, h, trivial⟩
    | op o =>
      cases o with
      | cacheValue position index subIndex value =>
        cases hkey : (s.slave position).index.value (makeKey index subIndex) with
        | none =>
          obtain ⟨after, hrun, hsound, hbounded⟩ := cacheValue_new h position index subIndex value hkey (hfresh hkey)
          exact stepFine_of_run hrun hsound fun _ => hbounded
        | some address =>
          obtain ⟨after, hrun, hsound⟩ := cacheValue_cached h position index subIndex value hkey
          exact stepFine_of_run hrun hsound fun hnone => by cases hkey.symm.trans hnone
      | getCachedValue position index subIndex =>
        obtain ⟨r, hr, hsound⟩ := getCachedValue_sound h position index subIndex
        have hrun : s.run (.getCachedValue position index subIndex) = some r.2 := by
          simp only [Service.run, hr, Option.map_some]
        exact stepFine_of_run hrun hsound trivial
      | invalidateCache position =>
        refine stepFine_of_run rfl (fun position' slave hvalue => ?_) trivial
        rw [QHash.value_erase] at hvalue
        split at hvalue
        · cases hvalue
        · exact h position' slave hvalue
      | invalidateAll => exact stepFine_of_run rfl (fun position slave hvalue => by cases hvalue) trivial
      | advance ms => exact stepFine_of_run rfl h trivial

end

/-- **Every step of a run is fine** iff no key is cached anew while the last node of
its slave is expired. -/
theorem run_iff (config : SdoCacheConfig) (es : List Ev) :
    Along step StepFine (some { config := config }) es ↔
      Along step (fun s ev => ∀ before, s = some before → Fresh before ev) (some { config := config }) es := by
  refine along_congr (I := fun s => ∃ service, s = some service ∧ Sound service) step ?_ ?_ es
    ⟨_, rfl, fun position slave hvalue => nomatch hvalue⟩
  · rintro _ ev ⟨s, rfl, hsound⟩
    rw [stepFine_iff hsound]
    exact ⟨fun hfresh before hbefore => Option.some.inj hbefore ▸ hfresh, fun hfresh => hfresh s rfl⟩
  · rintro _ ev ⟨s, rfl, hsound⟩ hfresh
    obtain ⟨_, after, -, hstep, hafter, -⟩ := (stepFine_iff hsound ev).2 (hfresh s rfl)
    exact ⟨after, hstep, hafter⟩

/-! ## The victims -/

/-- The policy names the victim among the nodes that were there. -/
def Named (policy : EvictionPolicy) (e : Eviction) : Prop := ∀ node ∈ e.present,
  match policy with
  | .lru => e.victim.used ≤ node.used
  | .lfu => e.victim.entry.accessCount ≤ node.entry.accessCount
  | .fifo => e.victim.address ≤ node.address

/-- All victims were named by the policy. -/
def Right (s : Service) : Prop := ∀ e ∈ s.evictions, Named s.config.evictionPolicy e

/-- Under LFU, where room is made the last node has the least count. -/
def Least (s : Service) : Op → Prop
  | .cacheValue position index subIndex _ => s.config.evictionPolicy = .lfu →
      (s.slave position).index.value (makeKey index subIndex) = none →
      backExpired s.config s.now (s.slave position) = false →
      s.config.maxEntriesPerSlave ≤ (s.slave position).index.entries.length →
      ∀ victim, (s.slave position).order.getLast? = some victim →
        ∀ node ∈ (s.slave position).order, victim.entry.accessCount ≤ node.entry.accessCount
  | _ => True

/-- How the list is ordered: by use under LRU, otherwise by insertion. -/
def Later (policy : EvictionPolicy) (a b : LruNode) : Prop :=
  if policy = .lru then b.used ≤ a.used else b.address ≤ a.address

structure Kept (config : SdoCacheConfig) (ticks next : Nat) (slave : Slave) : Prop where
  linked : Linked slave next
  size : (slave.index.entries.length : Int) ≤ config.maxEntriesPerSlave
  used : ∀ node ∈ slave.order, node.used < ticks
  order : slave.order.Pairwise (Later config.evictionPolicy)

def AllKept (config : SdoCacheConfig) (ticks next : Nat) (slaves : QHash Int Slave) : Prop :=
  ∀ position slave, slaves.value position = some slave → Kept config ticks next slave

section
variable {config : SdoCacheConfig} {ticks next : Nat} {slave : Slave} {slaves : QHash Int Slave}

theorem Kept.mono (h : Kept config ticks next slave) {ticks' next' : Nat} (hticks : ticks ≤ ticks') (hnext : next ≤ next') :
    Kept config ticks' next' slave :=
  ⟨h.linked.mono hnext, h.size, fun node hnode => Nat.lt_of_lt_of_le (h.used node hnode) hticks, h.order⟩

theorem AllKept.insert (h : AllKept config ticks next slaves) {ticks' next' : Nat} (hticks : ticks ≤ ticks') (hnext : next ≤ next')
    (hslave : Kept config ticks' next' slave) (position : Int) : AllKept config ticks' next' (slaves.insert position slave) := by
  intro position' slave' hvalue
  rw [QHash.value_insert] at hvalue
  split at hvalue
  · cases hvalue
    exact hslave
  · exact (h position' slave' hvalue).mono hticks hnext

theorem kept_empty (config : SdoCacheConfig) (ticks next : Nat) : Kept config ticks next {} :=
  ⟨linked_empty next, Int.le_trans (by decide) config.room, fun _ hnode => (nomatch hnode), List.Pairwise.nil⟩

/-- Writing or reading a node keeps the order: under LRU it goes to the front. -/
theorem Kept.access (h : Kept config ticks next slave) {address : Nat} {node : LruNode}
    (hfind : slave.order.find? (·.address = address) = some node) (f : SdoCacheEntry → SdoCacheEntry) :
    ∃ after, slave.access config.evictionPolicy ticks address f = some after ∧ Kept config (ticks + 1) next after := by
  obtain ⟨after, hafter, hindex, hlinked⟩ := h.linked.access hfind config.evictionPolicy ticks f
  refine ⟨after, hafter, hlinked, hindex ▸ h.size, ?_, ?_⟩
  all_goals
    unfold Slave.access at hafter
    rw [hfind] at hafter
    cases hafter
  · intro other hother
    simp only at hother
    split at hother
    · rcases List.mem_cons.1 hother with rfl | hother
      · exact Nat.lt_succ_self ticks
      · exact Nat.lt_succ_of_lt (h.used other (List.mem_of_mem_filter hother))
    · obtain ⟨old, hold, rfl⟩ := List.mem_map.1 hother
      split
      · exact Nat.lt_succ_self ticks
      · exact Nat.lt_succ_of_lt (h.used old hold)
  · have horder := h.order
    unfold Later at horder ⊢
    simp only
    split
    · rename_i hlru
      simp only [hlru, if_true] at horder ⊢
      refine List.pairwise_cons.2 ⟨fun other hother => ?_, horder.sublist List.filter_sublist⟩
      exact Nat.le_of_lt (h.used other (List.mem_of_mem_filter hother))
    · rename_i hlru
      simp only [hlru, if_false] at horder ⊢
      have haddress : node.address = address := by simpa using List.find?_some hfind
      have hsame (other : LruNode) : (if other.address = address then
          ({ node with entry := f node.entry, used := ticks } : LruNode) else other).address = other.address := by
        split
        · rename_i heq
          exact haddress.trans heq.symm
        · rfl
      rw [List.pairwise_map]
      exact horder.imp fun {a b} hle => by rw [hsame a, hsame b]; exact hle

theorem evictLoop_sublist (config : SdoCacheConfig) (fuel : Nat) (slave : Slave) (evictions : List Eviction) :
    (evictLoop config fuel slave evictions).1.order.Sublist slave.order := by
  induction fuel generalizing slave evictions with
  | zero => exact List.Sublist.refl _
  | succ fuel ih =>
    rw [evictLoop]
    split
    · split
      · exact List.Sublist.refl _
      · exact (ih ⟨_, slave.order.dropLast⟩ _).trans (List.dropLast_sublist _)
    · exact List.Sublist.refl _

theorem Kept.evictLoop (h : Kept config ticks next slave) :
    Kept config ticks next (evictLoop config slave.order.length slave []).1 := by
  obtain ⟨hlinked, hroom⟩ := h.linked.evictLoop config (Nat.le_refl _) []
  have hsublist := evictLoop_sublist config slave.order.length slave []
  exact ⟨hlinked, Int.le_of_lt hroom, fun node hnode => h.used node (hsublist.mem hnode), h.order.sublist hsublist⟩

/-- One node makes room. -/
theorem Kept.evictions (h : Kept config ticks next slave) : (SdoCache.evictLoop config slave.order.length slave []).2 =
    if config.maxEntriesPerSlave ≤ slave.index.entries.length then
      slave.order.getLast?.toList.map fun victim => ⟨victim, slave.order⟩
    else [] := by
  have hroom := config.room
  have hsize := h.size
  have hlength := h.linked.length
  cases hfuel : slave.order.length with
  | zero =>
    rw [if_neg (by omega)]
    rfl
  | succ fuel =>
    rw [SdoCache.evictLoop]
    split
    · cases hlast : slave.order.getLast? with
      | none => rfl
      | some victim =>
        -- one less is enough
        have hless := (h.linked.popBack hlast).length
        simp only [List.length_dropLast] at hless
        cases fuel with
        | zero => rfl
        | succ fuel =>
          simp only
          rw [SdoCache.evictLoop, if_neg (by simp only; omega)]
          rfl
    · rfl

theorem Kept.pushFront (h : Kept config ticks next slave) (hroom : (slave.index.entries.length : Int) < config.maxEntriesPerSlave)
    {key : String} (hkey : slave.index.value key = none) (entry : SdoCacheEntry) :
    Kept config (ticks + 1) (next + 1) ⟨slave.index.insert key next, ⟨next, key, entry, ticks⟩ :: slave.order⟩ := by
  refine ⟨h.linked.pushFront hkey entry ticks, ?_, fun node hnode => ?_, List.pairwise_cons.2 ⟨fun node hnode => ?_, h.order⟩⟩
  · rw [QHash.length_insert hkey]
    exact Int.add_one_le_of_lt hroom
  · rcases List.mem_cons.1 hnode with rfl | hnode
    · exact Nat.lt_succ_self ticks
    · exact Nat.lt_succ_of_lt (h.used node hnode)
  · unfold Later
    split
    · exact Nat.le_of_lt (h.used node hnode)
    · have hallocated := h.linked.allocated (node.key, node.address) (List.mem_map.2 ⟨node, hnode, rfl⟩)
      exact Nat.le_of_lt hallocated

/-- The last node is behind all others. -/
theorem Kept.last (h : Kept config ticks next slave) {victim : LruNode} (hlast : slave.order.getLast? = some victim) :
    ∀ node ∈ slave.order, Later config.evictionPolicy node victim := by
  have horder := h.order
  have hsplit := List.dropLast_append_getLast? victim hlast
  rw [← hsplit, List.pairwise_append] at horder
  intro node hnode
  rw [← hsplit] at hnode
  rcases List.mem_append.1 hnode with hnode | hnode
  · exact horder.2.2 node hnode victim List.mem_cons_self
  · rw [List.mem_singleton.1 hnode]
    unfold Later
    split <;> exact Nat.le_refl _

end

/-- The nodes that an operation has to make room with. -/
def made (s : Service) : Op → List Eviction
  | .cacheValue position index subIndex _ =>
    if (s.slave position).index.value (makeKey index subIndex) = none ∧
        s.config.maxEntriesPerSlave ≤ (s.slave position).index.entries.length then
      (s.slave position).order.getLast?.toList.map fun victim => ⟨victim, (s.slave position).order⟩
    else []
  | _ => []

/-- What an operation keeps, and which nodes it evicts. -/
structure Ran (s after : Service) (o : Op) : Prop where
  config : after.config = s.config
  kept : AllKept s.config (s.ticks + 1) after.next after.slaves
  ticks : after.ticks = s.ticks
  evictions : after.evictions = s.evictions ++ made s o

section
variable {s after : Service}

theorem AllKept.slave (h : AllKept s.config s.ticks s.next s.slaves) (position : Int) :
    Kept s.config s.ticks s.next (s.slave position) := by
  unfold Service.slave
  cases hvalue : s.slaves.value position with
  | none => exact kept_empty s.config s.ticks s.next
  | some slave => exact h position slave hvalue

variable (h : AllKept s.config s.ticks s.next s.slaves)
include h

theorem AllKept.sound : Sound s := fun position slave hvalue => (h position slave hvalue).linked

theorem AllKept.tick : AllKept s.config (s.ticks + 1) s.next s.slaves :=
  fun position slave hvalue => (h position slave hvalue).mono (Nat.le_succ _) (Nat.le_refl _)

theorem ran_cacheValue {position : Int} {index subIndex value : String}
    (hrun : cacheValue position index subIndex value s = some after) : Ran s after (.cacheValue position index subIndex value) := by
  have hslave := h.slave position
  cases hkey : (s.slave position).index.value (makeKey index subIndex) with
  | some address =>
    obtain ⟨node, hfind⟩ := hslave.linked.find hkey
    obtain ⟨slave, haccess, hkept⟩ := hslave.access hfind fun entry => ⟨value, s.now, entry.accessCount + 1⟩
    unfold cacheValue at hrun
    simp only [hkey, haccess, Option.map_some] at hrun
    cases hrun
    refine ⟨rfl, AllKept.insert h (Nat.le_succ _) (Nat.le_refl _) hkept position, rfl, ?_⟩
    simp [made, hkey]
  | none =>
    have hgone := evictLoop_value s.config (s.slave position).order.length hkey []
    obtain ⟨-, hroom⟩ := hslave.linked.evictLoop s.config (Nat.le_refl _) []
    unfold cacheValue at hrun
    simp only [hkey, evictIfNeeded, evictExpired_eq] at hrun
    split at hrun
    · cases hrun
    · cases hrun
      refine ⟨rfl, AllKept.insert h (Nat.le_succ _) (Nat.le_succ _) (hslave.evictLoop.pushFront hroom hgone _) position, rfl, ?_⟩
      simp only [hslave.evictions, made, hkey, true_and]

theorem ran_getCachedValue {position : Int} {index subIndex : String} {r : String × Service}
    (hrun : getCachedValue position index subIndex s = some r) : Ran s r.2 (.getCachedValue position index subIndex) := by
  have hmiss : Ran s { s with misses := s.misses + 1 } (.getCachedValue position index subIndex) :=
    ⟨rfl, h.tick, rfl, (List.append_nil _).symm⟩
  unfold getCachedValue at hrun
  split at hrun
  · cases hrun
    exact hmiss
  · rename_i slave hslave
    have hkept := h position slave hslave
    split at hrun
    · cases hrun
      exact hmiss
    · rename_i address hkey
      obtain ⟨node, hfind⟩ := hkept.linked.find hkey
      rw [hfind, Option.bind_some] at hrun
      split at hrun
      · cases hrun
        exact hmiss
      · obtain ⟨slave, haccess, hkept⟩ := hkept.access hfind fun entry => { entry with accessCount := entry.accessCount + 1 }
        simp only [haccess, Option.map_some] at hrun
        cases hrun
        exact ⟨rfl, AllKept.insert h (Nat.le_succ _) (Nat.le_refl _) hkept position, rfl, (List.append_nil _).symm⟩

theorem ran_run {o : Op} (hrun : s.run o = some after) : Ran s after o := by
  cases o with
  | cacheValue position index subIndex value => exact ran_cacheValue h hrun
  | getCachedValue position index subIndex =>
    obtain ⟨r, hr, rfl⟩ := Option.map_eq_some_iff.1 hrun
    exact ran_getCachedValue h hr
  | invalidateCache position =>
    cases hrun
    refine ⟨rfl, fun position' slave hvalue => ?_, rfl, (List.append_nil _).symm⟩
    rw [QHash.value_erase] at hvalue
    split at hvalue
    · cases hvalue
    · exact h.tick position' slave hvalue
  | invalidateAll =>
    cases hrun
    exact ⟨rfl, fun _ _ hvalue => (by cases hvalue), rfl, (List.append_nil _).symm⟩
  | advance ms =>
    cases hrun
    exact ⟨rfl, h.tick, rfl, (List.append_nil _).symm⟩

/-- The policy names the nodes that make room iff under LFU the last one has the
least count. -/
theorem named_made_iff {o : Op} (hrun : s.run o = some after) :
    (∀ e ∈ made s o, Named s.config.evictionPolicy e) ↔ Least s o := by
  cases o with
  | cacheValue position index subIndex value =>
    have hslave := h.slave position
    by_cases hfull : (s.slave position).index.value (makeKey index subIndex) = none ∧
        s.config.maxEntriesPerSlave ≤ (s.slave position).index.entries.length
    · have hfresh : backExpired s.config s.now (s.slave position) = false := by
        by_contra hexpired
        have hnone := cacheValue_expired position index subIndex value hfull.1 (Bool.not_eq_false _ ▸ hexpired)
        rw [Service.run, hnone] at hrun
        cases hrun
      simp only [made, Least, hfull.1, hfresh, hfull.2, forall_const]
      cases hlast : (s.slave position).order.getLast? with
      | none => simp
      | some victim =>
        have hbehind := hslave.last hlast
        simp only [Option.toList_some, List.map_singleton, Option.some.injEq, forall_eq']
        unfold Later at hbehind
        unfold Named
        cases hpolicy : s.config.evictionPolicy with
        | lru => simpa [hpolicy] using hbehind
        | lfu => simp
        | fifo => simpa [hpolicy] using hbehind
    · simp only [made, if_neg hfull, List.not_mem_nil, false_implies, implies_true, true_iff]
      exact fun _ hkey _ hsize => absurd ⟨hkey, hsize⟩ hfull
  | _ => simp [made, Least]

theorem least_of_run_none {o : Op} (hrun : s.run o = none) : Least s o := by
  cases o with
  | cacheValue position index subIndex value =>
    intro _ hkey hfresh
    obtain ⟨after, hafter, -⟩ := cacheValue_new h.sound position index subIndex value hkey hfresh
    exact nomatch hrun.symm.trans hafter
  | _ => trivial

end

/-- **The policy names every victim** of a run iff under LFU the last node, which is
the earliest inserted, has the least count wherever room is made. -/
theorem policy_iff (config : SdoCacheConfig) (ops : List Op) :
    (∀ pre, pre <+: ops → ∀ s, exec stepOp (some { config := config }) pre = some s → Right s) ↔
      Along stepOp (fun s o => ∀ before, s = some before → Least before o) (some { config := config }) ops := by
  let kept (s : Option Service) : Prop := ∀ before, s = some before → AllKept before.config before.ticks before.next before.slaves
  have hkept : ∀ s o, kept s → kept (stepOp s o) := by
    intro s o h after hafter
    obtain ⟨before, rfl, hstep⟩ := Option.bind_eq_some_iff.1 hafter
    obtain ⟨after, hrun, rfl⟩ := Option.map_eq_some_iff.1 hstep
    have hran := ran_run (h before rfl) hrun
    simp only [hran.config, hran.ticks]
    exact hran.kept
  refine along_iff (I := fun s => ∀ before, s = some before → Right before) stepOp hkept (fun s o h hright => ?_) ops ?_ ?_
  · cases s with
    | none => exact iff_of_true (fun after hafter => (nomatch hafter)) fun before hbefore => (nomatch hbefore)
    | some before =>
      have hbefore := h before rfl
      have hright := hright before rfl
      cases hrun : before.run o with
      | none =>
        refine iff_of_true (fun after hafter => ?_) fun s hs => Option.some.inj hs ▸ least_of_run_none hbefore hrun
        rw [stepOp, Option.bind_some, hrun] at hafter
        cases hafter
      | some after =>
        have hran := ran_run hbefore hrun
        have hstep : stepOp (some before) o = some { after with ticks := after.ticks + 1 } := by
          rw [stepOp, Option.bind_some, hrun, Option.map_some]
        rw [hstep]
        constructor
        · intro hafter s hs
          cases hs
          refine (named_made_iff hbefore hrun).1 fun e he => ?_
          have hnamed := hafter _ rfl e (by simp only [hran.evictions]; exact List.mem_append_right _ he)
          simpa only [hran.config] using hnamed
        · intro hleast s hs e he
          cases hs
          simp only [hran.evictions, hran.config] at he ⊢
          rcases List.mem_append.1 he with he | he
          · exact hright e he
          · exact (named_made_iff hbefore hrun).2 (hleast before rfl) e he
  · rintro before hbefore position slave hvalue
    cases hbefore
    cases hvalue
  · intro s hs e he
    cases hs
    cases he

/-! ## Runs that go wrong -/

/-- A key is cached behind one that has expired. -/
theorem expired_touched : ¬ ∀ (config : SdoCacheConfig) (es : List Ev), Along step StepFine (some { config := config }) es := by
  intro h
  obtain ⟨-, -, ⟨_, _, -, hstep, -⟩, -⟩ := h { ttlMs := 10 }
    [.op (.cacheValue 0 "0x6000" "0x01" "1"), .op (.advance 11), .op (.cacheValue 0 "0x6000" "0x02" "2")]
  exact nomatch (show (none : Option Service) = some _ from hstep)

/-- Under LFU the entry that was read makes room for a new one. -/
theorem read_evicted : ¬ ∀ (config : SdoCacheConfig) (ops : List Op) (pre : List Op), pre <+: ops →
    ∀ s, exec stepOp (some { config := config }) pre = some s → Right s := by
  intro h
  let ops : List Op := [.cacheValue 0 "0x6000" "0x01" "1", .getCachedValue 0 "0x6000" "0x01",
    .cacheValue 0 "0x6000" "0x02" "2", .cacheValue 0 "0x6000" "0x03" "3"]
  have hright := h { maxEntriesPerSlave := 2, evictionPolicy := .lfu } ops ops (List.prefix_refl ops) _ rfl
  have hnamed := hright _ List.mem_cons_self
  exact absurd (hnamed _ List.mem_cons_self) (by decide)

end NekoEcat.L4.SdoCache
