import Mathlib.Data.List.TakeWhile
import NekoEcat.L2Daemon.FreeRunStart

/-!
# Registering the entries of the configuration

`start` fills the registrations, the runtime entries and the offset vectors in
one pass over the slave tree; `ecrt_domain_reg_pdo_entry_list` then walks the
registrations up to the first index 0, which is also the index of a gap entry.

* `body_laid`: the vectors of a successful start, in closed form.
* `registered_iff`: every entry was registered iff the gaps come last.
-/
namespace NekoEcat.L2.FreeRunStart
open NekoEcat.Bytes NekoEcat.Fallible NekoEcat.L1.Shm NekoEcat.L2.CStruct NekoEcat.L2.Mirror NekoEcat.L2.FreeRun

/-! ## The vectors -/

/-- An entry and where it is in the tree. -/
structure Slot where
  slave : SlaveSpec
  sync : SyncSpec
  pdo : PdoSpec
  entry : EntrySpec

def slots (slave : SlaveSpec) : List Slot :=
  slave.syncs.flatMap fun sync => sync.pdos.flatMap fun pdo => pdo.entries.map fun entry => ⟨slave, sync, pdo, entry⟩

/-- The registration of the n-th entry. -/
def registration (n : Nat) (x : Slot) : Registration where
  aliasAddress := x.slave.aliasAddress
  position := x.slave.position
  vendorId := x.slave.vendorId
  productCode := x.slave.productCode
  index := x.entry.index
  subindex := x.entry.subindex
  offset := n
  bitPosition := n

def entryRef (n : Nat) (x : Slot) : EntryRef where
  slavePosition := x.slave.position
  syncIndex := x.sync.index
  direction := if x.sync.direction = .output then "RxPDO" else "TxPDO"
  pdoIndex := x.pdo.index
  index := x.entry.index
  subindex := x.entry.subindex
  bitLength := x.entry.bitLength
  name := String.ofList x.entry.name
  offset := n
  bitPosition := n

/-- The two vectors hold these entries. -/
def Filled (xs : List Slot) (c : Controller) : Prop :=
  c.registrations = xs.mapIdx registration ∧ c.runtimeEntries = xs.mapIdx entryRef

theorem Filled.push {xs : List Slot} {c : Controller} (h : Filled xs c) (x : Slot) :
    Filled (xs ++ [x]) (pushEntry x.slave x.sync x.pdo c x.entry) := by
  have hlen : c.runtimeEntries.length = xs.length := by rw [h.2, List.length_mapIdx]
  unfold Filled
  rw [List.mapIdx_concat, List.mapIdx_concat, ← h.1, ← h.2, ← hlen]
  exact ⟨rfl, rfl⟩

/-- A loop whose rounds append. -/
theorem Filled.foldl {α : Type} {f : Controller → α → Controller} {g : α → List Slot}
    (h : ∀ xs c a, Filled xs c → Filled (xs ++ g a) (f c a)) (l : List α) {xs : List Slot} {c : Controller}
    (hc : Filled xs c) : Filled (xs ++ l.flatMap g) (l.foldl f c) := by
  induction l generalizing xs c with
  | nil => rw [List.flatMap_nil, List.append_nil]; exact hc
  | cons a l ih =>
    rw [List.flatMap_cons, ← List.append_assoc]
    exact ih (h xs c a hc)

theorem Filled.pushEntries {xs : List Slot} {c : Controller} (h : Filled xs c) (slave : SlaveSpec) :
    Filled (xs ++ slots slave) (FreeRunStart.pushEntries slave c) := by
  refine Filled.foldl (fun xs c sync hc => ?_) slave.syncs h
  refine Filled.foldl (fun xs c pdo hc => ?_) sync.pdos hc
  have := Filled.foldl (f := pushEntry slave sync pdo) (g := fun entry => [⟨slave, sync, pdo, entry⟩])
    (fun xs c entry hc => hc.push ⟨slave, sync, pdo, entry⟩) pdo.entries hc
  rw [List.map_eq_flatMap]
  exact this

/-! ## The walk of the registrations -/

/-- `reg->index` -/
def listed (reg : Registration) : Bool := reg.index != 0

/-- How many registrations are walked. -/
def walked (regs : List Registration) : Nat := (regs.takeWhile listed).length

/-- One vector in the walk. -/
def written (place : Nat → UInt32) (n m : Nat) (v : List UInt32) (p : Nat) : Option UInt32 :=
  if n ≤ p ∧ p < m then v[p]?.map fun _ => place p else v[p]?

theorem written_set (place : Nat → UInt32) (n m : Nat) (v : List UInt32) (p : Nat) (h : n < m) :
    written place (n + 1) m (v.set n (place n)) p = written place n m v p := by
  unfold written
  by_cases hp : p = n
  · subst hp
    rw [if_neg (by omega), if_pos (by omega), List.getElem?_set_self']
    cases v[p]? <;> rfl
  · rw [List.getElem?_set_ne (Ne.symm hp)]
    by_cases hle : n ≤ p ∧ p < m
    · rw [if_pos hle, if_pos (by omega)]
    · rw [if_neg hle, if_neg (by omega)]

/-- **What the walk writes**: the places of the registrations walked, when each
points to its own element. -/
theorem regList_spec (place : Nat → UInt32 × UInt32) {n : Nat} {regs : List Registration}
    (h : ∀ k reg, regs[k]? = some reg → listed reg = true → reg.offset = n + k ∧ reg.bitPosition = n + k)
    (v : List UInt32 × List UInt32) (p : Nat) :
    (regList place n regs v).1[p]? = written (fun i => (place i).1) n (n + walked regs) v.1 p ∧
      (regList place n regs v).2[p]? = written (fun i => (place i).2) n (n + walked regs) v.2 p := by
  induction regs generalizing n v with
  | nil =>
    have hno : ¬ (n ≤ p ∧ p < n + walked []) := by simp only [walked, List.takeWhile_nil, List.length_nil]; omega
    exact ⟨(if_neg hno).symm, (if_neg hno).symm⟩
  | cons reg regs ih =>
    by_cases hreg : listed reg = true
    · have hw : n + walked (reg :: regs) = n + 1 + walked regs := by
        simp only [walked, List.takeWhile_cons_of_pos hreg, List.length_cons]; omega
      obtain ⟨ho, hb⟩ := h 0 reg rfl hreg
      have hrest := ih (n := n + 1) (fun k reg' hk hl => by
        have := h (k + 1) reg' hk hl
        omega) (v.1.set reg.offset (place n).1, v.2.set reg.bitPosition (place n).2)
      rw [hw, regList, if_neg (by simpa [listed] using hreg), hrest.1, hrest.2, ho, hb, Nat.add_zero]
      exact ⟨written_set (fun i => (place i).1) n _ v.1 p (by omega),
        written_set (fun i => (place i).2) n _ v.2 p (by omega)⟩
    · have hno : ¬ (n ≤ p ∧ p < n + walked (reg :: regs)) := by
        rw [walked, List.takeWhile_cons_of_neg hreg, List.length_nil]; omega
      rw [regList, if_pos (by simpa [listed] using hreg)]
      exact ⟨(if_neg hno).symm, (if_neg hno).symm⟩

/-- A registration is walked iff none up to it has index 0. -/
theorem lt_walked {regs : List Registration} {k : Nat} :
    k < walked regs ↔ k < regs.length ∧ ∀ i ≤ k, ∀ reg, regs[i]? = some reg → listed reg = true := by
  induction regs generalizing k with
  | nil => simp [walked]
  | cons reg regs ih =>
    by_cases hreg : listed reg = true
    · have hw : walked (reg :: regs) = walked regs + 1 := by
        rw [walked, List.takeWhile_cons_of_pos hreg, List.length_cons, walked]
      rw [hw, List.length_cons]
      cases k with
      | zero =>
        refine ⟨fun _ => ⟨by omega, fun i hi reg' hr => ?_⟩, fun _ => by omega⟩
        rw [Nat.le_zero.1 hi] at hr
        obtain rfl : reg = reg' := by simpa using hr
        exact hreg
      | succ k =>
        rw [Nat.add_lt_add_iff_right, Nat.add_lt_add_iff_right, ih]
        refine and_congr_right fun _ => ⟨fun h i hi reg' hr => ?_, fun h i hi reg' hr => ?_⟩
        · cases i with
          | zero =>
            obtain rfl : reg = reg' := by simpa using hr
            exact hreg
          | succ i => exact h i (by omega) reg' (by simpa using hr)
        · exact h (i + 1) (by omega) reg' (by simpa using hr)
    · have hw : walked (reg :: regs) = 0 := by rw [walked, List.takeWhile_cons_of_neg hreg, List.length_nil]
      rw [hw]
      refine ⟨fun h => absurd h (Nat.not_lt_zero k), fun h => ?_⟩
      exact absurd (h.2 0 (Nat.zero_le k) reg rfl) hreg

/-! ## A successful start -/

def allSlots (slaves : List SlaveSpec) : List Slot := slaves.flatMap slots

theorem length_slots (slave : SlaveSpec) :
    (slots slave).length = (slave.syncs.map fun sync => (sync.pdos.map (·.entries.length)).sum).sum := by
  simp [slots, List.length_flatMap]

theorem length_allSlots (slaves : List SlaveSpec) : (allSlots slaves).length = totalEntries slaves := by
  simp only [allSlots, List.length_flatMap, length_slots, totalEntries]

/-- The offset vectors before the registration. -/
def zeros (slaves : List SlaveSpec) : List UInt32 := List.replicate (totalEntries slaves) 0

/-- The vectors of a configured controller. -/
structure Laid (place : Nat → UInt32 × UInt32) (slaves : List SlaveSpec) (c : Controller) : Prop where
  registrations : c.registrations = (allSlots slaves).mapIdx registration ++ [terminator]
  runtimeEntries : c.runtimeEntries = (allSlots slaves).mapIdx entryRef
  offsets : c.offsets = (regList place 0 c.registrations (zeros slaves, zeros slaves)).1
  bitPositions : c.bitPositions = (regList place 0 c.registrations (zeros slaves, zeros slaves)).2
  mirrorEntries : c.mirrorEntries = buildMirrorEntries c.entries

/-- The loop over the slaves, `done` of them configured. -/
def Filling (slaves done : List SlaveSpec) (s : State) : Prop :=
  Filled (allSlots done) s.c ∧ s.c.offsets = zeros slaves ∧ s.c.bitPositions = zeros slaves

theorem configureSlave_filling (env : Env) (slaves done : List SlaveSpec) (n : Nat) (slave : SlaveSpec) :
    Triple (Filling slaves done) (configureSlave env n slave) (Filling slaves (done ++ [slave])) fun _ => True := by
  intro s h
  have hfilled : Filled (allSlots (done ++ [slave])) (pushEntries slave s.c) := by
    have := h.1.pushEntries slave
    rwa [allSlots, List.flatMap_append, List.flatMap_singleton]
  have hvectors : (pushEntries slave s.c).offsets = zeros slaves ∧ (pushEntries slave s.c).bitPositions = zeros slaves :=
    pushEntries_keeps (P := fun c => c.offsets = zeros slaves ∧ c.bitPositions = zeros slaves)
      (fun _ _ _ _ hc => hc) h.2
  refine ⟨fun s' hs' => ?_, fun _ _ _ => trivial⟩
  unfold configureSlave at hs'
  cases h1 : env.slaveConfig n with
  | false => simp [h1] at hs'
  | true =>
    cases h2 : env.configPdos n with
    | false => simp [h1, h2] at hs'
    | true =>
      simp only [h1, h2, Bool.not_true, Bool.false_eq_true, if_false] at hs'
      cases hs'
      exact ⟨hfilled, hvectors⟩

/-- An operation that leaves alone what the condition speaks of. -/
theorem triple_of_ok {P Q : State → Prop} {f : Op String State} (h : ∀ s s', P s → f s = .ok s' → Q s') :
    Triple P f Q fun _ => True :=
  fun s hs => ⟨fun s' => h s s' hs, fun _ _ _ => trivial⟩

/-- Registered, the mirror entries still to be built. -/
def Registered (place : Nat → UInt32 × UInt32) (slaves : List SlaveSpec) (s : State) : Prop :=
  s.c.registrations = (allSlots slaves).mapIdx registration ++ [terminator] ∧
  s.c.runtimeEntries = (allSlots slaves).mapIdx entryRef ∧
  s.c.offsets = (regList place 0 s.c.registrations (zeros slaves, zeros slaves)).1 ∧
  s.c.bitPositions = (regList place 0 s.c.registrations (zeros slaves, zeros slaves)).2

theorem registerEntries_registered (env : Env) (slaves : List SlaveSpec) :
    Triple (Filling slaves slaves) (registerEntries env) (Registered env.place slaves) fun _ => True := by
  refine triple_of_ok fun s s' h hs' => ?_
  unfold registerEntries at hs'
  cases hr : env.regList with
  | false => simp [hr] at hs'
  | true =>
    simp only [hr, Bool.not_true, Bool.false_eq_true, if_false] at hs'
    cases hs'
    obtain ⟨⟨h1, h2⟩, h3, h4⟩ := h
    refine ⟨?_, h2, ?_, ?_⟩
    · show s.c.registrations ++ [terminator] = _
      rw [h1]
    · show (FreeRunStart.regList env.place 0 (s.c.registrations ++ [terminator]) (s.c.offsets, s.c.bitPositions)).1 = _
      rw [h3, h4]
    · show (FreeRunStart.regList env.place 0 (s.c.registrations ++ [terminator]) (s.c.offsets, s.c.bitPositions)).2 = _
      rw [h3, h4]

theorem configure_laid (env : Env) (masterIndex : UInt32) (slaves : List SlaveSpec) :
    Triple (fun _ => True) (configure env masterIndex slaves) (fun s => Laid env.place slaves s.c) fun _ => True := by
  have htrivial : ∀ f : Op String State, Triple (fun _ => True) f (fun _ => True) fun _ => True :=
    fun f => triple_of_ok fun _ _ _ _ => trivial
  have hprepare : Triple (fun _ => True) (Op.pure (prepare slaves) : Op String State) (Filling slaves []) fun _ => True :=
    Triple.pure fun s _ => ⟨⟨rfl, rfl⟩, rfl, rfl⟩
  have hloop := Triple.eachDone (I := Filling slaves) (configureSlave_filling env slaves) [] 0 slaves
  have hactivate : Triple (Registered env.place slaves) (activate env) (Registered env.place slaves) fun _ => True := by
    refine triple_of_ok fun s s' h hs' => ?_
    unfold activate at hs'
    cases ha : env.activate with
    | false => simp [ha] at hs'
    | true =>
      simp only [ha, if_true] at hs'
      cases hs'
      exact h
  have hdata : Triple (Registered env.place slaves) (takeDomainData env) (Registered env.place slaves) fun _ => True := by
    refine triple_of_ok fun s s' h hs' => ?_
    unfold takeDomainData at hs'
    cases hd : env.domainData with
    | none => simp [hd] at hs'
    | some d =>
      simp only [hd] at hs'
      cases hs'
      exact h
  refine (htrivial _).andThen ?_
  refine (htrivial _).andThen ?_
  refine hprepare.andThen ?_
  refine hloop.andThen ?_
  refine (registerEntries_registered env slaves).andThen ?_
  refine hactivate.andThen ?_
  refine hdata.andThen ?_
  exact Triple.pure fun s h => ⟨h.1, h.2.1, h.2.2.1, h.2.2.2, rfl⟩

theorem body_laid (env : Env) (masterIndex : UInt32) (slaves : List SlaveSpec) :
    Triple (fun _ => True) (body env masterIndex slaves) (fun s => Laid env.place slaves s.c) fun _ => True := by
  refine (configure_laid env masterIndex slaves).andThen ?_
  have hshm : Triple (fun s => Laid env.place slaves s.c) (openShm env) (fun s => Laid env.place slaves s.c)
      fun _ => True := by
    refine triple_of_ok fun s s' h hs' => ?_
    unfold openShm initSharedMemory at hs'
    cases ho : env.shmOpen with
    | none => simp [ho] at hs'
    | some fd =>
      cases ht : env.ftruncate with
      | false => simp [ho, ht] at hs'
      | true =>
        cases hm : env.mmap with
        | none => simp [ho, ht, hm] at hs'
        | some m =>
          simp only [ho, ht, hm, Bool.not_true, Bool.false_eq_true, if_false] at hs'
          cases hs'
          exact ⟨h.registrations, h.runtimeEntries, h.offsets, h.bitPositions, h.mirrorEntries⟩
  refine hshm.andThen ?_
  exact Triple.pure fun s h => ⟨h.registrations, h.runtimeEntries, h.offsets, h.bitPositions, h.mirrorEntries⟩

/-- A start that ends well on a controller that does not run went through the
whole of `body`. -/
theorem start_laid {env : Env} {masterIndex : UInt32} {s : State} {slaves : List SlaveSpec}
    (hr : s.c.running = false) (hd : env.discovery = .ok slaves) (hok : (start env masterIndex s).1 = .ok ()) :
    Laid env.place slaves (start env masterIndex s).2.c := by
  unfold start at hok ⊢
  rw [if_neg (by rw [hr]; exact Bool.false_ne_true)] at hok ⊢
  simp only [hd] at hok ⊢
  by_cases hempty : slaves.isEmpty
  · simp [hempty] at hok
  · simp only [hempty, Bool.false_eq_true, if_false] at hok ⊢
    cases hb : body env masterIndex slaves s with
    | ok s' => exact (body_laid env masterIndex slaves s trivial).1 s' hb
    | error r => simp [hb] at hok

/-! ## Which entries are registered -/

/-- Every entry with an index was walked and holds what the domain assigned to
it, in its own fields and in the mirror. -/
def EntriesRegistered (place : Nat → UInt32 × UInt32) (c : Controller) : Prop :=
  ∀ k e, c.runtimeEntries[k]? = some e → e.index ≠ 0 →
    k < walked c.registrations ∧ (c.deref e).offset = some (place k).1 ∧ (c.deref e).bitPosition = some (place k).2 ∧
      c.mirrorEntries[k]?.map (·.offset) = some (place k).1

/-- No entry with an index comes after a gap entry. -/
def GapsLast (slaves : List SlaveSpec) : Prop :=
  (allSlots slaves).Pairwise fun a b => a.entry.index = 0 → b.entry.index = 0

section
variable {place : Nat → UInt32 × UInt32} {slaves : List SlaveSpec} {c : Controller} (h : Laid place slaves c)
include h

theorem Laid.registration_get {k : Nat} {x : Slot} (hx : (allSlots slaves)[k]? = some x) :
    c.registrations[k]? = some (registration k x) := by
  have hk : k < (allSlots slaves).length := (List.getElem?_eq_some_iff.1 hx).1
  rw [h.registrations, List.getElem?_append_left (by simpa using hk), List.getElem?_mapIdx, hx]
  rfl

theorem Laid.entry_get {k : Nat} {e : EntryRef} :
    c.runtimeEntries[k]? = some e ↔ ∃ x, (allSlots slaves)[k]? = some x ∧ e = entryRef k x := by
  rw [h.runtimeEntries, List.getElem?_mapIdx, Option.map_eq_some_iff]
  exact exists_congr fun x => and_congr_right fun _ => eq_comm

theorem Laid.walked_iff {k : Nat} {x : Slot} (hx : (allSlots slaves)[k]? = some x) :
    k < walked c.registrations ↔ ∀ i ≤ k, ∀ y, (allSlots slaves)[i]? = some y → y.entry.index ≠ 0 := by
  have hk : k < (allSlots slaves).length := (List.getElem?_eq_some_iff.1 hx).1
  have hlen : k < c.registrations.length := by
    rw [h.registrations, List.length_append, List.length_mapIdx]; omega
  rw [lt_walked, and_iff_right hlen]
  constructor
  · intro hw i hi y hy
    have := hw i hi _ (h.registration_get hy)
    simpa [listed, registration] using this
  · intro hs i hi reg hr
    have hy : (allSlots slaves)[i]? = some (allSlots slaves)[i] := List.getElem?_eq_getElem (by omega)
    rw [h.registration_get hy] at hr
    cases hr
    simpa [listed, registration] using hs i hi _ hy

/-- What a walked entry holds. -/
theorem Laid.walked_get {k : Nat} {x : Slot} (hx : (allSlots slaves)[k]? = some x) (hw : k < walked c.registrations) :
    c.offsets[k]? = some (place k).1 ∧ c.bitPositions[k]? = some (place k).2 := by
  have hk : k < (allSlots slaves).length := (List.getElem?_eq_some_iff.1 hx).1
  have hpoint : ∀ i reg, c.registrations[i]? = some reg → listed reg = true →
      reg.offset = 0 + i ∧ reg.bitPosition = 0 + i := by
    intro i reg hr hl
    rw [h.registrations] at hr
    by_cases hi : i < (allSlots slaves).length
    · rw [List.getElem?_append_left (by simpa using hi), List.getElem?_mapIdx, Option.map_eq_some_iff] at hr
      obtain ⟨y, -, rfl⟩ := hr
      exact ⟨(Nat.zero_add i).symm, (Nat.zero_add i).symm⟩
    · rw [List.getElem?_append_right (by simpa using hi)] at hr
      have hterm : reg = terminator := List.mem_singleton.1 (List.mem_of_getElem? hr)
      rw [hterm] at hl
      cases hl
  have hspec := regList_spec place hpoint (zeros slaves, zeros slaves) k
  have hz : (zeros slaves)[k]? = some 0 := by
    rw [zeros, List.getElem?_replicate, if_pos (by rw [← length_allSlots]; exact hk)]
  have hin : 0 ≤ k ∧ k < 0 + walked c.registrations := ⟨Nat.zero_le k, by omega⟩
  rw [h.offsets, h.bitPositions, hspec.1, hspec.2, written, written, if_pos hin, if_pos hin]
  exact ⟨by rw [hz]; rfl, by rw [hz]; rfl⟩

theorem Laid.mirror_get {k : Nat} {e : EntryRef} (he : c.runtimeEntries[k]? = some e) :
    c.mirrorEntries[k]? = some (mirrorEntry (c.deref e)) := by
  rw [h.mirrorEntries, buildMirrorEntries, Controller.entries, List.getElem?_map, List.getElem?_map, he]
  rfl

/-- **Every entry is registered iff the gaps come last.** -/
theorem Laid.entries_iff : EntriesRegistered place c ↔ GapsLast slaves := by
  rw [GapsLast, List.pairwise_iff_getElem]
  constructor
  · intro hreg i j hi hj hij hzero
    by_contra hne
    have hy : (allSlots slaves)[j]? = some (allSlots slaves)[j] := List.getElem?_eq_getElem hj
    have hw := (hreg j _ (h.entry_get.2 ⟨_, hy, rfl⟩) hne).1
    exact (h.walked_iff hy).1 hw i (by omega) _ (List.getElem?_eq_getElem hi) hzero
  · intro hgaps k e he hne
    obtain ⟨x, hx, rfl⟩ := h.entry_get.1 he
    have hk : k < (allSlots slaves).length := (List.getElem?_eq_some_iff.1 hx).1
    have hw : k < walked c.registrations := by
      refine (h.walked_iff hx).2 fun i hi y hy hzero => hne ?_
      have hi' : i < (allSlots slaves).length := (List.getElem?_eq_some_iff.1 hy).1
      have hyi : (allSlots slaves)[i] = y := (List.getElem?_eq_some_iff.1 hy).2
      have hxk : (allSlots slaves)[k] = x := (List.getElem?_eq_some_iff.1 hx).2
      rcases Nat.lt_or_eq_of_le hi with hlt | rfl
      · have := hgaps i k hi' hk hlt (by rw [hyi]; exact hzero)
        rw [hxk] at this
        exact this
      · rw [hxk] at hyi
        rw [← hyi] at hzero
        exact hzero
    obtain ⟨ho, hb⟩ := h.walked_get hx hw
    have hoff : (c.deref (entryRef k x)).offset = some (place k).1 := ho
    refine ⟨hw, hoff, hb, ?_⟩
    rw [h.mirror_get he, Option.map_some, mirrorEntry, hoff]
    rfl

end

/-- **After a successful start** every entry is registered iff no entry with an
index comes after a gap entry. -/
theorem registered_iff {env : Env} {masterIndex : UInt32} {s : State} {slaves : List SlaveSpec}
    (hr : s.c.running = false) (hd : env.discovery = .ok slaves) (hok : (start env masterIndex s).1 = .ok ()) :
    EntriesRegistered env.place (start env masterIndex s).2.c ↔ GapsLast slaves :=
  (start_laid hr hd hok).entries_iff

/-- One slave with a TxPDO of these entries, 16 bits each. -/
def txPdo (indices : List UInt16) : List SlaveSpec :=
  let pdo : PdoSpec := { index := 0x1a00, entries := indices.map fun i => ⟨i, 0, 16, []⟩ }
  let sync : SyncSpec := { index := 3, direction := .input, watchdog := .disable, pdos := [pdo] }
  [{ aliasAddress := 0, position := 0, vendorId := 2, productCode := 0x07d83052, syncs := [sync] }]

/-- Every call succeeds; the n-th entry is placed at byte 2n. -/
def allSucceed (slaves : List SlaveSpec) : Env where
  discovery := .ok slaves
  requestMaster := some 0
  createDomain := some 0
  slaveConfig _ := true
  configPdos _ := true
  regList := true
  place n := (UInt32.ofNat (2 * n), 0)
  activate := true
  domainData := some []
  masterState := {}
  domainState := {}
  shmOpen := some 3
  ftruncate := true
  mmap := some 0
  object := []

theorem registered_gap_last :
    EntriesRegistered (allSucceed (txPdo [0x6041, 0x6064, 0])).place
      (start (allSucceed (txPdo [0x6041, 0x6064, 0])) 0 (initial false)).2.c :=
  (registered_iff rfl rfl rfl).2 (by simp [GapsLast, allSlots, slots, txPdo])

/-- An entry behind a gap entry keeps the offset 0, which the mirror then uses. -/
theorem gap_stops_registration :
    ¬ EntriesRegistered (allSucceed (txPdo [0x6041, 0, 0x6064])).place
      (start (allSucceed (txPdo [0x6041, 0, 0x6064])) 0 (initial false)).2.c := by
  have hget : (start (allSucceed (txPdo [0x6041, 0, 0x6064])) 0 (initial false)).2.c.runtimeEntries[2]? =
      some ⟨0, 3, "TxPDO", 0x1a00, 0x6064, 0, 16, "", 2, 2⟩ := rfl
  intro h
  have := (h 2 _ hget (by decide)).1
  exact absurd this (by decide)

end NekoEcat.L2.FreeRunStart
