import NekoEcat.L3Plane.DataPlane

/-!
# Which client writes reach the bus

`nekoecat_client_write_raw_at` resolves the active buffer and then copies into
it. A cycle copies an output byte from the active buffer into the inactive one
and into the domain, and flips. So at each moment a byte stored at a covered
position has a future in some of the buffers only: those are the live ones,
and the domain owes the bytes they hold. A client's store to a buffer that is
not live is overwritten or left behind, and the bus never sees it.

* `owes_back`: no publisher step makes the domain owe something new.
* `owes_step`: what is owed stays owed until it is delivered or stored over.
* `no_lost_write_iff`: the writes of a run reach the domain in time if and
  only if their stores are live ones (or store what is owed anyway).
* `late_store_lost`: a store after the cycle's copy and before its flip.
-/
namespace NekoEcat.L3.LostWrite
open NekoEcat.Bytes NekoEcat.Trace NekoEcat.L1.Shm NekoEcat.L2.Mirror NekoEcat.L3.DataPlane

/-- Buffer `b` is live at `p`: the byte it holds there is still copied to the
domain, in the running cycle or in the next one. -/
def Live (s : State) (p : Nat) (b : Fin 2) : Prop :=
  match s.pc with
  | .fill a todo =>
    (b = a ∧ Op.domCopy p ∈ todo) ∨ (b = other a ∧ Op.copyIn p ∉ todo ∧ Op.shmCopy p ∉ todo)
  | _ => b = s.active

/-- A live buffer holds `x` at `p`. -/
def Owes (s : State) (p : Nat) (x : UInt8) : Prop := ∃ b, Live s p b ∧ rd (s.mem.arena.data b) p = x

/-- The byte a client's step stores: buffer, position and value. -/
def clientStore (s : State) : Lbl → Option (Fin 2 × Nat × UInt8)
  | .writeStep w =>
    match s.writers w with
    | .copying b off buf k => if k < buf.length then some (b, off + k, rd buf k) else none
    | _ => none
  | _ => none

/-- The position the publisher's step copies to the domain. -/
def domStore (s : State) : Lbl → Option Nat
  | .tick =>
    match s.pc with
    | .fill _ (.domCopy p :: _) => some p
    | _ => none
  | _ => none

/-- The mirror stores `x` into the domain at `p`. -/
def Delivers (cfg : Config) (s : State) (l : Lbl) (p : Nat) (x : UInt8) : Prop :=
  domStore s l = some p ∧ rd (step cfg s l).mem.domain p = x

/-- A client stores to byte `p` of some buffer. -/
def Stores (s : State) (l : Lbl) (p : Nat) : Prop := ∃ b x, clientStore s l = some (b, p, x)

/-! ## What a cycle does to one position -/

/-- Every store to byte `p` of the inactive buffer is followed by another one
or by the copy to the domain, in this order. -/
def Closed (p : Nat) : List Op → Prop
  | [] => True
  | op :: todo =>
    (op = .copyIn p → Op.shmCopy p ∈ todo) ∧ (op = .shmCopy p → Op.domCopy p ∈ todo) ∧ Closed p todo

theorem closed_of_not_mem {p : Nat} : ∀ {l : List Op}, Op.copyIn p ∉ l → Op.shmCopy p ∉ l → Closed p l
  | [], _, _ => trivial
  | op :: l, h1, h2 => by
    simp only [List.mem_cons, not_or] at h1 h2
    exact ⟨fun h => absurd h.symm h1.1, fun h => absurd h.symm h2.1, closed_of_not_mem h1.2 h2.2⟩

theorem closed_append {p : Nat} : ∀ {l₁ l₂ : List Op}, Closed p l₁ → Closed p l₂ → Closed p (l₁ ++ l₂)
  | [], _, _, h2 => h2
  | _ :: _, _, ⟨hc, hs, h1⟩, h2 =>
    ⟨fun h => List.mem_append_left _ (hc h), fun h => List.mem_append_left _ (hs h), closed_append h1 h2⟩

/-- Stores in front of a list that ends with the copies are closed by it. -/
theorem closed_append_of_mem {p : Nat} {l₂ : List Op} (h2 : Closed p l₂) (hd : Op.domCopy p ∈ l₂) :
    ∀ {l₁ : List Op}, (Op.copyIn p ∈ l₁ → Op.shmCopy p ∈ l₂) → Closed p (l₁ ++ l₂)
  | [], _ => h2
  | op :: l₁, hc => by
    refine ⟨?_, fun _ => List.mem_append_right _ hd, closed_append_of_mem h2 hd ?_⟩
    · intro h
      exact List.mem_append_right _ (hc (h ▸ List.mem_cons_self))
    · intro h
      exact hc (List.mem_cons_of_mem _ h)

/-- The copies of an entry, one position each. -/
theorem mem_entryOps {n p : Nat} {e : ShmMirrorEntry} (h : covers n e p) :
    Op.shmCopy p ∈ entryOps n e ∧ Op.domCopy p ∈ entryOps n e := by
  obtain ⟨ho, hf, h1, h2⟩ := h
  have hi : p - e.offset.toNat < byteLength e.bitLength := by omega
  have hp : e.offset.toNat + (p - e.offset.toNat) = p := by omega
  rw [entryOps, ho, fits_iff.2 hf, Bool.and_self, if_pos rfl]
  constructor
  · exact List.mem_append_left _ (List.mem_map.2 ⟨_, List.mem_range.2 hi, by rw [hp]⟩)
  · exact List.mem_append_right _ (List.mem_map.2 ⟨_, List.mem_range.2 hi, by rw [hp]⟩)

theorem closed_entryOps (n p : Nat) (e : ShmMirrorEntry) : Closed p (entryOps n e) := by
  unfold entryOps
  split
  · -- the second half copies to the domain only
    have hd : Closed p ((List.range (byteLength e.bitLength)).map fun i => Op.domCopy (e.offset.toNat + i)) :=
      closed_of_not_mem (by simp) (by simp)
    by_cases hm : Op.shmCopy p ∈ (List.range (byteLength e.bitLength)).map fun i => Op.shmCopy (e.offset.toNat + i)
    · obtain ⟨i, hi, he⟩ := List.mem_map.1 hm
      simp only [Op.shmCopy.injEq] at he
      refine closed_append_of_mem hd (List.mem_map.2 ⟨i, hi, by rw [he]⟩) ?_
      intro h
      simp at h
    · exact closed_append (closed_of_not_mem (by simp) hm) hd
  · trivial

theorem closed_flatMap (n p : Nat) : ∀ es : List ShmMirrorEntry, Closed p (es.flatMap (entryOps n))
  | [] => trivial
  | e :: es => by
    rw [List.flatMap_cons]
    exact closed_append (closed_entryOps n p e) (closed_flatMap n p es)

/-- A cycle fills a covered position first from the domain, then from the
active buffer, and copies it to the domain last. -/
theorem cycleOps_closed {cfg : Config} {p : Nat} (h : covered cfg.dataSize cfg.entries p) (now : UInt64) :
    Closed p (cycleOps cfg now) ∧ Op.copyIn p ∈ cycleOps cfg now ∧ Op.domCopy p ∈ cycleOps cfg now := by
  obtain ⟨e, he, hc⟩ := h
  obtain ⟨hs, hd⟩ := mem_entryOps hc
  have hs' : Op.shmCopy p ∈ cfg.entries.flatMap (entryOps cfg.dataSize) := List.mem_flatMap.2 ⟨e, he, hs⟩
  have hd' : Op.domCopy p ∈ cfg.entries.flatMap (entryOps cfg.dataSize) := List.mem_flatMap.2 ⟨e, he, hd⟩
  have hhdr : Closed p (ignoredOps cfg ++ [.storeTimestamp now, .orStatus, .addCycle]) := by
    unfold ignoredOps
    refine closed_of_not_mem ?_ ?_ <;> dsimp only <;> split <;> simp
  unfold cycleOps
  refine ⟨?_, ?_, ?_⟩
  · exact closed_append (closed_append_of_mem (closed_flatMap _ p _) hd' fun _ => hs') hhdr
  · refine List.mem_append_left _ (List.mem_append_left _ (List.mem_map.2 ⟨p, ?_, rfl⟩))
    exact List.mem_range.2 (covers_lt hc)
  · exact List.mem_append_left _ (List.mem_append_right _ hd')

/-! ## The invariant -/

/-- The buffers and the domain hold the data area, and a cycle that runs has
its stores in order. -/
structure Inv (cfg : Config) (s : State) : Prop where
  data_length : ∀ b, (s.mem.arena.data b).length = cfg.dataSize
  dom_length : cfg.dataSize ≤ s.mem.domain.length
  closed : ∀ a todo, s.pc = .fill a todo → ∀ p, covered cfg.dataSize cfg.entries p → Closed p todo

theorem inv_init {cfg : Config} {s : State} (h : Init cfg s) : Inv cfg s :=
  ⟨h.data_length, h.dom_length, fun _ _ hf => by rw [h.pc] at hf; cases hf⟩

/-- The arena after a client's store, if there is one. -/
def stored (ar : Arena) : Option (Fin 2 × Nat × UInt8) → Arena
  | some (b, p, x) => setByte ar b p x
  | none => ar

@[simp] theorem stored_hdr (ar : Arena) (o : Option (Fin 2 × Nat × UInt8)) : (stored ar o).hdr = ar.hdr := by
  cases o <;> rfl

@[simp] theorem stored_length (ar : Arena) (o : Option (Fin 2 × Nat × UInt8)) (b : Fin 2) :
    ((stored ar o).data b).length = (ar.data b).length := by
  cases o with
  | none => rfl
  | some t => exact setByte_length ..

theorem writerStep_eq (s : State) (w : Nat) :
    (writerStep s w).mem = ⟨stored s.mem.arena (clientStore s (.writeStep w)), s.mem.domain⟩ ∧
      (writerStep s w).pc = s.pc := by
  cases hw : s.writers w with
  | idle => simp only [writerStep, clientStore, hw]; exact ⟨rfl, trivial⟩
  | called off buf =>
    simp only [writerStep, clientStore, hw]
    split <;> exact ⟨rfl, rfl⟩
  | copying b off buf k =>
    by_cases hk : k < buf.length
    · simp only [writerStep, clientStore, hw, if_pos hk]; exact ⟨rfl, rfl⟩
    · simp only [writerStep, clientStore, hw, if_neg hk]; exact ⟨rfl, rfl⟩
  | done ok => simp only [writerStep, clientStore, hw]; exact ⟨rfl, trivial⟩

/-- What a step does to the memory and to the publisher: a step of the
publisher, the start of a cycle, or no more than a client's store and a new
image in the domain. -/
theorem step_cases (cfg : Config) (s : State) (l : Lbl) :
    (l = .tick ∧ step cfg s l = pubStep s) ∨
    (∃ now, s.pc = .idle ∧ (step cfg s l).mem = s.mem ∧
      (step cfg s l).pc = .fill s.active (cycleOps cfg now)) ∨
    (domStore s l = none ∧ ∃ domain, domain.length = s.mem.domain.length ∧
      (step cfg s l).mem = ⟨stored s.mem.arena (clientStore s l), domain⟩ ∧ (step cfg s l).pc = s.pc) := by
  cases l with
  | tick => exact .inl ⟨rfl, rfl⟩
  | begin now =>
    by_cases h : s.pc = .idle
    · exact .inr (.inl ⟨now, h, by simp [step, h], by simp [step, h]⟩)
    · exact .inr (.inr ⟨rfl, s.mem.domain, rfl, by simp [step, h, clientStore, stored], by simp [step, h]⟩)
  | refresh domain =>
    by_cases h : s.pc = .idle ∧ domain.length = s.mem.domain.length
    · exact .inr (.inr ⟨rfl, domain, h.2, by simp [step, h, clientStore, stored], by simp [step, h]⟩)
    · exact .inr (.inr ⟨rfl, s.mem.domain, rfl, by simp [step, h, clientStore, stored], by simp [step, h]⟩)
  | readCall r off n =>
    refine .inr (.inr ⟨rfl, s.mem.domain, rfl, ?_⟩)
    simp only [step]
    split <;> exact ⟨rfl, rfl⟩
  | readStep r => exact .inr (.inr ⟨rfl, s.mem.domain, rfl, rfl, rfl⟩)
  | writeCall w off buf =>
    refine .inr (.inr ⟨rfl, s.mem.domain, rfl, ?_⟩)
    simp only [step]
    split <;> exact ⟨rfl, rfl⟩
  | writeStep w =>
    obtain ⟨hm, hp⟩ := writerStep_eq s w
    exact .inr (.inr ⟨rfl, s.mem.domain, rfl, hm, hp⟩)

theorem applyOp_length (a : Fin 2) (m : Mem) (op : Op) :
    (∀ b, ((applyOp a m op).arena.data b).length = (m.arena.data b).length) ∧
      (applyOp a m op).domain.length = m.domain.length := by
  cases op <;> simp [applyOp]

theorem pubStep_inv {cfg : Config} {s : State} (h : Inv cfg s) : Inv cfg (pubStep s) := by
  obtain ⟨hd, hl, hc⟩ := h
  unfold pubStep
  split
  · exact ⟨hd, hl, hc⟩
  · rename_i a op todo hpc
    obtain ⟨h1, h2⟩ := applyOp_length a s.mem op
    refine ⟨fun b => (h1 b).trans (hd b), Nat.le_trans hl (Nat.le_of_eq h2.symm), ?_⟩
    intro a' todo' hf p hp
    obtain ⟨rfl, rfl⟩ := PubPc.fill.inj hf
    exact (hc _ _ hpc p hp).2.2
  · exact ⟨hd, hl, fun _ _ hf => by cases hf⟩
  · exact ⟨hd, hl, fun _ _ hf => by cases hf⟩

theorem step_inv {cfg : Config} {s : State} (h : Inv cfg s) (l : Lbl) : Inv cfg (step cfg s l) := by
  rcases step_cases cfg s l with ⟨-, he⟩ | ⟨now, -, hm, hp⟩ | ⟨-, domain, hl, hm, hp⟩
  · rw [he]; exact pubStep_inv h
  · refine ⟨by rw [hm]; exact h.data_length, by rw [hm]; exact h.dom_length, ?_⟩
    intro a todo hf p hc
    rw [hp] at hf
    obtain ⟨rfl, rfl⟩ := PubPc.fill.inj hf
    exact (cycleOps_closed hc now).1
  · refine ⟨?_, ?_, fun a todo hf => h.closed a todo (hp ▸ hf)⟩
    · intro b
      rw [hm, stored_length]; exact h.data_length b
    · rw [hm, hl]; exact h.dom_length

/-! ## What the domain owes -/

theorem live_fill {s : State} {a : Fin 2} {todo : List Op} (h : s.pc = .fill a todo) (p : Nat) (b : Fin 2) :
    Live s p b ↔
      (b = a ∧ Op.domCopy p ∈ todo) ∨ (b = other a ∧ Op.copyIn p ∉ todo ∧ Op.shmCopy p ∉ todo) := by
  unfold Live
  rw [h]

theorem live_idle {s : State} (h : s.pc = .idle) (p : Nat) (b : Fin 2) : Live s p b ↔ b = s.active := by
  unfold Live
  rw [h]

theorem live_flipped {s : State} (h : s.pc = .flipped) (p : Nat) (b : Fin 2) :
    Live s p b ↔ b = s.active := by
  unfold Live
  rw [h]

theorem live_congr {s s' : State} (hp : s'.pc = s.pc) (ha : s'.active = s.active) (p : Nat) (b : Fin 2) :
    Live s' p b ↔ Live s p b := by
  unfold Live
  rw [hp, ha]

theorem rd_applyOp_other {a : Fin 2} {m : Mem} {op : Op} {p : Nat} (h1 : op ≠ .copyIn p) (h2 : op ≠ .shmCopy p) :
    rd ((applyOp a m op).arena.data (other a)) p = rd (m.arena.data (other a)) p := by
  cases op with
  | copyIn i => simpa [applyOp] using rd_wr_ne _ _ fun h => h1 (by rw [h])
  | shmCopy i => simpa [applyOp] using rd_wr_ne _ _ fun h => h2 (by rw [h])
  | domCopy i => rfl
  | addIgnored k => rfl
  | storeTimestamp t => rfl
  | orStatus => rfl
  | addCycle => rfl

/-- A store of the cycle makes nothing owed that was not. -/
theorem owes_fill_back {cfg : Config} {s : State} (h : Inv cfg s) {p : Nat}
    (hp : covered cfg.dataSize cfg.entries p) {a : Fin 2} {op : Op} {todo : List Op}
    (hpc : s.pc = .fill a (op :: todo)) {x : UInt8}
    (ho : Owes { s with mem := applyOp a s.mem op, pc := .fill a todo } p x) : Owes s p x := by
  obtain ⟨b, hb, hx⟩ := ho
  obtain ⟨hcl, hsh, -⟩ := h.closed a _ hpc p hp
  rw [live_fill rfl] at hb
  rcases hb with ⟨rfl, hd⟩ | ⟨rfl, hc, hs⟩
  · refine ⟨b, (live_fill hpc p b).2 (.inl ⟨rfl, List.mem_cons_of_mem _ hd⟩), ?_⟩
    rwa [(applyOp_frame b s.mem op).1] at hx
  · by_cases hop : op = .shmCopy p
    · -- the byte has just been copied out of the active buffer
      refine ⟨a, (live_fill hpc p a).2 (.inl ⟨rfl, List.mem_cons_of_mem _ (hsh hop)⟩), ?_⟩
      have hlen : p < (s.mem.arena.data (other a)).length := by
        rw [h.data_length]; exact covered_lt hp
      rw [hop] at hx
      simpa [applyOp, rd_wr_self _ hlen] using hx
    · have hop' : op ≠ .copyIn p := fun he => hs (hcl he)
      refine ⟨other a, (live_fill hpc p _).2 (.inr ⟨rfl, ?_, ?_⟩), ?_⟩
      · simpa [List.mem_cons, hc] using fun he => hop' he.symm
      · simpa [List.mem_cons, hs] using fun he => hop he.symm
      · exact (rd_applyOp_other hop' hop).symm.trans hx

/-- The store of `active_buffer` changes no live copy. -/
theorem owes_flip {s : State} {p : Nat} {a : Fin 2} (hpc : s.pc = .fill a []) (x : UInt8) (hist : List Bytes) :
    Owes { s with mem := setActive s.mem (other a), pc := .flipped, hist := hist } p x ↔ Owes s p x := by
  have hb : ∀ b, Live s p b ↔ b = other a := by
    intro b
    rw [live_fill hpc]
    simp
  have hb' : ∀ b, Live { s with mem := setActive s.mem (other a), pc := .flipped, hist := hist } p b ↔
      b = other a := by
    intro b
    rw [live_flipped rfl]
    simp [State.active, setActive]
  unfold Owes
  simp only [hb, hb']
  rfl

theorem owes_bump {s : State} {p : Nat} (hpc : s.pc = .flipped) (x : UInt8) (v : UInt64) :
    Owes { s with mem := setVersion s.mem v, pc := .idle } p x ↔ Owes s p x := by
  unfold Owes
  simp only [live_idle, live_flipped hpc]
  rfl

theorem rd_stored {ar : Arena} {o : Option (Fin 2 × Nat × UInt8)} {p : Nat}
    (h : ¬ ∃ b x, o = some (b, p, x)) (b : Fin 2) : rd ((stored ar o).data b) p = rd (ar.data b) p := by
  cases o with
  | none => rfl
  | some t =>
    obtain ⟨b', p', x⟩ := t
    have hne : p' ≠ p := fun he => h ⟨b', x, by rw [he]⟩
    by_cases hb : b = b'
    · subst hb
      simpa [stored] using rd_wr_ne _ _ hne
    · simp only [stored, setByte]
      rw [setBuf_ne _ _ hb]

/-- A step of a client, or of the bus, that stores nowhere at `p`. -/
theorem owes_quiet {cfg : Config} {s : State} {l : Lbl} {p : Nat} {x : UInt8} {domain : Bytes}
    (hm : (step cfg s l).mem = ⟨stored s.mem.arena (clientStore s l), domain⟩)
    (hpc : (step cfg s l).pc = s.pc) (hs : ¬ Stores s l p) : Owes (step cfg s l) p x ↔ Owes s p x := by
  have ha : (step cfg s l).active = s.active := by simp only [State.active, hm, stored_hdr]
  unfold Owes
  simp only [live_congr hpc ha, hm, rd_stored hs]

/-- The start of a cycle: what the active buffer holds is still owed. -/
theorem owes_begin {cfg : Config} {s s' : State} {p : Nat} (hp : covered cfg.dataSize cfg.entries p)
    {now : UInt64} (hidle : s.pc = .idle) (hm : s'.mem = s.mem)
    (hpc : s'.pc = .fill s.active (cycleOps cfg now)) (x : UInt8) : Owes s' p x ↔ Owes s p x := by
  obtain ⟨-, hc, hd⟩ := cycleOps_closed hp now
  unfold Owes
  simp [live_idle hidle, live_fill hpc, hc, hd, hm]

/-- **Nothing new is owed** until a client stores at the position. -/
theorem owes_back {cfg : Config} {s : State} (h : Inv cfg s) {p : Nat}
    (hp : covered cfg.dataSize cfg.entries p) {l : Lbl} (hs : ¬ Stores s l p) {x : UInt8}
    (ho : Owes (step cfg s l) p x) : Owes s p x := by
  rcases step_cases cfg s l with ⟨-, he⟩ | ⟨now, hidle, hm, hpc⟩ | ⟨-, domain, -, hm, hpc⟩
  · rw [he] at ho
    rcases pubStep_cases s with ⟨-, he⟩ | ⟨a, op, todo, hpc, he⟩ | ⟨a, hpc, he⟩ | ⟨hpc, he⟩ <;> rw [he] at ho
    · exact ho
    · exact owes_fill_back h hp hpc ho
    · exact (owes_flip hpc x _).1 ho
    · exact (owes_bump hpc x _).1 ho
  · exact (owes_begin hp hidle hm hpc x).1 ho
  · exact (owes_quiet hm hpc hs).1 ho

/-- The copy to the domain delivers what the active buffer holds. -/
theorem delivers_head {cfg : Config} {s : State} (h : Inv cfg s) {p : Nat}
    (hp : covered cfg.dataSize cfg.entries p) {a : Fin 2} {todo : List Op}
    (hpc : s.pc = .fill a (.domCopy p :: todo)) {x : UInt8} (hx : rd (s.mem.arena.data a) p = x) :
    Delivers cfg s .tick p x := by
  have hlen : p < s.mem.domain.length := Nat.lt_of_lt_of_le (covered_lt hp) h.dom_length
  refine ⟨by simp [domStore, hpc], ?_⟩
  simpa [step, pubStep, hpc, applyOp, rd_wr_self _ hlen] using hx

/-- Only what is owed is delivered. -/
theorem owes_of_delivers {cfg : Config} {s : State} (h : Inv cfg s) {p : Nat}
    (hp : covered cfg.dataSize cfg.entries p) {l : Lbl} {x : UInt8} (hd : Delivers cfg s l p x) :
    Owes s p x := by
  obtain ⟨hd, hx⟩ := hd
  unfold domStore at hd
  split at hd
  · split at hd
    · rename_i a q todo hpc
      obtain rfl := Option.some.inj hd
      refine ⟨a, (live_fill hpc _ a).2 (.inl ⟨rfl, List.mem_cons_self⟩), ?_⟩
      exact (delivers_head h hp hpc rfl).2.symm.trans hx
    · cases hd
  · cases hd

/-- A client's store is owed if it hits a live copy; otherwise it changes
nothing of what is owed. -/
theorem owes_store {cfg : Config} {s : State} (h : Inv cfg s) {p : Nat}
    (hp : covered cfg.dataSize cfg.entries p) {l : Lbl} {b : Fin 2} {x : UInt8}
    (hs : clientStore s l = some (b, p, x)) :
    Owes (step cfg s l) p x ↔ Live s p b ∨ Owes s p x := by
  have hl : ∃ w, l = .writeStep w := by
    cases l with
    | writeStep w => exact ⟨w, rfl⟩
    | _ => cases hs
  obtain ⟨w, rfl⟩ := hl
  obtain ⟨hm, hpc⟩ := writerStep_eq s w
  have hmem : (step cfg s (.writeStep w)).mem = ⟨setByte s.mem.arena b p x, s.mem.domain⟩ := by
    rw [hs] at hm; exact hm
  have hact : (step cfg s (.writeStep w)).active = s.active := by
    simp only [State.active, hmem, setByte_hdr]
  have hlive : ∀ c, Live (step cfg s (.writeStep w)) p c ↔ Live s p c := live_congr hpc hact p
  have hself : rd ((setByte s.mem.arena b p x).data b) p = x := by
    rw [setByte_self]
    exact rd_wr_self x (by rw [h.data_length]; exact covered_lt hp)
  have hne : ∀ c, c ≠ b → rd ((setByte s.mem.arena b p x).data c) p = rd (s.mem.arena.data c) p :=
    fun c hc => by rw [setByte, setBuf_ne _ _ hc]
  unfold Owes
  simp only [hlive, hmem]
  constructor
  · rintro ⟨c, hc, hx⟩
    by_cases hcb : c = b
    · exact .inl (hcb ▸ hc)
    · exact .inr ⟨c, hc, (hne c hcb).symm.trans hx⟩
  · intro ho
    rcases ho with hb | ⟨c, hc, hx⟩
    · exact ⟨b, hb, hself⟩
    · by_cases hcb : c = b
      · exact ⟨b, hcb ▸ hc, hself⟩
      · exact ⟨c, hc, (hne c hcb).trans hx⟩

/-- **What is owed stays owed** until it is delivered, or a client stores at
the position. -/
theorem owes_step {cfg : Config} {s : State} (h : Inv cfg s) {p : Nat}
    (hp : covered cfg.dataSize cfg.entries p) (l : Lbl) {x : UInt8} (ho : Owes s p x) :
    (Delivers cfg s l p x ∨ Stores s l p) ∨ Owes (step cfg s l) p x := by
  by_cases hs : Stores s l p
  · exact .inl (.inr hs)
  rcases step_cases cfg s l with ⟨hl, he⟩ | ⟨now, hidle, hm, hpc⟩ | ⟨-, domain, -, hm, hpc⟩
  · rw [he]
    rcases pubStep_cases s with ⟨-, hq⟩ | ⟨a, op, todo, hpc, hq⟩ | ⟨a, hpc, hq⟩ | ⟨hpc, hq⟩ <;> rw [hq]
    · exact .inr ho
    · obtain ⟨b, hb, hx⟩ := ho
      rw [live_fill hpc] at hb
      rcases hb with ⟨rfl, hd⟩ | ⟨rfl, hc, hsh⟩
      · by_cases hop : op = .domCopy p
        · exact .inl (.inl (hl ▸ delivers_head h hp (hop ▸ hpc) hx))
        · refine .inr ⟨b, (live_fill rfl p b).2 (.inl ⟨rfl, ?_⟩), ?_⟩
          · exact (List.mem_cons.1 hd).resolve_left fun e => hop e.symm
          · rw [← hx]; exact congrArg (rd · p) (applyOp_frame b s.mem op).1
      · simp only [List.mem_cons, not_or] at hc hsh
        refine .inr ⟨other a, (live_fill rfl p _).2 (.inr ⟨rfl, hc.2, hsh.2⟩), ?_⟩
        exact (rd_applyOp_other (fun e => hc.1 e.symm) fun e => hsh.1 e.symm).trans hx
    · exact .inr ((owes_flip hpc x _).2 ho)
    · exact .inr ((owes_bump hpc x _).2 ho)
  · exact .inr ((owes_begin hp hidle hm hpc x).2 ho)
  · exact .inr ((owes_quiet hm hpc hs).2 ho)

/-! ## A cycle delivers -/

/-- The running cycle still has to copy `x` to the domain at `p`. -/
def Pending (s : State) (p : Nat) (x : UInt8) : Prop :=
  ∃ a todo, s.pc = .fill a todo ∧ Op.domCopy p ∈ todo ∧ rd (s.mem.arena.data a) p = x

theorem pending_step {cfg : Config} {s : State} (h : Inv cfg s) {p : Nat}
    (hp : covered cfg.dataSize cfg.entries p) (l : Lbl) {x : UInt8} (ho : Pending s p x) :
    (Delivers cfg s l p x ∨ Stores s l p) ∨ Pending (step cfg s l) p x := by
  by_cases hs : Stores s l p
  · exact .inl (.inr hs)
  obtain ⟨a, todo, hpc, hd, hx⟩ := ho
  rcases step_cases cfg s l with ⟨rfl, he⟩ | ⟨now, hidle, -, -⟩ | ⟨-, domain, -, hm, hpc'⟩
  · cases todo with
    | nil => cases hd
    | cons op todo =>
      by_cases hop : op = .domCopy p
      · exact .inl (.inl (delivers_head h hp (hop ▸ hpc) hx))
      · have hq : pubStep s = { s with mem := applyOp a s.mem op, pc := .fill a todo } := by
          simp only [pubStep, hpc]
        rw [he, hq]
        refine .inr ⟨a, todo, rfl, (List.mem_cons.1 hd).resolve_left fun e => hop e.symm, ?_⟩
        rw [← hx]; exact congrArg (rd · p) (applyOp_frame a s.mem op).1
  · rw [hidle] at hpc; cases hpc
  · refine .inr ⟨a, todo, hpc'.trans hpc, hd, ?_⟩
    rw [hm, rd_stored hs]; exact hx

/-! ## Runs -/

section
variable (cfg : Config) (s0 : State) (σ : Nat → Lbl)

/-- The call of `w` that copies `buf` into buffer `b` returns true at `t`. -/
structure ReturnsTrue (w : Nat) (b : Fin 2) (off : Nat) (buf : Bytes) (t : Nat) : Prop where
  label : σ t = .writeStep w
  pc : (trace (step cfg) s0 σ t).writers w = .copying b off buf buf.length

/-- Its store of byte `k`, at `m`. -/
structure OwnStore (w : Nat) (b : Fin 2) (off : Nat) (buf : Bytes) (t k m : Nat) : Prop where
  lt : m < t
  label : σ m = .writeStep w
  pc : (trace (step cfg) s0 σ m).writers w = .copying b off buf k
  inside : ∀ i, m < i → i ≤ t → ∃ j, k < j ∧ (trace (step cfg) s0 σ i).writers w = .copying b off buf j

/-- A cycle starts at `c`. -/
def Begins (c : Nat) : Prop := (∃ now, σ c = .begin now) ∧ (trace (step cfg) s0 σ c).pc = .idle

/-- A cycle ends at `e`. -/
def Ends (e : Nat) : Prop := σ e = .tick ∧ (trace (step cfg) s0 σ e).pc = .flipped

/-- Two cycles start after `t` and the second is over at `e`. -/
def TwoCycles (t e : Nat) : Prop :=
  ∃ c₁ c₂, t < c₁ ∧ c₁ < c₂ ∧ c₂ < e ∧ Begins cfg s0 σ c₁ ∧ Begins cfg s0 σ c₂ ∧ Ends cfg s0 σ e

/-- A client stores to byte `p` of some buffer, after `m` and up to `e`. -/
def Replaced (p m e : Nat) : Prop :=
  ∃ i, m < i ∧ i ≤ e ∧ Stores (trace (step cfg) s0 σ i) (σ i) p

/-- The mirror stores `x` to `domainData[p]`, after `m` and up to `e`. -/
def Reached (p : Nat) (x : UInt8) (m e : Nat) : Prop :=
  ∃ i, m < i ∧ i ≤ e ∧ Delivers cfg (trace (step cfg) s0 σ i) (σ i) p x

/-- Every byte of every write that returned true, at a covered position, was
stored at some `m` such that `P m e b p x`, or was replaced; `e` is any end of
two cycles after the return. -/
def EveryWrite (P : Nat → Nat → Fin 2 → Nat → UInt8 → Prop) : Prop :=
  ∀ w b off buf t, ReturnsTrue cfg s0 σ w b off buf t → ∀ e, TwoCycles cfg s0 σ t e →
    ∀ k, k < buf.length → covered cfg.dataSize cfg.entries (off + k) →
      ∃ m, OwnStore cfg s0 σ w b off buf t k m ∧
        (P m e b (off + k) (rd buf k) ∨ Replaced cfg s0 σ (off + k) m e)

/-- The written bytes reach the domain by the end of the second cycle that
starts after the write returned. -/
def NoLostWrite : Prop := EveryWrite cfg s0 σ fun m e _ p x => Reached cfg s0 σ p x m e

/-- The byte is stored to a live copy, or a live copy already holds its value. -/
def StoresLive : Prop := EveryWrite cfg s0 σ fun m _ b p x =>
  Live (trace (step cfg) s0 σ m) p b ∨ Owes (trace (step cfg) s0 σ m) p x

variable {cfg s0 σ}

theorem run_inv (h0 : Init cfg s0) (n : Nat) : Inv cfg (trace (step cfg) s0 σ n) :=
  trace_inv (step cfg) s0 σ (inv_init h0) (fun _ l h => step_inv h l) n

theorem owes_back_run (h0 : Init cfg s0) {p : Nat} (hp : covered cfg.dataSize cfg.entries p) {m n : Nat}
    (hmn : m ≤ n) (hs : ∀ i, m ≤ i → i < n → ¬ Stores (trace (step cfg) s0 σ i) (σ i) p) {x : UInt8}
    (ho : Owes (trace (step cfg) s0 σ n) p x) : Owes (trace (step cfg) s0 σ m) p x := by
  induction n, hmn using Nat.le_induction with
  | base => exact ho
  | succ n hle ih =>
    have hn := owes_back (run_inv h0 n) hp (hs n hle (Nat.lt_succ_self n)) ho
    exact ih (fun i h1 h2 => hs i h1 (Nat.lt_succ_of_lt h2)) hn

/-- From a state where `x` is owed, `x` is delivered, or stored over, before
the end of the next cycle. -/
theorem delivered_of_owes (h0 : Init cfg s0) {p : Nat} (hp : covered cfg.dataSize cfg.entries p) {x : UInt8}
    {m c₁ c₂ : Nat} (h1 : m ≤ c₁) (h2 : c₁ < c₂) (hb1 : Begins cfg s0 σ c₁) (hb2 : Begins cfg s0 σ c₂)
    (ho : Owes (trace (step cfg) s0 σ m) p x) :
    ∃ i, m ≤ i ∧ i < c₂ ∧ (Delivers cfg (trace (step cfg) s0 σ i) (σ i) p x ∨
      Stores (trace (step cfg) s0 σ i) (σ i) p) := by
  have hstart := trace_until (step cfg) s0 σ (P := fun s => Inv cfg s ∧ Owes s p x)
    (R := fun s l => Delivers cfg s l p x ∨ Stores s l p)
    (fun s l h => (owes_step h.1 hp l h.2).imp_right fun h' => ⟨step_inv h.1 l, h'⟩) h1 ⟨run_inv h0 m, ho⟩
  rcases hstart with ⟨-, ho1⟩ | ⟨i, hi1, hi2, hr⟩
  · obtain ⟨⟨now, hl⟩, hidle⟩ := hb1
    obtain ⟨b, hb, hx⟩ := ho1
    obtain rfl := (live_idle hidle p b).1 hb
    have hpend : Pending (trace (step cfg) s0 σ (c₁ + 1)) p x := by
      rw [trace_succ, hl]
      refine ⟨(trace (step cfg) s0 σ c₁).active, cycleOps cfg now, by simp only [step, hidle, if_true],
        (cycleOps_closed hp now).2.2, ?_⟩
      simpa only [step, hidle, if_true] using hx
    have hcycle := trace_until (step cfg) s0 σ (P := fun s => Inv cfg s ∧ Pending s p x)
      (R := fun s l => Delivers cfg s l p x ∨ Stores s l p)
      (fun s l h => (pending_step h.1 hp l h.2).imp_right fun h' => ⟨step_inv h.1 l, h'⟩) h2
      ⟨run_inv h0 _, hpend⟩
    rcases hcycle with ⟨-, a, todo, hpc, -⟩ | ⟨i, hi1, hi2, hr⟩
    · -- the second cycle could not start before the first is over
      rw [hb2.2] at hpc; cases hpc
    · exact ⟨i, by omega, hi2, hr⟩
  · exact ⟨i, hi1, by omega, hr⟩

/-- **One store, exactly.** A byte that nobody stores over reaches the domain
if and only if its store hit a live copy or its value was owed anyway. -/
theorem reached_iff (h0 : Init cfg s0) {p : Nat} (hp : covered cfg.dataSize cfg.entries p) {b : Fin 2}
    {x : UInt8} {m t e : Nat} (hs : clientStore (trace (step cfg) s0 σ m) (σ m) = some (b, p, x)) (hmt : m < t)
    (hc : TwoCycles cfg s0 σ t e) (hr : ¬ Replaced cfg s0 σ p m e) :
    Reached cfg s0 σ p x m e ↔
      Live (trace (step cfg) s0 σ m) p b ∨ Owes (trace (step cfg) s0 σ m) p x := by
  rw [← owes_store (run_inv h0 m) hp hs, ← trace_succ (step cfg) s0 σ m]
  constructor
  · intro ⟨i, h1, h2, hd⟩
    refine owes_back_run h0 hp h1 (fun j hj1 hj2 hst => hr ⟨j, hj1, by omega, hst⟩) ?_
    exact owes_of_delivers (run_inv h0 i) hp hd
  · intro ho
    obtain ⟨c₁, c₂, h1, h2, h3, hb1, hb2, -⟩ := hc
    obtain ⟨i, hi1, hi2, hd | hst⟩ := delivered_of_owes h0 hp (by omega) h2 hb1 hb2 ho
    · exact ⟨i, hi1, by omega, hd⟩
    · exact absurd ⟨i, hi1, by omega, hst⟩ hr

/-- **Which writes reach the bus, exactly.** In every run, every byte written
at a covered position reaches the domain in time, or is replaced, if and only
if every such byte was stored to a live copy (or was owed already), or is
replaced. -/
theorem no_lost_write_iff (h0 : Init cfg s0) : NoLostWrite cfg s0 σ ↔ StoresLive cfg s0 σ := by
  have hkey : ∀ {w b off buf t e k m}, TwoCycles cfg s0 σ t e → k < buf.length →
      covered cfg.dataSize cfg.entries (off + k) → OwnStore cfg s0 σ w b off buf t k m →
      (Reached cfg s0 σ (off + k) (rd buf k) m e ∨ Replaced cfg s0 σ (off + k) m e ↔
        (Live (trace (step cfg) s0 σ m) (off + k) b ∨ Owes (trace (step cfg) s0 σ m) (off + k) (rd buf k)) ∨
          Replaced cfg s0 σ (off + k) m e) := by
    intro w b off buf t e k m hc hk hp how
    by_cases hr : Replaced cfg s0 σ (off + k) m e
    · simp [hr]
    · have hs : clientStore (trace (step cfg) s0 σ m) (σ m) = some (b, off + k, rd buf k) := by
        simp [clientStore, how.label, how.pc, hk]
      simp [hr, reached_iff h0 hp hs how.lt hc hr]
  constructor
  · intro h w b off buf t ht e he k hk hp
    obtain ⟨m, how, hm⟩ := h w b off buf t ht e he k hk hp
    exact ⟨m, how, (hkey he hk hp how).1 hm⟩
  · intro h w b off buf t ht e he k hk hp
    obtain ⟨m, how, hm⟩ := h w b off buf t ht e he k hk hp
    exact ⟨m, how, (hkey he hk hp how).2 hm⟩

theorem setWriter_copying {s : State} {w w' : Nat} {pc q : WriterPc} (h : (setWriter s w' pc).writers w = q)
    (hq : pc ≠ q) : s.writers w = q := by
  by_cases hw : w = w'
  · subst hw
    exact absurd (by simpa [setWriter] using h) hq
  · simpa [setWriter, hw] using h

/-- A writer has copied `j + 1` bytes by storing the last of them. -/
theorem copying_back {s : State} {l : Lbl} {w : Nat} {b : Fin 2} {off : Nat} {buf : Bytes} {j : Nat}
    (h : (step cfg s l).writers w = .copying b off buf (j + 1)) :
    s.writers w = .copying b off buf (j + 1) ∨
      (l = .writeStep w ∧ s.writers w = .copying b off buf j) := by
  cases l with
  | refresh domain => simp only [step] at h; split at h <;> exact .inl h
  | begin now => simp only [step] at h; split at h <;> exact .inl h
  | tick =>
    have hw : (pubStep s).writers = s.writers := by unfold pubStep; split <;> rfl
    exact .inl (hw ▸ h)
  | readCall r off n => simp only [step] at h; split at h <;> exact .inl h
  | readStep r => exact .inl h
  | writeCall w' off' buf' =>
    simp only [step] at h
    split at h
    · exact .inl (setWriter_copying h (by split <;> simp))
    · exact .inl h
  | writeStep w' =>
    simp only [step, writerStep] at h
    split at h
    · exact .inl h
    · split at h <;> exact .inl (setWriter_copying h (by simp))
    · rename_i b' off' buf' k' hw'
      split at h
      · by_cases hw : w = w'
        · subst hw
          simp only [setWriter, Function.update_self, WriterPc.copying.injEq, Nat.add_right_cancel_iff] at h
          obtain ⟨rfl, rfl, rfl, rfl⟩ := h
          exact .inr ⟨rfl, hw'⟩
        · exact .inl (by simpa [setWriter, hw] using h)
      · exact .inl (setWriter_copying h (by simp))
    · exact .inl h

/-- A write that returned true stored every byte. -/
theorem ownStore_exists (h0 : Init cfg s0) {w : Nat} {b : Fin 2} {off : Nat} {buf : Bytes} {t : Nat}
    (ht : ReturnsTrue cfg s0 σ w b off buf t) {k : Nat} (hk : k < buf.length) :
    ∃ m, OwnStore cfg s0 σ w b off buf t k m := by
  have hback : ∀ n j, k < j → (trace (step cfg) s0 σ n).writers w = .copying b off buf j →
      ∃ m, m < n ∧ σ m = .writeStep w ∧ (trace (step cfg) s0 σ m).writers w = .copying b off buf k ∧
        ∀ i, m < i → i ≤ n → ∃ j', k < j' ∧ (trace (step cfg) s0 σ i).writers w = .copying b off buf j' := by
    intro n
    induction n with
    | zero =>
      intro j _ hw
      rw [trace_zero, h0.writers w] at hw; cases hw
    | succ n ih =>
      intro j hj hw
      obtain ⟨j, rfl⟩ : ∃ i, j = i + 1 := ⟨j - 1, by omega⟩
      have hlast : ∀ {m}, (∀ i, m < i → i ≤ n → ∃ j', k < j' ∧
          (trace (step cfg) s0 σ i).writers w = .copying b off buf j') →
          ∀ i, m < i → i ≤ n + 1 → ∃ j', k < j' ∧
            (trace (step cfg) s0 σ i).writers w = .copying b off buf j' := by
        intro m hin i h1 h2
        by_cases hi : i ≤ n
        · exact hin i h1 hi
        · obtain rfl : i = n + 1 := by omega
          exact ⟨j + 1, hj, hw⟩
      rcases copying_back hw with hw' | ⟨hl, hw'⟩
      · obtain ⟨m, h1, h2, h3, h4⟩ := ih _ hj hw'
        exact ⟨m, by omega, h2, h3, hlast h4⟩
      · by_cases hjk : j = k
        · exact ⟨n, Nat.lt_succ_self n, hl, hjk ▸ hw', hlast fun i h1 h2 => by omega⟩
        · obtain ⟨m, h1, h2, h3, h4⟩ := ih j (by omega) hw'
          exact ⟨m, by omega, h2, h3, hlast h4⟩
  obtain ⟨m, h1, h2, h3, h4⟩ := hback t buf.length hk ht.pc
  exact ⟨m, h1, h2, h3, h4⟩

/-- Where every client's store to a covered position hits a live copy, no
write is lost. -/
theorem storesLive_of_live (h0 : Init cfg s0)
    (h : ∀ m b p x, clientStore (trace (step cfg) s0 σ m) (σ m) = some (b, p, x) →
      covered cfg.dataSize cfg.entries p → Live (trace (step cfg) s0 σ m) p b) :
    StoresLive cfg s0 σ := by
  intro w b off buf t ht e _ k hk hp
  obtain ⟨m, how⟩ := ownStore_exists h0 ht hk
  refine ⟨m, how, .inl (.inl (h m b (off + k) (rd buf k) ?_ hp))⟩
  simp [clientStore, how.label, how.pc, hk]

end

instance (cfg : Config) (s : State) (l : Lbl) (p : Nat) (x : UInt8) : Decidable (Delivers cfg s l p x) :=
  inferInstanceAs (Decidable (_ ∧ _))

/-- An 8-bit output at byte 0. -/
def oneOutput : Config := ⟨[⟨0, 0x7000, 1, 8, "RxPDO", 0⟩], 1, by decide, by decide⟩

def zeroState : State := initial (freshArena 1) [0]

theorem init_zeroState : Init oneOutput zeroState :=
  init_initial oneOutput rfl (fun _ => rfl) (by decide)

/-- A writer resolves the active buffer, a cycle copies its byte, the writer
stores 7 and returns true; then the cycle ends and two more follow. -/
def lateStore : List Lbl :=
  [.writeCall 0 0 [7], .writeStep 0, .begin 0, .tick, .tick, .tick, .writeStep 0, .writeStep 0] ++
    (List.replicate 5 .tick ++ (.begin 0 :: List.replicate 8 .tick) ++ (.begin 0 :: List.replicate 8 .tick))

theorem no_lost_write_iff_late :
    NoLostWrite oneOutput zeroState (sched lateStore .tick) ↔
      StoresLive oneOutput zeroState (sched lateStore .tick) :=
  no_lost_write_iff init_zeroState

theorem lateStore_run :
    (∀ i, i < 31 → ¬ Delivers oneOutput (trace (step oneOutput) zeroState (sched lateStore .tick) i)
      (sched lateStore .tick i) 0 7) ∧
    ∀ i, i < 31 → (clientStore (trace (step oneOutput) zeroState (sched lateStore .tick) i)
      (sched lateStore .tick i)).isSome → i = 6 := by
  decide +kernel

/-- **A lost write.** The write returned true, two whole cycles follow, nobody
writes again, and the 7 never reaches the domain. -/
theorem late_store_lost :
    Init oneOutput zeroState ∧ ¬ NoLostWrite oneOutput zeroState (sched lateStore .tick) := by
  refine ⟨init_zeroState, ?_⟩
  intro h
  obtain ⟨hd, hs⟩ := lateStore_run
  have hcyc : TwoCycles oneOutput zeroState (sched lateStore .tick) 7 30 :=
    ⟨13, 22, by decide, by decide, by decide, ⟨⟨0, rfl⟩, rfl⟩, ⟨⟨0, rfl⟩, rfl⟩, rfl, rfl⟩
  obtain ⟨m, how, hm⟩ := h 0 0 0 [7] 7 ⟨rfl, rfl⟩ 30 hcyc 0 (by decide) (by decide)
  have hm6 : m = 6 := by
    have hlt := how.lt
    refine hs m (by omega) ?_
    simp [clientStore, how.label, how.pc]
  rcases hm with ⟨i, -, hi, hr⟩ | ⟨i, hmi, hi, b, x, hr⟩
  · exact hd i (by omega) hr
  · have hi6 : i = 6 := hs i (by omega) (by rw [hr]; rfl)
    omega

end NekoEcat.L3.LostWrite
