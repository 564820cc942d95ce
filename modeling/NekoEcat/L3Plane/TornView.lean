import NekoEcat.L3Plane.DataPlane

/-!
# Reads are never torn

A reader takes the version, the active buffer, the bytes one by one, and the
version again. The publisher stores `active_buffer` before `version`, so a
read that saw one version twice may have seen the image of that version or of
the next one, but never a mix.

The proof carries, for a reader inside an attempt, that as long as the version
it loaded is still the current one the buffer it copies from holds one
published image: the buffer is still active, or the publisher stands between
its two stores, and in both cases nobody writes it.

* `pub_step`: the publisher's invariant is kept by its steps.
* `view_pub_step`: so is what an attempt has seen.
* `no_torn_view`: the bytes of a successful read are the bytes of one publish.
-/
namespace NekoEcat.L3.TornView
open NekoEcat.Bytes NekoEcat.Trace NekoEcat.L1.Shm NekoEcat.L3.DataPlane

/-- The number of completed publishes: those whose version is stored. -/
def completed (s : State) : Nat :=
  if s.pc = .flipped then s.hist.length - 2 else s.hist.length - 1

/-- The publisher's side: the version counts the completed publishes, the last
image is the active buffer, and a cycle works on the other one. -/
structure PubInv (s : State) : Prop where
  length : if s.pc = .flipped then 2 ≤ s.hist.length else 1 ≤ s.hist.length
  version : s.mem.arena.hdr.version = UInt64.ofNat (completed s)
  last : s.hist[s.hist.length - 1]? = some (s.mem.arena.data s.active)
  fill : ∀ a todo, s.pc = .fill a todo → a = s.active

/-- The bytes are those of the image of publish `v` or of the next one. -/
def OnePublish (hist : List Bytes) (v : UInt64) (off n : Nat) (bytes : Bytes) : Prop :=
  ∃ k img, hist[k]? = some img ∧ (k = v.toNat ∨ k = v.toNat + 1) ∧ bytes = slice img off n

/-- What an attempt has seen: while its version is current, its buffer holds
one image and what was copied is of that image. -/
def View (s : State) (v1 : UInt64) (b : Fin 2) (off : Nat) (got : Bytes) : Prop :=
  ∃ m, v1 = UInt64.ofNat m ∧ m ≤ completed s ∧
    (m = completed s → ∃ k, (k = m ∨ k = m + 1) ∧ s.hist[k]? = some (s.mem.arena.data b) ∧
      (b = s.active ∨ s.pc = .flipped) ∧ got = slice (s.mem.arena.data b) off got.length)

def ReaderInv (s : State) : ReaderPc → Prop
  | .gotVersion _ _ _ v1 => ∃ m, v1 = UInt64.ofNat m ∧ m ≤ completed s
  | .copying off n _ v1 b got => got.length ≤ n ∧ View s v1 b off got
  | .done off n (some (v, bytes)) => OnePublish s.hist v off n bytes
  | _ => True

structure Inv (s : State) : Prop where
  pub : PubInv s
  readers : ∀ r, ReaderInv s (s.readers r)

/-! ## The publisher -/

/-- The publisher's next store keeps its invariant. -/
theorem pub_step {s : State} (h : PubInv s) : PubInv (pubStep s) := by
  obtain ⟨hl, hv, hlast, hf⟩ := h
  rcases pubStep_cases s with ⟨-, he⟩ | ⟨a, op, todo, hpc, he⟩ | ⟨a, hpc, he⟩ | ⟨hpc, he⟩ <;> rw [he]
  · exact ⟨hl, hv, hlast, hf⟩
  · -- a store of the cycle
    obtain ⟨h1, h2, h3⟩ := applyOp_frame a s.mem op
    have ha := hf a _ hpc
    have hact : State.active { s with mem := applyOp a s.mem op, pc := .fill a todo } = s.active := by
      simp only [State.active, h2]
    simp only [hpc, completed] at hl hv
    refine ⟨by simpa using hl, ?_, ?_, ?_⟩
    · simpa [completed, h3] using hv
    · rw [hact]
      show _ = some ((applyOp a s.mem op).arena.data s.active)
      rw [← ha, h1, ha]
      exact hlast
    · intro a' todo' hp
      simp only [PubPc.fill.injEq] at hp
      rw [hact, ← hp.1, ha]
  · -- the store of `active_buffer`
    simp only [hpc, completed] at hl hv
    have hl' : 1 ≤ s.hist.length := by simpa using hl
    refine ⟨by simp; omega, ?_, ?_, fun a' todo' hp => by cases hp⟩
    · have hv' : s.mem.arena.hdr.version = UInt64.ofNat (s.hist.length - 1) := by simpa using hv
      simp [completed, setActive, hv']
    · simp [State.active, setActive]
  · -- the store of `version`
    simp only [hpc, completed, if_true] at hl hv
    refine ⟨by simp; omega, ?_, hlast, fun a' todo' hp => by cases hp⟩
    have hc : s.hist.length - 1 = s.hist.length - 2 + 1 := by omega
    simp [completed, setVersion, hv, hc, UInt64.ofNat_add]

/-- The images stay: a store of the publisher only adds one at the end. -/
theorem pubStep_hist (s : State) : ∃ l, (pubStep s).hist = s.hist ++ l := by
  rcases pubStep_cases s with ⟨-, he⟩ | ⟨_, _, _, -, he⟩ | ⟨_, -, he⟩ | ⟨-, he⟩ <;> rw [he]
  · exact ⟨[], by simp⟩
  · exact ⟨[], by simp⟩
  · exact ⟨_, rfl⟩
  · exact ⟨[], by simp⟩

theorem getElem?_append_some {hist l : List Bytes} {k : Nat} {img : Bytes} (h : hist[k]? = some img) :
    (hist ++ l)[k]? = some img := by
  obtain ⟨hk, -⟩ := List.getElem?_eq_some_iff.1 h
  rw [List.getElem?_append_left hk, h]

theorem OnePublish.append {hist : List Bytes} {v : UInt64} {off n : Nat} {bytes : Bytes} (l : List Bytes)
    (h : OnePublish hist v off n bytes) : OnePublish (hist ++ l) v off n bytes := by
  obtain ⟨k, img, hk, hv, hb⟩ := h
  exact ⟨k, img, getElem?_append_some hk, hv, hb⟩

theorem completed_lt {s : State} (h : PubInv s) : completed s < s.hist.length := by
  have hl := h.length
  unfold completed
  split
  · rename_i hf
    simp only [hf, if_true] at hl
    omega
  · rename_i hf
    simp only [hf, if_false] at hl
    omega

theorem completed_le_pubStep {s : State} (h : PubInv s) : completed s ≤ completed (pubStep s) := by
  have hl := h.length
  rcases pubStep_cases s with ⟨-, he⟩ | ⟨a, op, todo, hpc, he⟩ | ⟨a, hpc, he⟩ | ⟨hpc, he⟩
  · exact Nat.le_of_eq (congrArg completed he.symm)
  · rw [he]; simp [completed, hpc]
  · rw [he]; simp [completed, hpc]
  · rw [he]; simp [completed, hpc]; omega

/-- **What an attempt has seen stays true** under the publisher's stores: they
go to the other buffer while the attempt's buffer is active, nowhere between
the two publishing stores, and the second of these makes the version new. -/
theorem view_pub_step {s : State} (h : PubInv s) {v1 : UInt64} {b : Fin 2} {off : Nat} {got : Bytes}
    (hv : View s v1 b off got) : View (pubStep s) v1 b off got := by
  obtain ⟨m, hm, hle, hview⟩ := hv
  refine ⟨m, hm, Nat.le_trans hle (completed_le_pubStep h), ?_⟩
  have hl := h.length
  rcases pubStep_cases s with ⟨-, he⟩ | ⟨a, op, todo, hpc, he⟩ | ⟨a, hpc, he⟩ | ⟨hpc, he⟩ <;> rw [he]
  · exact hview
  · intro hcur
    have hcur' : m = completed s := by simpa [completed, hpc] using hcur
    obtain ⟨k, hk, himg, hb, hgot⟩ := hview hcur'
    obtain ⟨h1, h2, -⟩ := applyOp_frame a s.mem op
    have hba : b = a := by
      rcases hb with hb | hb
      · rw [hb, h.fill a _ hpc]
      · rw [hb] at hpc; cases hpc
    have hdata : (applyOp a s.mem op).arena.data b = s.mem.arena.data b := by rw [hba, h1]
    exact ⟨k, hk, himg.trans (congrArg some hdata.symm),
      .inl ((hba.trans (h.fill a _ hpc)).trans (congrArg activeIndex h2.symm)),
      hgot.trans (congrArg (slice · off got.length) hdata.symm)⟩
  · intro hcur
    have hcur' : m = completed s := by simpa [completed, hpc] using hcur
    obtain ⟨k, hk, himg, -, hgot⟩ := hview hcur'
    exact ⟨k, hk, getElem?_append_some himg, .inr rfl, hgot⟩
  · intro hcur
    -- the version has just become new
    simp only [hpc, if_true] at hl
    simp [completed, hpc] at hcur hle
    omega

/-! ## The reader -/

/-- The image the active buffer holds, and its number. -/
theorem view_start {s : State} (h : PubInv s) {v1 : UInt64} {m : Nat} (hm : v1 = UInt64.ofNat m)
    (hle : m ≤ completed s) (off : Nat) : View s v1 s.active off [] := by
  refine ⟨m, hm, hle, fun hcur => ⟨s.hist.length - 1, ?_, h.last, .inl rfl, rfl⟩⟩
  have hl := h.length
  unfold completed at hcur
  split at hcur
  · rename_i hf
    simp only [hf, if_true] at hl
    omega
  · omega

theorem view_copy {s : State} {v1 : UInt64} {b : Fin 2} {off : Nat} {got : Bytes} (h : View s v1 b off got) :
    View s v1 b off (got ++ [rd (s.mem.arena.data b) (off + got.length)]) := by
  obtain ⟨m, hm, hle, hview⟩ := h
  refine ⟨m, hm, hle, ?_⟩
  intro hcur
  obtain ⟨k, hk, himg, hb, hgot⟩ := hview hcur
  refine ⟨k, hk, himg, hb, ?_⟩
  rw [List.length_append, List.length_singleton, slice_succ, ← hgot]

/-- The reader's next load keeps what it carries; on success the version it
saw twice is current, so its bytes are of one image. -/
theorem reader_step {s : State} (h : PubInv s) (hlen : s.hist.length ≤ 2 ^ 64) {pc : ReaderPc}
    (hr : ReaderInv s pc) : ReaderInv s (readerStep s pc) := by
  cases pc with
  | idle => trivial
  | start off n left =>
    cases left with
    | zero => trivial
    | succ left => exact ⟨_, h.version, Nat.le_refl _⟩
  | gotVersion off n left v1 =>
    obtain ⟨m, hm, hle⟩ := hr
    simp only [readerStep]
    split
    · trivial
    · exact ⟨Nat.zero_le _, view_start h hm hle off⟩
  | copying off n left v1 b got =>
    obtain ⟨hn, hv⟩ := hr
    simp only [readerStep]
    split
    · rename_i hlt
      refine ⟨?_, view_copy hv⟩
      rw [List.length_append, List.length_singleton]; omega
    · rename_i hge
      split
      · rename_i heq
        obtain ⟨m, hm, hle, hview⟩ := hv
        have hc : completed s < 2 ^ 64 := Nat.lt_of_lt_of_le (completed_lt h) hlen
        have hv1 : v1.toNat = m := by
          rw [hm, UInt64.toNat_ofNat_of_lt' (Nat.lt_of_le_of_lt hle hc)]
        -- no wrap: one version seen twice is the current one
        have hcur : m = completed s := by
          rw [← hv1, heq, h.version, UInt64.toNat_ofNat_of_lt' hc]
        obtain ⟨k, hk, himg, -, hgot⟩ := hview hcur
        have hfull : got.length = n := by omega
        exact ⟨k, _, himg, by rwa [hv1], by rw [← hfull]; exact hgot⟩
      · trivial
  | done off n result => exact hr

/-- What a reader carries survives the publisher's stores. -/
theorem reader_pub_step {s : State} (h : PubInv s) {pc : ReaderPc} (hr : ReaderInv s pc) :
    ReaderInv (pubStep s) pc := by
  cases pc with
  | idle => trivial
  | start off n left => trivial
  | gotVersion off n left v1 =>
    obtain ⟨m, hm, hle⟩ := hr
    exact ⟨m, hm, Nat.le_trans hle (completed_le_pubStep h)⟩
  | copying off n left v1 b got => exact ⟨hr.1, view_pub_step h hr.2⟩
  | done off n result =>
    cases result with
    | none => trivial
    | some r =>
      obtain ⟨l, hl⟩ := pubStep_hist s
      show OnePublish (pubStep s).hist _ _ _ _
      rw [hl]
      exact OnePublish.append l hr

/-- Readers look at the arena, the images and whether `active_buffer` is
stored; nothing else of the state matters to them. -/
theorem reader_congr {s s' : State} (ha : s'.mem.arena = s.mem.arena) (hh : s'.hist = s.hist)
    (hf : s'.pc = .flipped ↔ s.pc = .flipped) {pc : ReaderPc} (hr : ReaderInv s pc) : ReaderInv s' pc := by
  have hc : completed s' = completed s := by simp only [completed, hh, hf]
  have hact : s'.active = s.active := by simp only [State.active, ha]
  unfold ReaderInv View at *
  simp only [hc, hh, ha, hact, hf]
  exact hr

/-! ## Runs -/

/-- A change of the parties' own records leaves the publisher's invariant. -/
theorem pub_congr {s s' : State} (ha : s'.mem.arena = s.mem.arena) (hh : s'.hist = s.hist)
    (hp : s'.pc = s.pc) (h : PubInv s) : PubInv s' := by
  obtain ⟨hl, hv, hlast, hf⟩ := h
  constructor
  · rw [hp, hh]; exact hl
  · simp only [completed, ha, hh, hp] at hv ⊢; exact hv
  · simp only [State.active, ha, hh] at hlast ⊢; exact hlast
  · simp only [State.active, ha, hp] at hf ⊢; exact hf

theorem inv_setReader {s : State} (h : Inv s) (r : Nat) {pc : ReaderPc} (hpc : ReaderInv s pc) :
    Inv (setReader s r pc) := by
  refine ⟨pub_congr (s := s) rfl rfl rfl h.pub, ?_⟩
  intro q
  refine reader_congr (s := s) rfl rfl Iff.rfl ?_
  by_cases hq : q = r
  · subst hq
    simpa [setReader] using hpc
  · simpa [setReader, hq] using h.readers q

/-- Every step but a client's store keeps the invariant. -/
theorem inv_step (cfg : Config) {s : State} (h : Inv s) (hlen : s.hist.length ≤ 2 ^ 64) (l : Lbl)
    (hw : l.isWrite = false) : Inv (step cfg s l) := by
  obtain ⟨hp, hr⟩ := h
  cases l with
  | refresh domain =>
    simp only [step]
    split
    · exact ⟨pub_congr (s := s) rfl rfl rfl hp, fun q => reader_congr (s := s) rfl rfl Iff.rfl (hr q)⟩
    · exact ⟨hp, hr⟩
  | begin now =>
    simp only [step]
    split
    · rename_i hidle
      obtain ⟨hl, hv, hlast, -⟩ := hp
      refine ⟨⟨by simpa [hidle] using hl, ?_, hlast, ?_⟩, ?_⟩
      · simpa [completed, hidle] using hv
      · intro a todo hf
        simp only [PubPc.fill.injEq] at hf
        exact hf.1.symm
      · intro q
        refine reader_congr (s := s) ?_ ?_ ?_ (hr q)
        · rfl
        · rfl
        · simp [hidle]
    · exact ⟨hp, hr⟩
  | tick =>
    refine ⟨pub_step hp, ?_⟩
    intro q
    have hq : (pubStep s).readers = s.readers := by
      rcases pubStep_cases s with ⟨-, he⟩ | ⟨_, _, _, -, he⟩ | ⟨_, -, he⟩ | ⟨-, he⟩ <;> rw [he]
    show ReaderInv (pubStep s) ((pubStep s).readers q)
    rw [hq]
    exact reader_pub_step hp (hr q)
  | readCall r off n =>
    simp only [step]
    split
    · refine inv_setReader ⟨hp, hr⟩ r ?_
      split <;> trivial
    · exact ⟨hp, hr⟩
  | readStep r => exact inv_setReader ⟨hp, hr⟩ r (reader_step hp hlen (hr r))
  | writeCall w off buf =>
    simp only [step]
    split
    · exact ⟨pub_congr (s := s) rfl rfl rfl hp, fun q => reader_congr (s := s) rfl rfl Iff.rfl (hr q)⟩
    · exact ⟨hp, hr⟩
  | writeStep w => cases hw

theorem inv_init {cfg : Config} {s : State} (h : Init cfg s) : Inv s := by
  refine ⟨⟨by simp [h.pc, h.hist], ?_, by simp [h.hist], ?_⟩, ?_⟩
  · simp [completed, h.pc, h.hist, h.version]
  · intro a todo hf
    rw [h.pc] at hf; cases hf
  · intro r
    rw [h.readers r]; trivial

/-- Images are only added. -/
theorem hist_le_step (cfg : Config) (s : State) (l : Lbl) : s.hist.length ≤ (step cfg s l).hist.length := by
  cases l with
  | tick =>
    obtain ⟨x, hx⟩ := pubStep_hist s
    show s.hist.length ≤ (pubStep s).hist.length
    rw [hx, List.length_append]
    exact Nat.le_add_right ..
  | writeStep w =>
    simp only [step, writerStep]
    split
    · exact Nat.le_refl _
    · split <;> exact Nat.le_refl _
    · split <;> exact Nat.le_refl _
    · exact Nat.le_refl _
  | readStep r => exact Nat.le_refl _
  | refresh domain => simp only [step]; split <;> exact Nat.le_refl _
  | begin now => simp only [step]; split <;> exact Nat.le_refl _
  | readCall r off n => simp only [step]; split <;> exact Nat.le_refl _
  | writeCall w off buf => simp only [step]; split <;> exact Nat.le_refl _

/-- **No torn view.** In every interleaving without client stores and without
a wrap of the version, the bytes of a read that returned true with version `v`
are all the bytes of publish `v`, or all of publish `v + 1`. -/
theorem no_torn_view (cfg : Config) {s0 : State} (h0 : Init cfg s0) (σ : Nat → Lbl) (t : Nat)
    (hw : ∀ m < t, (σ m).isWrite = false)
    (hlen : (trace (step cfg) s0 σ t).hist.length ≤ 2 ^ 64)
    {r off n : Nat} {v : UInt64} {bytes : Bytes}
    (hd : (trace (step cfg) s0 σ t).readers r = .done off n (some (v, bytes))) :
    OnePublish (trace (step cfg) s0 σ t).hist v off n bytes := by
  have hlen' : ∀ m, m ≤ t → (trace (step cfg) s0 σ m).hist.length ≤ 2 ^ 64 := by
    intro m hm
    refine Nat.le_trans ?_ hlen
    exact trace_stays (step cfg) s0 σ (P := fun s => (trace (step cfg) s0 σ m).hist.length ≤ s.hist.length)
      (fun s l h => Nat.le_trans h (hist_le_step cfg s l)) hm (Nat.le_refl _)
  have hinv : Inv (trace (step cfg) s0 σ t) :=
    trace_inv_guarded (step cfg) s0 σ (G := fun s l => s.hist.length ≤ 2 ^ 64 ∧ l.isWrite = false)
      (inv_init h0) (fun s l h hg => inv_step cfg h hg.1 l hg.2) t
      fun m hm => ⟨hlen' m (Nat.le_of_lt hm), hw m hm⟩
  have hr := hinv.readers r
  rw [hd] at hr
  exact hr

/-- Two input bytes and no entries. -/
def inputsOnly : Config := ⟨[], 2, by decide, by decide⟩

/-- A cycle up to its store of `active_buffer`, then a whole read. -/
def readBetweenStores : List Lbl :=
  .begin 0 :: (List.replicate 6 .tick ++ .readCall 0 0 2 :: List.replicate 6 (.readStep 0))

/-- A read between the two publishing stores returns the version of the old
image with the bytes of the new one. -/
theorem no_torn_view_flipped :
    OnePublish (trace (step inputsOnly) (initial (freshArena 2) [1, 2]) (sched readBetweenStores .tick) 14).hist
      0 0 2 [1, 2] :=
  no_torn_view inputsOnly (init_initial inputsOnly rfl (fun _ => rfl) (by decide)) _ 14
    (by decide) (by decide) (r := 0) rfl

end NekoEcat.L3.TornView
