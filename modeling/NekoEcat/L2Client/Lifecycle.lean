import NekoEcat.Core.Handles
import NekoEcat.Core.Trace
import NekoEcat.L2Client.Attach

/-!
# Connect, attach, disconnect

The calls of a client with the descriptors and mappings they open and close.
`Session` is a client and these; the client part of each call is the function
of `Attach`.

* `careful_run`: in a run of careful calls every handle is accounted for, an
  attached client's pointers lie in its one mapping, and after `destroy` all
  handles are back.
* `lifecycle_faults`: the careless calls.
-/
namespace NekoEcat.L2.Client
open NekoEcat.Handles NekoEcat.Trace NekoEcat.L1.Shm NekoEcat.L2.Layout

/-- A mapping and its length. -/
structure Mapping where
  id : Nat
  size : Nat
  deriving DecidableEq, Repr

/-- `shmMap`, `hdrMap` and `dataMap` are the mappings that `shm_ptr`, `hdr` and
`data` point into. -/
structure Session where
  c : NekoEcatClient
  fds : Ledger Nat
  maps : Ledger Mapping
  shmMap : Option Mapping
  hdrMap : Option Mapping
  dataMap : Fin 2 → Option Mapping

def Session.create : Session := ⟨Client.create, .empty, .empty, none, none, fun _ => none⟩

/-- The socket of a connect that fails is closed before it returns.
mirrors client/nekoecat_client.c:128-168 -/
def Session.connect (s : Session) (o : ConnectOutcome) : Session :=
  let s := { s with c := (Client.connect s.c o).client }
  match o with
  | .ok sock => { s with fds := s.fds.acquire sock }
  | _ => s

/-- mirrors client/nekoecat_client.c:307-371 -/
def Session.attachObject (s : Session) (info : LayoutInfo) (env : AttachEnv) (mapping : Nat) : Session :=
  let s' := { s with c := (Client.attachObject s.c info env).client }
  match env.shmOpen with
  | none => s'
  | some (fd, obj) =>
    let fds := s.fds.acquire fd
    let dsize := clampStride info.dsize
    let want := headerSize + 2 * dsize.toNat
    if !env.fstat || decide (obj.size < headerSize) then { s' with fds := fds.release fd }
    else
      let m : Mapping := ⟨mapping, if obj.size < want then obj.size else want⟩
      if !env.mmap then { s' with fds := fds.release fd, shmMap := none }
      else
        let maps := s.maps.acquire m
        if obj.hdr.dataSize ≠ dsize then
          { s' with fds := fds.release fd, maps := maps.release m, shmMap := none, hdrMap := some m }
        else { s' with fds := fds, maps := maps, shmMap := some m, hdrMap := some m, dataMap := fun _ => some m }

/-- The layout with which an attach gets as far as opening the object. -/
def layoutOf (c : NekoEcatClient) (layoutJson : Option (List Char)) (env : AttachEnv) : Option LayoutInfo :=
  let r := if c.sock < 0 then Client.connect c env.connect else ⟨true, c, none⟩
  if r.ok then (fetchLayout r.client layoutJson env.rpc).toOption else none

/-- mirrors client/nekoecat_client.c:240-371 -/
def Session.attach (s : Session) (layoutJson : Option (List Char)) (env : AttachEnv) (mapping : Nat) : Session :=
  let s' := if s.c.sock < 0 then s.connect env.connect else s
  match layoutOf s.c layoutJson env with
  | none => { s' with c := (Client.attach s.c layoutJson env).client }
  | some info => s'.attachObject info env mapping

/-- mirrors client/nekoecat_client.c:170-188 -/
def disconnect (c : NekoEcatClient) : NekoEcatClient :=
  { c with
    shmPtr := false
    shmFd := if c.shmFd ≥ 0 then -1 else c.shmFd
    sock := if c.sock ≥ 0 then -1 else c.sock
    attached := false
    hdr := false
    data := fun _ => none
    shmSize := 0 }

/-- `if (fd >= 0) close(fd);` -/
def closeFd (l : Ledger Nat) (fd : Int) : Ledger Nat := if fd ≥ 0 then l.release fd.toNat else l

def Session.disconnect (s : Session) : Session where
  c := Client.disconnect s.c
  fds := closeFd (closeFd s.fds s.c.shmFd) s.c.sock
  maps := s.maps.releaseIf s.shmMap
  shmMap := none
  hdrMap := none
  dataMap _ := none

/-- The calls on one client; `destroy` is a disconnect before the client is
freed. -/
inductive Call where
  | connect (o : ConnectOutcome)
  | attach (layoutJson : Option (List Char)) (env : AttachEnv) (mapping : Nat)
  | disconnect

def Session.step (s : Session) : Call → Session
  | .connect o => s.connect o
  | .attach layoutJson env mapping => s.attach layoutJson env mapping
  | .disconnect => s.disconnect

/-! ## The client part -/

theorem connect_client (s : Session) (o : ConnectOutcome) : (s.connect o).c = (Client.connect s.c o).client := by
  cases o <;> rfl

theorem attachObject_client (s : Session) (info : LayoutInfo) (env : AttachEnv) (mapping : Nat) :
    (s.attachObject info env mapping).c = (Client.attachObject s.c info env).client := by
  unfold Session.attachObject
  split
  · rfl
  · dsimp only
    split
    · rfl
    split
    · rfl
    split <;> rfl

/-- The client after the automatic connect. -/
theorem autoConnect_client (s : Session) (o : ConnectOutcome) :
    (if s.c.sock < 0 then s.connect o else s).c =
      (if s.c.sock < 0 then Client.connect s.c o else ⟨true, s.c, none⟩).client := by
  split
  · exact connect_client s o
  · rfl

/-- **The client part of an attach** is `Client.attach`. -/
theorem attach_client (s : Session) (layoutJson : Option (List Char)) (env : AttachEnv) (mapping : Nat) :
    (s.attach layoutJson env mapping).c = (Client.attach s.c layoutJson env).client := by
  unfold Session.attach
  cases hl : layoutOf s.c layoutJson env with
  | none => rfl
  | some info =>
    dsimp only
    rw [attachObject_client, autoConnect_client]
    unfold layoutOf at hl
    unfold Client.attach
    dsimp only at hl ⊢
    generalize (if s.c.sock < 0 then Client.connect s.c env.connect else ⟨true, s.c, none⟩) = r at hl ⊢
    cases hr : r.ok with
    | false => simp [hr] at hl
    | true =>
      simp only [hr, if_true, Bool.not_true, Bool.false_eq_true, if_false] at hl ⊢
      cases hf : fetchLayout r.client layoutJson env.rpc with
      | error e => simp [hf, Except.toOption] at hl
      | ok info' =>
        simp only [hf, Except.toOption, Option.some.injEq] at hl
        rw [hl]

/-- The fields the handles are in. -/
structure SameHandles (c c' : NekoEcatClient) : Prop where
  sock : c'.sock = c.sock
  shmFd : c'.shmFd = c.shmFd
  shmPtr : c'.shmPtr = c.shmPtr
  hdr : c'.hdr = c.hdr
  data : c'.data = c.data
  attached : c'.attached = c.attached

theorem fetchLayout_sameHandles {c : NekoEcatClient} {layoutJson : Option (List Char)} {rpc : RpcOutcome}
    {r : CallResult} (h : fetchLayout c layoutJson rpc = .error r) : SameHandles c r.client := by
  obtain ⟨-, msg, hmsg⟩ := fetchLayout_error h
  rw [hmsg]
  exact ⟨rfl, rfl, rfl, rfl, rfl, rfl⟩

/-- An attach that does not open the object only connects. -/
theorem attach_stops {s : Session} {layoutJson : Option (List Char)} {env : AttachEnv}
    (h : layoutOf s.c layoutJson env = none) :
    SameHandles (if s.c.sock < 0 then s.connect env.connect else s).c (Client.attach s.c layoutJson env).client := by
  rw [autoConnect_client]
  unfold layoutOf at h
  unfold Client.attach
  dsimp only at h ⊢
  generalize (if s.c.sock < 0 then Client.connect s.c env.connect else ⟨true, s.c, none⟩) = r at h ⊢
  cases hr : r.ok with
  | false => exact ⟨rfl, rfl, rfl, rfl, rfl, rfl⟩
  | true =>
    simp only [hr, if_true, Bool.not_true, Bool.false_eq_true, if_false] at h ⊢
    cases hf : fetchLayout r.client layoutJson env.rpc with
    | error e => exact fetchLayout_sameHandles hf
    | ok info => simp [hf, Except.toOption] at h

/-! ## What is held -/

/-- The descriptors the client knows to be its own. -/
def descriptors (c : NekoEcatClient) : List Nat :=
  (if c.shmPtr then [c.shmFd.toNat] else []) ++ (if 0 ≤ c.sock then [c.sock.toNat] else [])

/-- `hdr`, `data[0]` and `data[1]` lie inside this mapping. -/
def Session.PointInto (s : Session) (m : Mapping) : Prop :=
  s.hdrMap = some m ∧ s.c.hdr = true ∧ ∀ b, s.dataMap b = some m ∧ ∃ d, s.c.data b = some d ∧ d < m.size

structure Session.Ok (s : Session) : Prop where
  fds : s.fds.Holds (descriptors s.c)
  maps : s.maps.Holds s.shmMap.toList
  shmMap : s.shmMap.isSome = s.c.shmPtr
  shmFd : s.c.shmPtr = true → 0 ≤ s.c.shmFd
  attached : s.c.attached = true → ∃ m, s.shmMap = some m ∧ s.PointInto m

theorem Session.Ok.of_eq {s : Session} (h : s.Ok) {c : NekoEcatClient} (hc : SameHandles s.c c) :
    Session.Ok { s with c := c } := by
  obtain ⟨h1, h2, h3, h4, h5⟩ := h
  obtain ⟨c1, c2, c3, c4, c5, c6⟩ := hc
  refine ⟨?_, h2, ?_, ?_, ?_⟩
  · simpa only [descriptors, c1, c2, c3] using h1
  · simpa only [c3] using h3
  · simpa only [c2, c3] using h4
  · simpa only [Session.PointInto, c4, c5, c6] using h5

theorem create_ok : Session.create.Ok :=
  ⟨Ledger.holds_empty, Ledger.holds_empty, rfl, by simp [Session.create, Client.create],
    by simp [Session.create, Client.create]⟩

theorem connect_ok {s : Session} (h : s.Ok) (hs : s.c.sock < 0) (o : ConnectOutcome) : (s.connect o).Ok := by
  have hneg : ¬ (0 : Int) ≤ s.c.sock := by omega
  have hfds := h.fds
  rw [descriptors, if_neg hneg, List.append_nil] at hfds
  have hfail : ∀ e, Session.Ok { s with c := { s.c with sock := -1, lastErr := e } } := by
    intro e
    refine ⟨?_, h.maps, h.shmMap, h.shmFd, h.attached⟩
    simpa [descriptors] using hfds
  cases o with
  | ok sock =>
    refine ⟨?_, h.maps, h.shmMap, h.shmFd, h.attached⟩
    have hd : descriptors { s.c with sock := (sock : Int) } = (if s.c.shmPtr then [s.c.shmFd.toNat] else []) ++ [sock] := by
      simp [descriptors]
    show (s.fds.acquire sock).Holds (descriptors { s.c with sock := (sock : Int) })
    rw [hd]
    exact (hfds.acquire sock).perm (List.perm_append_singleton sock _).symm
  | socketFails => exact hfail _
  | getaddrinfoFails host => exact hfail _
  | connectFails => exact hfail _

/-- The object, when it is the one the layout describes, reaches into the second
buffer. -/
def Long (info : LayoutInfo) (env : AttachEnv) : Prop :=
  ∀ fd obj, env.shmOpen = some (fd, obj) → env.fstat = true → env.mmap = true → headerSize ≤ obj.size →
    obj.hdr.dataSize = clampStride info.dsize → headerSize + (clampStride info.dsize).toNat < obj.size

theorem attachObject_held {s : Session} (h : s.Ok) (hp : s.c.shmPtr = false) {info : LayoutInfo} {env : AttachEnv}
    (hlong : Long info env) (mapping : Nat) : (s.attachObject info env mapping).Ok := by
  have hmap : s.shmMap = none := by
    have := h.shmMap
    rw [hp] at this
    simpa using this
  have hatt : s.c.attached = false := by
    cases ha : s.c.attached with
    | false => rfl
    | true =>
      obtain ⟨m, hm, -⟩ := h.attached ha
      rw [hmap] at hm
      cases hm
  have hfds := h.fds
  have hmaps := h.maps
  rw [descriptors, hp] at hfds
  rw [hmap] at hmaps
  have hfds : s.fds.Holds (if 0 ≤ s.c.sock then [s.c.sock.toNat] else []) := hfds
  have hmaps : s.maps.Holds [] := hmaps
  unfold Session.attachObject Client.attachObject
  cases ho : env.shmOpen with
  | none => exact ⟨by simpa [fail, setError, descriptors, hp] using hfds, h.maps, h.shmMap,
      by simp [fail, setError, hp], by simp [fail, setError, hatt]⟩
  | some o =>
    obtain ⟨fd, obj⟩ := o
    have hback : (((s.fds.acquire fd).release fd)).Holds (if 0 ≤ s.c.sock then [s.c.sock.toNat] else []) :=
      (hfds.acquire fd).release
    dsimp only
    by_cases hsize : (!env.fstat || decide (obj.size < headerSize)) = true
    · rw [if_pos hsize, if_pos hsize]
      exact ⟨by simpa [fail, setError, descriptors, hp] using hback, h.maps, h.shmMap,
        by simp [fail, setError, hp], by simp [fail, setError, hatt]⟩
    rw [if_neg hsize, if_neg hsize]
    by_cases hmm : (!env.mmap) = true
    · rw [if_pos hmm, if_pos hmm]
      exact ⟨by simpa [fail, setError, descriptors] using hback, hmaps, rfl, by simp [fail, setError],
        by simp [fail, setError, hatt]⟩
    rw [if_neg hmm, if_neg hmm]
    generalize hm : (⟨mapping, _⟩ : Mapping) = m
    by_cases hds : obj.hdr.dataSize ≠ clampStride info.dsize
    · rw [if_pos hds, if_pos hds]
      exact ⟨by simpa [fail, setError, descriptors] using hback, (hmaps.acquire m).release, rfl, by simp [fail, setError],
        by simp [fail, setError, hatt]⟩
    rw [if_neg hds, if_neg hds]
    have hfd : (s.fds.acquire fd).Holds ([fd] ++ (if 0 ≤ s.c.sock then [s.c.sock.toNat] else [])) := hfds.acquire fd
    have hin : ∀ b : Fin 2, headerSize + b.val * (clampStride info.dsize).toNat < m.size := by
      simp only [Bool.or_eq_true, Bool.not_eq_true', decide_eq_true_eq, not_or, Bool.not_eq_false, Nat.not_lt] at hsize
      have hl := hlong fd obj ho hsize.1 (by simpa using hmm) hsize.2 (by simpa using hds)
      have hpos := (clampStride_range info.dsize).1
      intro b
      have hb : b.val * (clampStride info.dsize).toNat ≤ 1 * (clampStride info.dsize).toNat :=
        Nat.mul_le_mul_right _ (by omega)
      rw [← hm]
      dsimp only
      split <;> omega
    split <;>
    exact ⟨by simpa [descriptors, setError] using hfd, hmaps.acquire m, rfl, fun _ => Int.natCast_nonneg fd,
      fun _ => ⟨m, rfl, rfl, rfl, fun b => ⟨rfl, _, rfl, hin b⟩⟩⟩

theorem disconnect_back {s : Session} (h : s.Ok) (hc : 0 ≤ s.c.shmFd → s.c.shmPtr = true) :
    s.disconnect.fds = .empty ∧ s.disconnect.maps = .empty := by
  refine ⟨?_, h.maps.releaseIf⟩
  have hfds := h.fds
  have hsock : ∀ l : Ledger Nat, l.Holds (if 0 ≤ s.c.sock then [s.c.sock.toNat] else []) →
      closeFd l s.c.sock = .empty := by
    intro l hl
    unfold closeFd
    by_cases h0 : 0 ≤ s.c.sock
    · rw [if_pos h0] at hl
      rw [if_pos h0]
      exact hl.release.nil
    · rw [if_neg h0] at hl
      rw [if_neg h0]
      exact hl.nil
  refine hsock _ ?_
  unfold closeFd
  cases hp : s.c.shmPtr with
  | true =>
    rw [descriptors, hp] at hfds
    rw [if_pos (h.shmFd hp)]
    exact hfds.release
  | false =>
    rw [descriptors, hp] at hfds
    have hneg : ¬ s.c.shmFd ≥ 0 := fun h0 => by rw [hc h0] at hp; cases hp
    rw [if_neg hneg]
    exact hfds

theorem disconnect_held {s : Session} (h : s.Ok) (hc : 0 ≤ s.c.shmFd → s.c.shmPtr = true) : s.disconnect.Ok := by
  obtain ⟨h1, h2⟩ := disconnect_back h hc
  refine ⟨?_, ?_, rfl, by simp [Session.disconnect, Client.disconnect], by simp [Session.disconnect, Client.disconnect]⟩
  · have hd : descriptors s.disconnect.c = [] := by
      by_cases h0 : 0 ≤ s.c.sock <;> simp [descriptors, Session.disconnect, Client.disconnect, h0]
    rw [h1, hd]
    exact Ledger.holds_empty
  · rw [h2]
    exact Ledger.holds_empty

/-! ## Careful runs -/

/-- Connect only without a socket. Attach, if it gets as far as the object, only
with nothing mapped and to an object that reaches into its second buffer.
Disconnect only if the descriptor of the shared memory is not the 0 of
`calloc`. -/
def Careful (s : Session) : Call → Prop
  | .connect _ => s.c.sock < 0
  | .attach layoutJson env _ => ∀ info, layoutOf s.c layoutJson env = some info → s.c.shmPtr = false ∧ Long info env
  | .disconnect => 0 ≤ s.c.shmFd → s.c.shmPtr = true

theorem attach_held {s : Session} (h : s.Ok) {layoutJson : Option (List Char)} {env : AttachEnv} {mapping : Nat}
    (hc : Careful s (.attach layoutJson env mapping)) : (s.attach layoutJson env mapping).Ok := by
  have hauto : Session.Ok (if s.c.sock < 0 then s.connect env.connect else s) := by
    split
    · exact connect_ok h (by assumption) env.connect
    · exact h
  unfold Session.attach
  cases hl : layoutOf s.c layoutJson env with
  | none => exact hauto.of_eq (attach_stops hl)
  | some info =>
    obtain ⟨hp, hlong⟩ := hc info hl
    have hp' : (if s.c.sock < 0 then s.connect env.connect else s).c.shmPtr = false := by
      split
      · rw [connect_client]
        cases env.connect <;> exact hp
      · exact hp
    exact attachObject_held hauto hp' hlong mapping

theorem step_ok (s : Session) (l : Call) (h : s.Ok) (hc : Careful s l) : (s.step l).Ok := by
  cases l with
  | connect o => exact connect_ok h hc o
  | attach layoutJson env mapping => exact attach_held h hc
  | disconnect => exact disconnect_held h hc

/-- The descriptors and mappings given back were the client's own, and the
pointers of an attached client lie inside one live mapping. -/
def Session.Sound (s : Session) : Prop :=
  s.fds.strays = [] ∧ s.maps.strays = [] ∧
    (s.c.attached = true → ∃ m ∈ s.maps.live, s.PointInto m)

theorem Session.Ok.sound {s : Session} (h : s.Ok) : s.Sound := by
  refine ⟨h.fds.2, h.maps.2, fun ha => ?_⟩
  obtain ⟨m, hm, hp⟩ := h.attached ha
  have hmaps := h.maps
  rw [hm] at hmaps
  exact ⟨m, hmaps.1.symm.subset List.mem_cons_self, hp⟩

/-- **A run of careful calls is sound in every state**, and a careful destroy
gives back all that was opened. -/
theorem careful_run (σ : Nat → Call) (n : Nat)
    (h : ∀ m < n, Careful (trace Session.step .create σ m) (σ m)) :
    (trace Session.step .create σ n).Sound ∧
      (Careful (trace Session.step .create σ n) .disconnect →
        (trace Session.step .create σ n).disconnect.fds = .empty ∧
        (trace Session.step .create σ n).disconnect.maps = .empty) := by
  have hok := trace_inv_guarded Session.step .create σ create_ok step_ok n h
  exact ⟨hok.sound, disconnect_back hok⟩

/-- Connect, attach to an object of 60 bytes, disconnect. -/
def plainRun : List Call := [.connect (.ok 4), .attach (some shortLayout) (shortEnv 60) 0, .disconnect]

theorem careful_plainRun :
    (trace Session.step .create (sched plainRun .disconnect) 2).Sound ∧
      (trace Session.step .create (sched plainRun .disconnect) 2).disconnect.fds = .empty ∧
      (trace Session.step .create (sched plainRun .disconnect) 2).disconnect.maps = .empty := by
  have hcareful : ∀ m < 2, Careful (trace Session.step .create (sched plainRun .disconnect) m)
      (sched plainRun .disconnect m) := by
    intro m hm
    rcases Nat.lt_succ_iff_lt_or_eq.1 hm with h | rfl
    · rw [Nat.lt_one_iff.1 h]
      show (-1 : Int) < 0
      decide
    · refine fun info hinfo => ⟨rfl, ?_⟩
      rintro fd obj ⟨⟩ - - - hds
      rw [← hds]
      decide
  have h := careful_run (sched plainRun .disconnect) 2 hcareful
  exact ⟨h.1, h.2 fun _ => by decide⟩

/-- The layout of an object that another daemon has replaced since. -/
def staleEnv : AttachEnv :=
  { shortEnv 60 with shmOpen := some (6, ⟨60, ⟨7, 7, 0, 0, 1, layoutVersion, flagRunning, 0⟩⟩) }

/-- **Careless calls.** A disconnect before the first attach closes descriptor
0; a second connect loses the first socket; an attach that fails while attached
leaves the client attached to a mapping that is gone. -/
theorem lifecycle_faults :
    (exec Session.step .create [.connect (.ok 4), .disconnect]).fds.strays = [0] ∧
    (exec Session.step .create [.connect (.ok 4), .connect (.ok 5), .attach (some shortLayout) (shortEnv 60) 0,
      .disconnect]).fds.live = [4] ∧
    ¬ (exec Session.step .create [.connect (.ok 4), .attach (some shortLayout) (shortEnv 60) 0,
      .attach (some shortLayout) staleEnv 1]).Sound := by
  refine ⟨by decide, by decide, fun h => ?_⟩
  obtain ⟨m, hm, hh, -⟩ := h.2.2 (by decide)
  have hlive : (exec Session.step .create [.connect (.ok 4), .attach (some shortLayout) (shortEnv 60) 0,
      .attach (some shortLayout) staleEnv 1]).maps.live = [⟨0, 60⟩] := by decide
  have hhdr : (exec Session.step .create [.connect (.ok 4), .attach (some shortLayout) (shortEnv 60) 0,
      .attach (some shortLayout) staleEnv 1]).hdrMap = some ⟨1, 60⟩ := by decide
  rw [hlive, List.mem_singleton] at hm
  rw [hhdr, hm] at hh
  exact absurd hh (by decide)

end NekoEcat.L2.Client
