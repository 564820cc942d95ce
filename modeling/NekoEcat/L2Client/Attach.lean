import NekoEcat.L2Client.Access

/-!
# Attaching to the shared memory (`nekoecat_client_attach`)

The outcomes of the socket and memory calls are an environment; the layout
comes from the caller's text or from the daemon's answer. The mapping is
clamped to the object's real size, while the bounds of later accesses come
from the data size the layout gave.

* `attach_ok`: what a successful attach establishes.
* `mapped_safe_iff`: exactly when every access that a client attached to an
  object may make stays inside its mapping.
-/
namespace NekoEcat.L2.Client
open NekoEcat.Bytes NekoEcat.CScan NekoEcat.L1.Shm NekoEcat.L2.Layout

/-- How `nekoecat_client_connect` ends. -/
inductive ConnectOutcome where
  | ok (sock : Nat)
  | socketFails
  | getaddrinfoFails (host : String)
  | connectFails

/-- What one RPC meets on the socket. -/
inductive RpcOutcome where
  | sendFails
  | recvFails
  | line (resp : List Char)

/-- A shared-memory object: its size and the header it starts with. -/
structure ShmObject where
  size : Nat
  hdr : ShmHeader

/-- The outcomes of the system calls; `shmOpen` is the descriptor and the
object behind the name asked for. -/
structure AttachEnv where
  connect : ConnectOutcome
  rpc : RpcOutcome
  shmOpen : Option (Nat × ShmObject)
  fstat : Bool
  mmap : Bool

/-- The result of a call that fills `err`; `err = none`: not written. -/
structure CallResult where
  ok : Bool
  client : NekoEcatClient
  err : Option String

/-- `set_error(client, msg); errcpy(err, esz, out); return false;` -/
def fail (c : NekoEcatClient) (msg out : String) : CallResult := ⟨false, setError c msg, some out⟩

/-- mirrors client/nekoecat_client.c:121-163 -/
def connect (c : NekoEcatClient) : ConnectOutcome → CallResult
  | .ok sock => ⟨true, { c with sock := sock }, none⟩
  | .socketFails => fail { c with sock := -1 } "socket fail" "socket fail"
  | .getaddrinfoFails host =>
    fail { c with sock := -1 } ("getaddrinfo failed for " ++ host) "getaddrinfo failed"
  | .connectFails => fail { c with sock := -1 } "connect fail" "connect fail"

/-- mirrors client/nekoecat_client.c:187-207 -/
def rpcCall (c : NekoEcatClient) (method : String) : RpcOutcome → Except NekoEcatClient (List Char)
  | .sendFails => .error (setError c ("rpc send failed (" ++ method ++ ")"))
  | .recvFails => .error (setError c ("rpc recv failed (" ++ method ++ ")"))
  | .line resp =>
    match strstr "\"ok\":true".toList resp with
    | none => .error (setError c ("rpc " ++ method ++ " rejected"))
    | some _ => .ok resp

/-- The inner object of a wrapped answer.
mirrors client/nekoecat_client.c:275-280 -/
def resultJson (resp : List Char) : List Char :=
  match strstr "\"result\":".toList resp with
  | none => resp
  | some res => (strstr ['{'] res).getD resp

/-- What the layout text contributes: the parsed layout, the stride before
clamping, the name and the layout version. -/
structure LayoutInfo where
  parsed : ShmLayout
  dsize : UInt32
  shmname : String
  layoutVersion : UInt32

/-- The part both sources of the layout share; `none`: the layout is refused.
mirrors client/nekoecat_client.c:258-267, 281-293 -/
def layoutInfo (json : List Char) : Option LayoutInfo :=
  let (ok, parsed) := layoutParseFromShmInfoJson json
  if !ok then none
  else
    some {
      parsed := parsed
      dsize := if parsed.dataSize ≠ 0 then parsed.dataSize else UInt32.ofNat maxProcessDataSize
      shmname :=
        match strstr "\"shm_name\":\"".toList json with
        | none => "/nekoecat_proc_0"
        | some nm => ((scanUntilQuote 63 (nm.drop 12)).map String.ofList).getD "/nekoecat_proc_0"
      layoutVersion := UInt32.ofNat (scanField json "\"layout_version\":" 17 32) }

/-- The layout, from the caller or from the daemon.
mirrors client/nekoecat_client.c:252-294 -/
def fetchLayout (c : NekoEcatClient) (layoutJson : Option (List Char)) (rpc : RpcOutcome) :
    Except CallResult LayoutInfo :=
  match layoutJson with
  | some (ch :: json) =>
    match layoutInfo (ch :: json) with
    | none => .error (fail c "attach: invalid layout_json" "attach: invalid layout_json")
    | some info => .ok info
  | _ =>
    match rpcCall c "freeRunShmInfo" rpc with
    | .error c => .error ⟨false, c, some c.lastErr⟩
    | .ok resp =>
      match layoutInfo (resultJson resp) with
      | none => .error (fail c "attach: failed to parse layout from shmInfo"
          "attach: failed to parse layout from shmInfo")
      | some info => .ok info

/-- `if (dsize == 0 || dsize > NEKOECAT_SHM_MAX_PROCESS_DATA_SIZE)` -/
def clampStride (dsize : UInt32) : UInt32 :=
  if dsize = 0 ∨ dsize > UInt32.ofNat maxProcessDataSize then UInt32.ofNat maxProcessDataSize else dsize

/-- From the layout on: open, size, map and cross-check the object.
mirrors client/nekoecat_client.c:296-369 -/
def attachObject (c : NekoEcatClient) (info : LayoutInfo) (env : AttachEnv) : CallResult :=
  let dsize := clampStride info.dsize
  match env.shmOpen with
  | none => fail { c with shmFd := -1 } ("shm_open fail (" ++ info.shmname ++ ")") "shm_open fail"
  | some (fd, obj) =>
    let want := headerSize + 2 * dsize.toNat
    if !env.fstat || decide (obj.size < headerSize) then
      fail { c with shmFd := -1 } ("shm fstat fail (" ++ info.shmname ++ ")") "shm fstat fail"
    else
      let want := if obj.size < want then obj.size else want
      let c := { c with shmFd := (fd : Int), shmSize := want }
      if !env.mmap then fail { c with shmFd := -1, shmPtr := false } "mmap fail" "mmap fail"
      else
        let c := { c with shmPtr := true, hdr := true }
        if obj.hdr.dataSize ≠ dsize then
          fail { c with shmPtr := false, shmFd := -1 }
            ("attach: shm data_size changed (header=" ++ fmtU obj.hdr.dataSize ++ ", layout=" ++
              fmtU dsize ++ ")")
            "shm data_size mismatch (daemon restarted?)"
        else
          let c := { c with
            data := fun b => some (headerSize + b.val * dsize.toNat)
            mappedDataSize := dsize
            layout := info.parsed
            knownLayoutVersion := info.layoutVersion
            attached := true
            stateError := false
            lastVersion := obj.hdr.version }
          if info.layoutVersion ≠ 0 ∧ obj.hdr.layoutVersion ≠ info.layoutVersion then
            let c := setError c ("attach: layout version mismatch (header=" ++
              fmtU obj.hdr.layoutVersion ++ ", layout=" ++ fmtU info.layoutVersion ++ ")")
            ⟨true, { c with stateError := true }, some "layout version mismatch"⟩
          else ⟨true, c, none⟩

/-- mirrors client/nekoecat_client.c:233-370 -/
def attach (c : NekoEcatClient) (layoutJson : Option (List Char)) (env : AttachEnv) : CallResult :=
  let r := if c.sock < 0 then connect c env.connect else ⟨true, c, none⟩
  if !r.ok then r
  else
    match fetchLayout r.client layoutJson env.rpc with
    | .error r => r
    | .ok info => attachObject r.client info env

/-! ## What a successful attach establishes -/

/-- A client attached to an object: the stride is the object's data size, the
buffers lie behind the header with that stride, and the mapping is cut to the
object. -/
structure AttachedTo (c : NekoEcatClient) (obj : ShmObject) : Prop where
  attached : c.attached = true
  hdr : c.hdr = true
  stride : c.mappedDataSize = obj.hdr.dataSize
  stride_pos : 1 ≤ c.mappedDataSize.toNat
  stride_le : c.mappedDataSize.toNat ≤ maxProcessDataSize
  data : ∀ b : Fin 2, c.data b = some (headerSize + b.val * c.mappedDataSize.toNat)
  size : c.shmSize = min obj.size (headerSize + 2 * c.mappedDataSize.toNat)
  object : headerSize ≤ obj.size

theorem clampStride_range (dsize : UInt32) :
    1 ≤ (clampStride dsize).toNat ∧ (clampStride dsize).toNat ≤ maxProcessDataSize := by
  unfold clampStride
  split
  · decide
  · rename_i h
    rw [not_or] at h
    refine ⟨?_, Nat.le_of_not_lt fun hlt => h.2 (UInt32.lt_iff_toNat_lt.2 hlt)⟩
    have : dsize.toNat ≠ 0 := fun h0 => h.1 (UInt32.toNat_inj.1 h0)
    omega

theorem attachObject_ok {c : NekoEcatClient} {info : LayoutInfo} {env : AttachEnv} {r : CallResult}
    (hr : attachObject c info env = r) (hok : r.ok = true) :
    ∃ fd obj, env.shmOpen = some (fd, obj) ∧ AttachedTo r.client obj := by
  unfold attachObject at hr
  dsimp only at hr
  split at hr
  · subst hr; cases hok
  rename_i fd obj ho
  refine ⟨fd, obj, ho, ?_⟩
  split at hr
  · subst hr; cases hok
  rename_i hsz
  split at hr
  · subst hr; cases hok
  split at hr
  · subst hr; cases hok
  rename_i hds
  simp only [Bool.or_eq_true, Bool.not_eq_true', decide_eq_true_eq, not_or, Bool.not_eq_false,
    Nat.not_lt] at hsz
  simp only [ne_eq, Decidable.not_not] at hds
  obtain ⟨h1, h2⟩ := clampStride_range info.dsize
  have hmin : (if obj.size < headerSize + 2 * (clampStride info.dsize).toNat then obj.size
      else headerSize + 2 * (clampStride info.dsize).toNat) =
      min obj.size (headerSize + 2 * (clampStride info.dsize).toNat) := by
    split <;> omega
  split at hr <;> subst hr
  · exact ⟨rfl, rfl, hds.symm, h1, h2, fun _ => rfl, hmin, hsz.2⟩
  · exact ⟨rfl, rfl, hds.symm, h1, h2, fun _ => rfl, hmin, hsz.2⟩

/-- The results before the object is opened are failures. -/
theorem rpcCall_error {c c' : NekoEcatClient} {method : String} {rpc : RpcOutcome}
    (h : rpcCall c method rpc = .error c') : ∃ msg, c' = setError c msg := by
  unfold rpcCall at h
  split at h
  · exact ⟨_, (Except.error.inj h).symm⟩
  · exact ⟨_, (Except.error.inj h).symm⟩
  · split at h
    · exact ⟨_, (Except.error.inj h).symm⟩
    · cases h

/-- A layout that is not there leaves a text in the client. -/
theorem fetchLayout_error {c : NekoEcatClient} {layoutJson : Option (List Char)} {rpc : RpcOutcome}
    {r : CallResult} (h : fetchLayout c layoutJson rpc = .error r) :
    r.ok = false ∧ ∃ msg, r.client = setError c msg := by
  unfold fetchLayout at h
  split at h
  · split at h
    · rw [← Except.error.inj h]
      exact ⟨rfl, _, rfl⟩
    · cases h
  · split at h
    · rename_i c' hc
      obtain ⟨msg, hmsg⟩ := rpcCall_error hc
      rw [← Except.error.inj h]
      exact ⟨rfl, msg, hmsg⟩
    · split at h
      · rw [← Except.error.inj h]
        exact ⟨rfl, _, rfl⟩
      · cases h

/-- **A successful attach** leaves the client attached to the object that was
opened. -/
theorem attach_ok {c : NekoEcatClient} {layoutJson : Option (List Char)} {env : AttachEnv}
    (h : (attach c layoutJson env).ok = true) :
    ∃ fd obj, env.shmOpen = some (fd, obj) ∧ AttachedTo (attach c layoutJson env).client obj := by
  generalize hr : attach c layoutJson env = r at h
  unfold attach at hr
  dsimp only at hr
  generalize (if c.sock < 0 then connect c env.connect else ⟨true, c, none⟩) = r₀ at hr
  split at hr
  · rename_i hf
    rw [hr, h] at hf
    cases hf
  · split at hr
    · rename_i r' hr'
      subst hr
      rw [(fetchLayout_error hr').1] at h
      cases h
    · exact attachObject_ok hr h

/-! ## Accesses and the mapping -/

/-- Every byte of a range lies inside the mapping. -/
def InMapping (c : NekoEcatClient) (range : Nat × Nat) : Prop :=
  ∀ i, range.1 ≤ i → i < range.1 + range.2 → i < c.shmSize

/-- Whatever the header holds at each load, a read or write touches only bytes
inside the mapping. -/
def MappedSafe (c : NekoEcatClient) : Prop :=
  (∀ hsz attempts off buf nbytes, ∀ range ∈ (readRawAt c hsz attempts off buf nbytes).touched,
    InMapping c range) ∧
  ∀ hsz activeBuffer mem off buf nbytes,
    ∀ range ∈ (writeRawAt c hsz activeBuffer mem off buf nbytes).touched, InMapping c range

/-- An accepted range lies inside the stride of the buffer it is in. -/
theorem access_bound {c : NekoEcatClient} {obj : ShmObject} (h : AttachedTo c obj)
    {hsz off nbytes b : UInt32} {d : Nat} (hb : checkBounds c hsz off nbytes = true)
    (hd : getActiveData c b = some d) :
    d + off.toNat + nbytes.toNat ≤ headerSize + 2 * c.mappedDataSize.toNat := by
  have h1 := (checkBounds_iff.1 hb).2
  have h2 := effectiveDataSize_le (c := c) (fun h0 => by have := h.stride_pos; rw [h0] at this; cases this)
    h.stride_le hsz
  unfold getActiveData at hd
  split at hd
  · cases hd
  split at hd
  · cases hd
  · rename_i hle
    rw [h.data] at hd
    cases hd
    have : b.toNat * c.mappedDataSize.toNat ≤ 1 * c.mappedDataSize.toNat :=
      Nat.mul_le_mul_right _ (by omega)
    dsimp only; omega

/-- **Mapped-region safety, exactly.** For a client that attached to an
object, every access it may make, under any later header contents, stays
inside the mapping if and only if the object holds the header and two buffers
of the data size its header gave at the attach. -/
theorem mapped_safe_iff (c : NekoEcatClient) (layoutJson : Option (List Char)) (env : AttachEnv)
    (fd : Nat) (obj : ShmObject) (hobj : env.shmOpen = some (fd, obj))
    (h : (attach c layoutJson env).ok = true) :
    MappedSafe (attach c layoutJson env).client ↔ headerSize + 2 * obj.hdr.dataSize.toNat ≤ obj.size := by
  obtain ⟨fd', obj', ho, ha⟩ := attach_ok h
  rw [hobj] at ho
  cases ho
  generalize (attach c layoutJson env).client = k at ha
  have hpos := ha.stride_pos
  have hsize := ha.size
  rw [← ha.stride]
  constructor
  · intro hs
    by_contra hlt
    -- a whole-buffer write into buffer 1 ends where the two buffers would end
    have hne : k.mappedDataSize ≠ 0 := fun h0 => by rw [h0] at hpos; cases hpos
    have hb : checkBounds k 0 0 k.mappedDataSize = true := by
      rw [checkBounds_iff, effectiveDataSize_zero ha.hdr hne ha.stride_le]
      exact ⟨by decide, by simp⟩
    have hd : getActiveData k 1 = some (headerSize + k.mappedDataSize.toNat) := by
      unfold getActiveData
      simp only [ha.hdr, Bool.not_true, Bool.false_eq_true, if_false]
      rw [dif_neg (by decide), ha.data]
      simp
    have ht : (writeRawAt k 0 1 [] 0 (some []) k.mappedDataSize).touched =
        [(headerSize + k.mappedDataSize.toNat + 0, k.mappedDataSize.toNat)] := by
      simp only [writeRawAt, ha.attached, ha.hdr, hb, hd]
      rfl
    have := hs.2 0 1 [] 0 (some []) k.mappedDataSize _ (by rw [ht]; exact List.mem_singleton_self _)
      (headerSize + 2 * k.mappedDataSize.toNat - 1) (by dsimp only; omega) (by dsimp only; omega)
    omega
  · intro hle
    constructor
    · intro hsz attempts off buf nbytes range hr i h1 h2
      obtain ⟨hb, _, d, hd, rfl⟩ := readRawAt_touched hr
      have := access_bound ha hb hd
      dsimp only at h1 h2
      omega
    · intro hsz b mem off buf nbytes range hr i h1 h2
      rcases writeRawAt_cases k hsz b mem off buf nbytes with ⟨-, -, ht⟩ | ⟨d, _, -, -, hd, -, -, hb, -, ht⟩
      · rw [ht] at hr; cases hr
      · rw [ht, List.mem_singleton] at hr
        subst hr
        have := access_bound ha hb hd
        dsimp only at h1 h2
        omega

/-- A layout of two bytes with one entry. -/
def shortLayout : List Char := "\x7b\"data_size\":2,\"layout\":[\x7b\"bitLength\":16,\"offset\":0\x7d]\x7d".toList

/-- The calls all succeed; the object's header says two bytes. -/
def shortEnv (size : Nat) : AttachEnv where
  connect := .ok 4
  rpc := .recvFails
  shmOpen := some (5, ⟨size, ⟨7, 7, 0, 0, 2, layoutVersion, flagRunning, 0⟩⟩)
  fstat := true
  mmap := true

theorem mapped_safe_iff_short :
    MappedSafe (attach create (some shortLayout) (shortEnv 60)).client ↔
      headerSize + 2 * (2 : UInt32).toNat ≤ 60 :=
  mapped_safe_iff create (some shortLayout) (shortEnv 60) 5 _ rfl (by decide +kernel)

/-- **A short object is attached and overrun**: an object of 56 bytes is
mapped as it is, and a write into the second buffer touches byte 58. -/
theorem short_object_overrun :
    (attach create (some shortLayout) (shortEnv headerSize)).ok = true ∧
    ¬ MappedSafe (attach create (some shortLayout) (shortEnv headerSize)).client := by
  refine ⟨by decide, ?_⟩
  intro h
  have hin := h.2 2 1 [] 0 (some [1, 2]) 2 (58, 2) (by decide) 58 (by decide) (by decide)
  revert hin
  decide

end NekoEcat.L2.Client
