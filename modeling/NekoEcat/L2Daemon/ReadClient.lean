import NekoEcat.Core.Lines
import NekoEcat.Core.QJson

/-!
# The daemon's request framing

`readClient` appends what `readAll` returns to the socket's buffer, drops the
connection when the buffer is larger than 1 MiB, and otherwise cuts the
complete lines off it and dispatches them. The size is tested before the lines
are cut off, so what it bounds is the partial line together with everything
one read returned. The JSON parser and the command handlers are parameters.

* `run_small`: up to 1 MiB the split into chunks does not matter.
* `run_large`: nor does it when the first mebibyte holds no newline.
* `chunking_iff`: in all other cases it does, or a stream is rejected without
  a frame that is too large.
* `pipelined_rejected`: a batch of pings is rejected.
-/
namespace NekoEcat.L2.ReadClient
open NekoEcat.QJson NekoEcat.Lines

abbrev newline : UInt8 := 10

def kMaxSocketBuffer : Nat := 1024 * 1024

/-- mirrors src/core/JsonProtocol.cpp:32-38 -/
def failure (id message : String) (code : Int) : QJsonObject :=
  ofList [("id", .string id), ("ok", .bool false),
    ("error", .object (ofList [("code", .int code), ("message", .string message)]))]

def frameTooLarge : QJsonObject := failure "" "Request frame too large" (-1)

def invalidRequest : QJsonObject := failure "" "Invalid JSON request" (-1)

/-- What the daemon consists of outside this socket. -/
structure Daemon (D : Type) where
  requestCount : UInt64
  errorCount : UInt64
  backend : D

/-- A connection. -/
structure State (D : Type) where
  daemon : Daemon D
  /-- `buffers_[socket]` -/
  buffer : List UInt8
  /-- `disconnectFromHost` was called: the socket reads no more. -/
  disconnecting : Bool
  /-- Ghost: the requests given to the dispatcher. -/
  dispatched : List QJsonObject
  /-- The frames written to the socket. -/
  sent : List QJsonObject

/-- mirrors apps/ecatd/EcatDaemon.cpp:79-91 (`acceptClient`) -/
def acceptClient {D : Type} (daemon : Daemon D) : State D := ⟨daemon, [], false, [], []⟩

section
variable {D : Type}
  -- `QJsonDocument::fromJson` with `isObject`, and `CommandDispatcher::dispatch`
  (fromJson : List UInt8 → Option QJsonObject)
  (dispatch : Daemon D → QJsonObject → D × QJsonObject)

/-- mirrors apps/ecatd/EcatDaemon.cpp:448-452 -/
def send (s : State D) (response : QJsonObject) : State D := { s with sent := s.sent ++ [response] }

/-- mirrors apps/ecatd/EcatDaemon.cpp:130-137 -/
def handle (s : State D) (request : QJsonObject) : State D :=
  let counted := { s.daemon with requestCount := s.daemon.requestCount + 1 }
  let (backend, response) := dispatch counted request
  let errorCount := if toBool (value response "ok") then counted.errorCount else counted.errorCount + 1
  send { s with daemon := { counted with errorCount, backend }, dispatched := s.dispatched ++ [request] } response

/-- mirrors apps/ecatd/EcatDaemon.cpp:120-125 (the body of the loop) -/
def handleLine (s : State D) (line : List UInt8) : State D :=
  match fromJson line with
  | none => send s invalidRequest
  | some request => handle dispatch s request

/-- mirrors apps/ecatd/EcatDaemon.cpp:94-127 -/
def readClient (s : State D) (chunk : List UInt8) : State D :=
  if s.disconnecting then s
  else
    let buffer := s.buffer ++ chunk
    if kMaxSocketBuffer < buffer.length then
      { send { s with buffer } frameTooLarge with disconnecting := true }
    else
      let (s', left) := loop newline (handleLine fromJson dispatch) { s with buffer } buffer
      { s' with buffer := left }

/-- The chunks of a connection, one `readyRead` after the other. -/
def run (s : State D) (chunks : List (List UInt8)) : State D := chunks.foldl (readClient fromJson dispatch) s

variable {fromJson dispatch}

@[simp] theorem run_nil (s : State D) : run fromJson dispatch s [] = s := rfl

@[simp] theorem run_cons (s : State D) (c : List UInt8) (cs : List (List UInt8)) :
    run fromJson dispatch s (c :: cs) = run fromJson dispatch (readClient fromJson dispatch s c) cs := rfl

/-! ## One line, one chunk -/

variable (fromJson dispatch) in
/-- A line leaves the buffer and the connection, and is answered: with the
failure that it is no object, or with what the dispatcher makes of it. -/
theorem handleLine_cases (s : State D) (line : List UInt8) :
    (handleLine fromJson dispatch s line).buffer = s.buffer ∧
    (handleLine fromJson dispatch s line).disconnecting = s.disconnecting ∧
    ((handleLine fromJson dispatch s line).dispatched = s.dispatched ∧
        (handleLine fromJson dispatch s line).sent = s.sent ++ [invalidRequest] ∨
      ∃ request response, (handleLine fromJson dispatch s line).dispatched = s.dispatched ++ [request] ∧
        (handleLine fromJson dispatch s line).sent = s.sent ++ [response]) := by
  unfold handleLine
  split
  · exact ⟨rfl, rfl, .inl ⟨rfl, rfl⟩⟩
  · exact ⟨rfl, rfl, .inr ⟨_, _, rfl, rfl⟩⟩

variable (fromJson dispatch) in
/-- The connection after the lines: the same, with more dispatched and sent. -/
theorem foldl_handleLine (ls : List (List UInt8)) (s : State D) :
    (ls.foldl (handleLine fromJson dispatch) s).buffer = s.buffer ∧
    (ls.foldl (handleLine fromJson dispatch) s).disconnecting = s.disconnecting ∧
    (∃ more, (ls.foldl (handleLine fromJson dispatch) s).dispatched = s.dispatched ++ more) ∧
    (∃ more, (ls.foldl (handleLine fromJson dispatch) s).sent = s.sent ++ more) := by
  induction ls generalizing s with
  | nil => exact ⟨rfl, rfl, ⟨[], by simp⟩, ⟨[], by simp⟩⟩
  | cons l ls ih =>
    obtain ⟨hb, hd, hcases⟩ := handleLine_cases fromJson dispatch s l
    obtain ⟨ihb, ihd, ⟨more, ihm⟩, ⟨more', ihs⟩⟩ := ih (handleLine fromJson dispatch s l)
    rw [List.foldl_cons, ihb, ihd, ihm, ihs, hb, hd]
    refine ⟨rfl, rfl, ?_, ?_⟩
    · rcases hcases with ⟨h, -⟩ | ⟨request, response, h, -⟩
      · exact ⟨more, by rw [h]⟩
      · exact ⟨request :: more, by rw [h]; simp⟩
    · rcases hcases with ⟨-, h⟩ | ⟨request, response, -, h⟩
      · exact ⟨invalidRequest :: more', by rw [h]; simp⟩
      · exact ⟨response :: more', by rw [h]; simp⟩

/-- The state with another buffer handles the same lines the same way. -/
theorem foldl_with_buffer (ls : List (List UInt8)) (s : State D) (b : List UInt8) :
    ls.foldl (handleLine fromJson dispatch) { s with buffer := b } =
      { ls.foldl (handleLine fromJson dispatch) s with buffer := b } := by
  induction ls generalizing s with
  | nil => rfl
  | cons l ls ih =>
    have h1 : handleLine fromJson dispatch { s with buffer := b } l =
        { handleLine fromJson dispatch s l with buffer := b } := by
      unfold handleLine
      split <;> rfl
    rw [List.foldl_cons, h1, ih, List.foldl_cons]

/-- **A chunk that fits**: its lines are handled and the tail stays. -/
theorem readClient_fits {s : State D} (hd : s.disconnecting = false) {chunk : List UInt8}
    (hl : (s.buffer ++ chunk).length ≤ kMaxSocketBuffer) :
    readClient fromJson dispatch s chunk =
      { (lines newline (s.buffer ++ chunk)).foldl (handleLine fromJson dispatch) s with
        buffer := rest newline (s.buffer ++ chunk) } := by
  unfold readClient
  rw [if_neg (by rw [hd]; exact Bool.false_ne_true)]
  simp only [if_neg (Nat.not_lt.2 hl), loop_eq, foldl_with_buffer]

/-- **A chunk that does not fit**: the connection is dropped. -/
theorem readClient_overflows {s : State D} (hd : s.disconnecting = false) {chunk : List UInt8}
    (hl : kMaxSocketBuffer < (s.buffer ++ chunk).length) :
    readClient fromJson dispatch s chunk =
      { s with buffer := s.buffer ++ chunk, sent := s.sent ++ [frameTooLarge], disconnecting := true } := by
  unfold readClient
  rw [if_neg (by rw [hd]; exact Bool.false_ne_true)]
  simp only [if_pos hl, send]

/-- A dropped connection reads nothing. -/
theorem run_disconnecting {s : State D} (hd : s.disconnecting = true) (cs : List (List UInt8)) :
    run fromJson dispatch s cs = s := by
  induction cs with
  | nil => rfl
  | cons c cs ih =>
    have hr : readClient fromJson dispatch s c = s := by
      unfold readClient
      rw [if_pos hd]
    rw [run_cons, hr, ih]

variable (fromJson dispatch) in
/-- Nothing that was dispatched or sent is taken back. -/
theorem run_grows (cs : List (List UInt8)) (s : State D) :
    (∃ more, (run fromJson dispatch s cs).dispatched = s.dispatched ++ more) ∧
    (∃ more, (run fromJson dispatch s cs).sent = s.sent ++ more) := by
  induction cs generalizing s with
  | nil => exact ⟨⟨[], by simp⟩, ⟨[], by simp⟩⟩
  | cons c cs ih =>
    cases hd : s.disconnecting with
    | true => exact ⟨⟨[], by rw [run_disconnecting hd]; simp⟩, ⟨[], by rw [run_disconnecting hd]; simp⟩⟩
    | false =>
      obtain ⟨⟨more, hm⟩, ⟨more', hs⟩⟩ := ih (readClient fromJson dispatch s c)
      rw [run_cons, hm, hs]
      rcases Nat.lt_or_ge kMaxSocketBuffer (s.buffer ++ c).length with hl | hl
      · rw [readClient_overflows hd hl]
        exact ⟨⟨more, rfl⟩, ⟨frameTooLarge :: more', by simp⟩⟩
      · obtain ⟨-, -, ⟨a, ha⟩, ⟨b, hb⟩⟩ :=
          foldl_handleLine fromJson dispatch (lines newline (s.buffer ++ c)) s
        rw [readClient_fits hd hl]
        exact ⟨⟨a ++ more, by simp only [ha, List.append_assoc]⟩, ⟨b ++ more', by simp only [hb, List.append_assoc]⟩⟩

/-! ## A connection -/

/-- **Up to 1 MiB** the lines are handled, however the stream is split. -/
theorem run_small (cs : List (List UInt8)) {s : State D} (hd : s.disconnecting = false)
    (hn : newline ∉ s.buffer) (hl : (s.buffer ++ cs.flatten).length ≤ kMaxSocketBuffer) :
    run fromJson dispatch s cs =
      { (lines newline (s.buffer ++ cs.flatten)).foldl (handleLine fromJson dispatch) s with
        buffer := rest newline (s.buffer ++ cs.flatten) } := by
  induction cs generalizing s with
  | nil =>
    rw [List.flatten_nil, List.append_nil, lines_of_not_mem hn, rest_of_not_mem hn]
    rfl
  | cons c cs ih =>
    rw [List.flatten_cons, ← List.append_assoc] at hl ⊢
    have hc : (s.buffer ++ c).length ≤ kMaxSocketBuffer := by
      rw [List.length_append] at hl
      omega
    obtain ⟨-, hd', -, -⟩ :=
      foldl_handleLine fromJson dispatch (lines newline (s.buffer ++ c)) s
    have hr := length_rest_le newline (s.buffer ++ c)
    rw [run_cons, readClient_fits hd hc, ih (by rw [← hd]; exact hd') (not_mem_rest _) (by
      simp only [List.length_append] at hl hr ⊢
      omega)]
    simp only [foldl_with_buffer]
    rw [lines_append (s.buffer ++ c), rest_append (s.buffer ++ c), List.foldl_append]

variable (fromJson dispatch) in
/-- **Beyond it, with no newline in the first mebibyte**, the connection is
dropped before a line is handled. -/
theorem run_large (cs : List (List UInt8)) {s : State D} (hd : s.disconnecting = false)
    (hb : s.buffer.length ≤ kMaxSocketBuffer) (hl : kMaxSocketBuffer < (s.buffer ++ cs.flatten).length)
    (hn : newline ∉ (s.buffer ++ cs.flatten).take kMaxSocketBuffer) :
    (run fromJson dispatch s cs).disconnecting = true ∧
    (run fromJson dispatch s cs).dispatched = s.dispatched ∧
    (run fromJson dispatch s cs).sent = s.sent ++ [frameTooLarge] := by
  induction cs generalizing s with
  | nil =>
    rw [List.flatten_nil, List.append_nil] at hl
    omega
  | cons c cs ih =>
    rw [List.flatten_cons, ← List.append_assoc] at hl hn
    rcases Nat.lt_or_ge kMaxSocketBuffer (s.buffer ++ c).length with hc | hc
    · rw [run_cons, readClient_overflows hd hc, run_disconnecting rfl]
      exact ⟨rfl, rfl, rfl⟩
    · have hnc : newline ∉ s.buffer ++ c := by
        intro hm
        rw [List.take_append, List.take_of_length_le hc] at hn
        exact hn (List.mem_append_left _ hm)
      have hr : readClient fromJson dispatch s c = { s with buffer := s.buffer ++ c } := by
        rw [readClient_fits hd hc, lines_of_not_mem hnc, rest_of_not_mem hnc]
        rfl
      rw [run_cons, hr]
      exact ih hd hc hl hn

theorem with_own_buffer {s : State D} {b : List UInt8} (h : s.buffer = b) : { s with buffer := b } = s := by
  subst h
  rfl

/-- One frame a read: every frame that fits with its newline is handled. -/
theorem run_framewise {frames : List (List UInt8)}
    (h : ∀ f ∈ frames, newline ∉ f ∧ f.length < kMaxSocketBuffer) {s : State D} (hd : s.disconnecting = false)
    (hb : s.buffer = []) :
    run fromJson dispatch s (frames.map (· ++ [newline])) = frames.foldl (handleLine fromJson dispatch) s := by
  induction frames generalizing s with
  | nil => rfl
  | cons f fs ih =>
    obtain ⟨hn, hl⟩ := h f List.mem_cons_self
    obtain ⟨hb', hd', -⟩ := handleLine_cases fromJson dispatch s f
    have hfit : (s.buffer ++ (f ++ [newline])).length ≤ kMaxSocketBuffer := by
      rw [hb, List.nil_append, List.length_append, List.length_singleton]
      omega
    have hr : readClient fromJson dispatch s (f ++ [newline]) = handleLine fromJson dispatch s f := by
      rw [readClient_fits hd hfit, hb, List.nil_append, lines_cons_line hn, rest_cons_line, lines_nil, rest_nil,
        List.foldl_cons, List.foldl_nil]
      exact with_own_buffer (hb'.trans hb)
    rw [List.map_cons, run_cons, hr, List.foldl_cons]
    exact ih (fun g hg => h g (List.mem_cons_of_mem f hg)) (hd'.trans hd) (hb'.trans hb)

/-! ## Chunking -/

variable (fromJson dispatch)

/-- Some frame of the stream (up to its newline, or the unterminated tail) is
larger than 1 MiB. -/
def Oversized (stream : List UInt8) : Prop :=
  ∃ frame ∈ lines newline stream ++ [rest newline stream], kMaxSocketBuffer < frame.length

/-- Every split of the stream dispatches the same requests and sends the same
responses. -/
def SameForEverySplit (daemon : Daemon D) (stream : List UInt8) : Prop :=
  ∀ cs cs', cs.flatten = stream → cs'.flatten = stream →
    (run fromJson dispatch (acceptClient daemon) cs).dispatched =
      (run fromJson dispatch (acceptClient daemon) cs').dispatched ∧
    (run fromJson dispatch (acceptClient daemon) cs).sent = (run fromJson dispatch (acceptClient daemon) cs').sent

/-- However it is split, the stream is rejected exactly when a frame is too
large. -/
def RejectedIfOversized (daemon : Daemon D) (stream : List UInt8) : Prop :=
  ∀ cs, cs.flatten = stream →
    ((run fromJson dispatch (acceptClient daemon) cs).disconnecting = true ↔ Oversized stream)

variable {fromJson dispatch}

theorem not_oversized {stream : List UInt8} (h : stream.length ≤ kMaxSocketBuffer) : ¬ Oversized stream := by
  rintro ⟨frame, hf, hl⟩
  have hr := length_rest_le newline stream
  rcases List.mem_append.1 hf with hf | hf
  · have := length_lines_le hf
    omega
  · rw [List.mem_singleton.1 hf] at hl
    omega

theorem invalidRequest_ne : invalidRequest ≠ frameTooLarge := by
  intro h
  have hmessage := congrArg (fun o => toStringD (value (toObject (value o "error")) "message") "") h
  exact absurd hmessage (by decide +kernel)

variable (fromJson dispatch) in
/-- In one chunk, a stream beyond 1 MiB is rejected at once. -/
theorem run_whole (daemon : Daemon D) {stream : List UInt8} (hl : kMaxSocketBuffer < stream.length) :
    (run fromJson dispatch (acceptClient daemon) [stream]).disconnecting = true ∧
    (run fromJson dispatch (acceptClient daemon) [stream]).dispatched = [] ∧
    (run fromJson dispatch (acceptClient daemon) [stream]).sent = [frameTooLarge] := by
  have hr : readClient fromJson dispatch (acceptClient daemon) stream = _ := readClient_overflows rfl hl
  rw [run_cons, run_nil, hr]
  exact ⟨rfl, rfl, rfl⟩

/-- A first chunk that fits and holds a newline is answered with something
other than the rejection. -/
theorem first_line_answered (daemon : Daemon D) {chunk : List UInt8} (hl : chunk.length ≤ kMaxSocketBuffer)
    (hm : newline ∈ chunk) (cs : List (List UInt8)) :
    ¬ ((run fromJson dispatch (acceptClient daemon) (chunk :: cs)).dispatched = [] ∧
      (run fromJson dispatch (acceptClient daemon) (chunk :: cs)).sent = [frameTooLarge]) := by
  rintro ⟨hdisp, hsent⟩
  obtain ⟨line, rest', rfl, hline⟩ := List.eq_append_cons_of_mem hm
  have hr : readClient fromJson dispatch (acceptClient daemon) (line ++ newline :: rest') = _ :=
    readClient_fits rfl hl
  obtain ⟨⟨d2, hd2⟩, ⟨s2, hs2⟩⟩ := run_grows fromJson dispatch cs
    (readClient fromJson dispatch (acceptClient daemon) (line ++ newline :: rest'))
  rw [run_cons, hd2, hr] at hdisp
  rw [run_cons, hs2, hr] at hsent
  simp only [acceptClient, List.nil_append, lines_cons_line hline, List.foldl_cons] at hdisp hsent
  obtain ⟨-, -, ⟨d1, hd1⟩, ⟨s1, hs1⟩⟩ := foldl_handleLine fromJson dispatch
    (lines newline rest') (handleLine fromJson dispatch ⟨daemon, [], false, [], []⟩ line)
  rw [hd1] at hdisp
  rw [hs1] at hsent
  obtain ⟨-, -, hcases⟩ :=
    handleLine_cases fromJson dispatch ⟨daemon, [], false, [], []⟩ line
  rcases hcases with ⟨-, h⟩ | ⟨request, response, h, -⟩
  · rw [h] at hsent
    exact invalidRequest_ne (List.cons.inj hsent).1
  · rw [h] at hdisp
    cases hdisp

/-- **When the framing does not depend on the chunks, exactly.** The stream
has at most 1 MiB, or its first mebibyte holds no newline and some frame is
too large. -/
theorem chunking_iff (daemon : Daemon D) (stream : List UInt8) :
    SameForEverySplit fromJson dispatch daemon stream ∧ RejectedIfOversized fromJson dispatch daemon stream ↔
      stream.length ≤ kMaxSocketBuffer ∨ newline ∉ stream.take kMaxSocketBuffer ∧ Oversized stream := by
  constructor
  · rintro ⟨hsame, hrej⟩
    rcases Nat.lt_or_ge kMaxSocketBuffer stream.length with hl | hl
    · right
      obtain ⟨hd, hdisp, hsent⟩ := run_whole fromJson dispatch daemon hl
      refine ⟨?_, (hrej [stream] List.flatten_singleton).1 hd⟩
      intro hm
      obtain ⟨hd', hs'⟩ := hsame [stream.take kMaxSocketBuffer, stream.drop kMaxSocketBuffer] [stream]
        (by simp) List.flatten_singleton
      rw [hdisp] at hd'
      rw [hsent] at hs'
      exact first_line_answered daemon (List.length_take_le _ _) hm _ ⟨hd', hs'⟩
    · exact .inl hl
  · rintro (hl | ⟨hn, ho⟩)
    · have hrun : ∀ cs, cs.flatten = stream → run fromJson dispatch (acceptClient daemon) cs =
          { (lines newline stream).foldl (handleLine fromJson dispatch) (acceptClient daemon) with
            buffer := rest newline stream } := by
        rintro cs rfl
        exact run_small cs rfl List.not_mem_nil hl
      refine ⟨?_, ?_⟩
      · intro cs cs' h h'
        rw [hrun cs h, hrun cs' h']
        exact ⟨rfl, rfl⟩
      · intro cs h
        obtain ⟨-, hd, -, -⟩ := foldl_handleLine fromJson dispatch
          (lines newline stream) (acceptClient daemon)
        rw [hrun cs h]
        refine iff_of_false ?_ (not_oversized hl)
        rw [hd]
        exact Bool.false_ne_true
    · have hlong : kMaxSocketBuffer < stream.length := by
        by_contra hle
        exact not_oversized (Nat.le_of_not_lt hle) ho
      have hrun := fun (cs : List (List UInt8)) (h : cs.flatten = stream) =>
        run_large fromJson dispatch cs (s := acceptClient daemon) rfl
          (Nat.zero_le _) (by rw [h]; exact hlong) (by rw [h]; exact hn)
      refine ⟨?_, ?_⟩
      · intro cs cs' h h'
        obtain ⟨-, hdisp, hsent⟩ := hrun cs h
        obtain ⟨-, hdisp', hsent'⟩ := hrun cs' h'
        rw [hdisp, hdisp', hsent, hsent']
        exact ⟨rfl, rfl⟩
      · intro cs h
        exact iff_of_true (hrun cs h).1 ho

end

/-! ## A batch of pings -/

def ping : List UInt8 := "\x7b\"id\":\"1\",\"method\":\"ping\"\x7d".toList.map fun c => c.toNat.toUInt8

/-- Pipelined requests, each of them 27 bytes long with its newline. -/
def pings (n : Nat) : List UInt8 := join newline (List.replicate n ping)

theorem length_pings (n : Nat) : (pings n).length = 27 * n := by
  induction n with
  | zero => rfl
  | succ n ih =>
    have hp : ping.length = 26 := by decide +kernel
    rw [pings, List.replicate_succ, join_cons, List.length_append, List.length_cons, hp]
    rw [pings] at ih
    rw [ih]
    omega

def parsePing (line : List UInt8) : Option QJsonObject :=
  if line = ping then some (ofList [("id", .string "1"), ("method", .string "ping")]) else none

def pong (daemon : Daemon Unit) (request : QJsonObject) : Unit × QJsonObject :=
  ((), ofList [("id", value request "id"), ("ok", .bool true),
    ("result", .object (ofList [("name", .string "ecatd"), ("requestCount", .int daemon.requestCount.toNat)]))])

/-- **40000 pings read at once are rejected**, though no frame is longer than
26 bytes; read one by one they are not. -/
theorem pipelined_rejected :
    (run parsePing pong (acceptClient ⟨0, 0, ()⟩) [pings 40000]).sent = [frameTooLarge] ∧
    (run parsePing pong (acceptClient ⟨0, 0, ()⟩) ((List.replicate 40000 ping).map (· ++ [newline]))).disconnecting =
      false ∧
    ¬ Oversized (pings 40000) := by
  have hn : newline ∉ ping := by decide +kernel
  refine ⟨?_, ?_, ?_⟩
  · have hl : kMaxSocketBuffer < (pings 40000).length := by
      rw [length_pings]
      decide
    exact (run_whole parsePing pong _ hl).2.2
  · rw [run_framewise _ rfl rfl]
    · exact (foldl_handleLine parsePing pong _ _).2.1
    · intro f hf
      rw [List.eq_of_mem_replicate hf]
      exact ⟨hn, by decide +kernel⟩
  · have hframes : ∀ f ∈ List.replicate 40000 ping, newline ∉ f := by
      intro f hf
      rw [List.eq_of_mem_replicate hf]
      exact hn
    rintro ⟨frame, hf, hl⟩
    rw [pings, lines_frames hframes] at hf
    rcases List.mem_append.1 hf with hf | hf
    · rw [List.eq_of_mem_replicate hf] at hl
      exact absurd hl (by decide +kernel)
    · rw [List.mem_singleton.1 hf, rest_join] at hl
      exact absurd hl (by decide)

end NekoEcat.L2.ReadClient
