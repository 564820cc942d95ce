import NekoEcat.Core.Lines
import NekoEcat.Core.Trace

/-!
# Response framing across a reconnect

`readSocket` appends what the socket has to `buffer_` and hands the complete
lines to `handleLine`. The buffer belongs to the client, not to the
connection: neither the `connected` nor the `disconnected` slot clears it.
A step is one socket event or one pass of the loop, so whatever `handleLine`
does (a nested event loop included) may stand between two passes.

* `framed_step`: the lines handed over and the buffer are the stream received,
  over all connections.
* `isolated_iff`: the frames of a new connection arrive unaltered exactly when
  the bytes before it ended with a complete frame.
* `frame_spliced`: a partial frame of the old connection is put in front of
  the first frame of the new one.
-/
namespace NekoEcat.L4.Framing
open NekoEcat.Trace NekoEcat.Lines

abbrev newline : UInt8 := 10

def ascii (s : String) : List UInt8 := s.toList.map fun c => c.toNat.toUInt8

structure State where
  connected : Bool
  /-- `buffer_` -/
  buffer : List UInt8
  /-- Calls of `readSocket` that have not returned. -/
  reading : Nat
  /-- Ghost: the bytes received so far, on all connections. -/
  stream : List UInt8
  /-- Ghost: the lines handed to `handleLine`. -/
  handled : List (List UInt8)

def initial : State := ⟨false, [], 0, [], []⟩

inductive Lbl where
  | connected
  | disconnected
  /-- `readyRead`, with what `readAll` returns. -/
  | readyRead (chunk : List UInt8)
  /-- A pass of the loop of the innermost `readSocket`. -/
  | pass

/-- mirrors apps/ecat-studio/infra/EcatClient.cpp:387-395 (`readSocket`), its
first line -/
def readSocket (s : State) (chunk : List UInt8) : State :=
  { s with buffer := s.buffer ++ chunk, reading := s.reading + 1, stream := s.stream ++ chunk }

/-- mirrors apps/ecat-studio/infra/EcatClient.cpp:387-395 (`readSocket`), its
loop -/
def pass (s : State) : State :=
  match s.buffer.idxOf? newline with
  | none => { s with reading := s.reading - 1 }
  | some i => { s with buffer := s.buffer.drop (i + 1), handled := s.handled ++ [s.buffer.take i] }

/-- mirrors apps/ecat-studio/infra/EcatClient.cpp:16-53 (the `connected` and
`disconnected` slots): what they do with the buffer is nothing -/
def step (s : State) : Lbl → State
  | .connected => { s with connected := true }
  | .disconnected => { s with connected := false }
  | .readyRead chunk => if s.connected then readSocket s chunk else s
  | .pass => if 0 < s.reading then pass s else s

/-- What was handed over and what is buffered is what was received; between
two reads no complete line is left. -/
structure Framed (s : State) : Prop where
  lines : s.handled ++ lines newline s.buffer = Lines.lines newline s.stream
  rest : rest newline s.buffer = Lines.rest newline s.stream
  idle : s.reading = 0 → newline ∉ s.buffer

theorem framed_readSocket {s : State} (h : Framed s) (chunk : List UInt8) : Framed (readSocket s chunk) := by
  refine ⟨?_, ?_, ?_⟩
  · show s.handled ++ lines newline (s.buffer ++ chunk) = lines newline (s.stream ++ chunk)
    rw [lines_append, lines_append s.stream, ← h.lines, h.rest, List.append_assoc]
  · show rest newline (s.buffer ++ chunk) = rest newline (s.stream ++ chunk)
    rw [rest_append, rest_append s.stream, h.rest]
  · intro h0
    exact absurd h0 (Nat.succ_ne_zero _)

theorem framed_pass {s : State} (h : Framed s) (hr : 0 < s.reading) : Framed (pass s) := by
  unfold pass
  split
  · rename_i hn
    exact ⟨h.lines, h.rest, fun _ => List.idxOf?_eq_none_iff.1 hn⟩
  · rename_i i hi
    obtain ⟨hs, hl⟩ := cut_first hi
    refine ⟨?_, ?_, ?_⟩
    · show (s.handled ++ [s.buffer.take i]) ++ lines newline (s.buffer.drop (i + 1)) = lines newline s.stream
      rw [List.append_assoc, List.singleton_append, ← lines_cons_line hl, ← hs, h.lines]
    · show rest newline (s.buffer.drop (i + 1)) = rest newline s.stream
      rw [← h.rest, ← rest_cons_line (s.buffer.take i), ← hs]
    · intro (h0 : s.reading = 0)
      omega

/-- **What a step keeps**: no byte is lost, on whichever connection it came. -/
theorem framed_step {s : State} (h : Framed s) (l : Lbl) : Framed (step s l) := by
  cases l with
  | connected => exact ⟨h.lines, h.rest, h.idle⟩
  | disconnected => exact ⟨h.lines, h.rest, h.idle⟩
  | readyRead chunk =>
    simp only [step]
    split
    · exact framed_readSocket h chunk
    · exact h
  | pass =>
    simp only [step]
    split
    · rename_i hr
      exact framed_pass h hr
    · exact h

theorem run_framed (σ : Nat → Lbl) (t : Nat) : Framed (trace step initial σ t) :=
  trace_inv step initial σ (I := Framed) ⟨rfl, rfl, fun _ => List.not_mem_nil⟩ (fun _ l h => framed_step h l) t

/-- Between two reads everything complete has been handed over. -/
theorem run_idle (σ : Nat → Lbl) {t : Nat} (hi : (trace step initial σ t).reading = 0) :
    (trace step initial σ t).handled = lines newline (trace step initial σ t).stream := by
  have h := run_framed σ t
  rw [← h.lines, lines_of_not_mem (h.idle hi), List.append_nil]

/-- The frames of the old connection and then these were handed over, each
once and unaltered. -/
def Isolated (old s : State) (frames : List (List UInt8)) : Prop :=
  s.handled = lines newline old.stream ++ frames

/-- The bytes after position `k`, put behind the partial frame left there. -/
theorem handled_since (σ : Nat → Lbl) {k t : Nat} {frames : List (List UInt8)}
    (hs : (trace step initial σ t).stream = (trace step initial σ k).stream ++ join newline frames)
    (hi : (trace step initial σ t).reading = 0) :
    (trace step initial σ t).handled = lines newline (trace step initial σ k).stream ++
      lines newline (rest newline (trace step initial σ k).buffer ++ join newline frames) := by
  rw [run_idle σ hi, hs, lines_append, (run_framed σ k).rest]

/-- **The partial frame of the old connection is part of the first frame of
the new one.** -/
theorem frame_spliced (σ : Nat → Lbl) {k t : Nat} {frame : List UInt8} {frames : List (List UInt8)}
    (hf : ∀ f ∈ frame :: frames, newline ∉ f)
    (hs : (trace step initial σ t).stream = (trace step initial σ k).stream ++ join newline (frame :: frames))
    (hi : (trace step initial σ t).reading = 0) :
    Isolated (trace step initial σ k) (trace step initial σ t)
      ((rest newline (trace step initial σ k).buffer ++ frame) :: frames) := by
  unfold Isolated
  rw [handled_since σ hs hi, lines_tail_frames (not_mem_rest _) hf]

/-- **When a reconnect isolates the framing, exactly.** The client reconnects
at `k`, and what it has received by `t` beyond that are complete frames: they
were handed over unaltered iff there were none, or the bytes of the old
connections ended with a complete frame. -/
theorem isolated_iff (σ : Nat → Lbl) {k t : Nat} (hk : σ k = .connected) {frames : List (List UInt8)}
    (hf : ∀ f ∈ frames, newline ∉ f)
    (hs : (trace step initial σ t).stream = (trace step initial σ (k + 1)).stream ++ join newline frames)
    (hi : (trace step initial σ t).reading = 0) :
    Isolated (trace step initial σ k) (trace step initial σ t) frames ↔
      frames = [] ∨ rest newline (trace step initial σ k).buffer = [] := by
  have hk' : (trace step initial σ (k + 1)).stream = (trace step initial σ k).stream := by
    rw [trace_succ, hk, step]
  rw [hk'] at hs
  cases frames with
  | nil =>
    refine iff_of_true ?_ (.inl rfl)
    unfold Isolated
    rw [handled_since σ hs hi, join_nil, List.append_nil, lines_of_not_mem (not_mem_rest _)]
  | cons frame frames =>
    have hsp : (trace step initial σ t).handled = _ := frame_spliced σ hf hs hi
    unfold Isolated
    rw [hsp, List.append_cancel_left_eq]
    simp

/-- A complete line, read out only after the reconnect, and a response on the
new connection. -/
def cleanReconnect : List Lbl :=
  [.connected, .readyRead (ascii "[\n"), .pass, .disconnected,
   .connected, .pass, .readyRead (ascii "\x7b\x7d\n"), .pass, .pass]

theorem isolated_iff_boundary :
    Isolated (trace step initial (sched cleanReconnect .pass) 4) (trace step initial (sched cleanReconnect .pass) 9)
        [ascii "\x7b\x7d"] ↔
      [ascii "\x7b\x7d"] = [] ∨ rest newline (trace step initial (sched cleanReconnect .pass) 4).buffer = [] :=
  isolated_iff (sched cleanReconnect .pass) (by rfl) (by decide +kernel) (by decide +kernel) (by decide +kernel)

/-- The connection drops in the middle of a response; the next connection
receives a complete one. -/
def droppedMidFrame : List Lbl :=
  [.connected, .readyRead (ascii "\x7b\"id\":\"1\""), .pass, .disconnected,
   .connected, .readyRead (ascii "\x7b\"id\":\"2\"\x7d\n"), .pass, .pass]

/-- **The old bytes become part of the new frame.** -/
theorem frame_of_two_connections :
    (trace step initial (sched droppedMidFrame .pass) 8).handled = [ascii "\x7b\"id\":\"1\"\x7b\"id\":\"2\"\x7d"] ∧
    ¬ Isolated (trace step initial (sched droppedMidFrame .pass) 4)
        (trace step initial (sched droppedMidFrame .pass) 8) [ascii "\x7b\"id\":\"2\"\x7d"] := by
  have hh : (trace step initial (sched droppedMidFrame .pass) 8).handled =
      [ascii "\x7b\"id\":\"1\"\x7b\"id\":\"2\"\x7d"] := by decide +kernel
  refine ⟨hh, ?_⟩
  unfold Isolated
  rw [hh]
  decide +kernel

end NekoEcat.L4.Framing
