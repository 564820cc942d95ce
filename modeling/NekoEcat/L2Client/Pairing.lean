import NekoEcat.Core.CScan
import NekoEcat.Core.JsonText
import NekoEcat.Core.Lines
import NekoEcat.Core.Trace

/-!
# One request line, one response line

`rpc_call` with its three buffers, over the connection to a daemon that answers
every line with one line. The client matches answers to requests by order only.

* `recvLine_line`: which line `recv_line` gets off the stream.
* `request_fits`: a request that is not cut off parses to what was asked for.
* `parse_sent`: what is cut off parses to nothing.
* `paired_iff`, `session_iff`: exactly when every call is paired with its answer.
-/
namespace NekoEcat.L2.Pairing
open NekoEcat.Bytes NekoEcat.JsonText NekoEcat.Lines NekoEcat.Trace

abbrev newline : UInt8 := 10

/-- `snprintf(buf, size, ..)`: what the buffer holds. -/
def snprintf (size : Nat) (text : Bytes) : Bytes := text.take (size - 1)

/-- A text that is one JSON value, and that value. -/
structure Mapping where
  text : Bytes
  value : Json
  parses : parse text = some value

/-- The text of a null pointer. -/
def Mapping.null : Mapping := ⟨ascii "null", .null, rfl⟩

inductive Rpc where
  /-- `none`: `mapping_json` is null -/
  | freeRunStart (mapping : Option Mapping)
  | freeRunStop
  | freeRunShmInfo

def Rpc.method : Rpc → String
  | .freeRunStart _ => "freeRunStart"
  | .freeRunStop => "freeRunStop"
  | .freeRunShmInfo => "freeRunShmInfo"

/-- mirrors client/nekoecat_client.c:216-217, 227, 269 -/
def Rpc.params : Rpc → Bytes
  | .freeRunStart mapping =>
    snprintf 256 (ascii "\x7b\"mapping\":" ++ (mapping.getD .null).text ++ ascii "\x7d")
  | _ => ascii "\x7b\x7d"

/-- mirrors client/nekoecat_client.c:194-195 -/
def request (rpc : Rpc) : Bytes :=
  snprintf 512 (ascii "\x7b\"id\":\"1\",\"method\":\"" ++ ascii rpc.method ++ ascii "\",\"params\":" ++ rpc.params ++
    ascii "\x7d")

/-- The parameters the caller gives. -/
def Rpc.given : Rpc → Json
  | .freeRunStart mapping => .object [(ascii "mapping", (mapping.getD .null).value)]
  | _ => .object []

/-- What the request is meant to parse to. -/
def Rpc.meaning (rpc : Rpc) : Json :=
  .object [(ascii "id", .string (ascii "1")), (ascii "method", .string (ascii rpc.method)), (ascii "params", rpc.given)]

/-- What one call meets on the socket. `accepted` is what `send` returns (`none`:
-1), a number beyond the text counting as all of it; `fails` is the number of
bytes after which `recv` or `realloc` fails. -/
structure Io where
  accepted : Option Nat
  fails : Option Nat

/-- What is sent, and whether the call succeeds.
mirrors client/nekoecat_client.c:82-87 -/
def sendLine (json : Bytes) (accepted : Option Nat) : Bytes × Bool :=
  let text := json ++ [newline]
  if text.length ≥ 1024 then ([], false)
  else
    match accepted with
    | none => ([], false)
    | some n => (text.take n, (text.take n).length = text.length)

def kMaxRpcResponse : Nat := 2 ^ 20

/-- The loop of `recv_line` with a buffer of `cap` bytes and `pos` of them
filled: the line, and what is left in the stream.
mirrors client/nekoecat_client.c:95-129 -/
def recvLoop (fails : Option Nat) (cap pos : Nat) : Bytes → Option Bytes × Bytes
  | [] => (none, [])
  | ch :: stream =>
    if pos + 1 ≥ cap ∧ cap ≥ kMaxRpcResponse then (none, ch :: stream)
    else
      let cap := if pos + 1 ≥ cap then (if cap < kMaxRpcResponse then cap * 2 else kMaxRpcResponse) else cap
      if fails = some pos then (none, ch :: stream)
      else if ch = newline then (some [], stream)
      else
        let r := recvLoop fails cap (pos + 1) stream
        (r.1.map (ch :: ·), r.2)

def recvLine (fails : Option Nat) (stream : Bytes) : Option Bytes × Bytes := recvLoop fails 512 0 stream

/-- A daemon that answers every line with one line. -/
structure Daemon (D : Type) where
  answer : D → Bytes → D × Bytes
  oneLine : ∀ d line, newline ∉ (answer d line).2

/-- A connection: the daemon, the part of a line it has, and what the client
has not read. -/
structure Conn (D : Type) where
  daemon : D
  pending : Bytes
  stream : Bytes

/-- `strstr(resp, "\"ok\":true") != NULL` -/
def isOk (resp : Bytes) : Bool :=
  (CScan.strstr "\"ok\":true".toList (resp.map fun b => Char.ofNat b.toNat)).isSome

structure Outcome where
  sent : Bytes
  received : Option Bytes
  returned : Option Bytes

section
variable {D : Type} (dm : Daemon D)

/-- One line reaches the daemon. -/
def answerLine (c : Conn D) (line : Bytes) : Conn D :=
  { c with daemon := (dm.answer c.daemon line).1, stream := c.stream ++ ((dm.answer c.daemon line).2 ++ [newline]) }

/-- The daemon receives and answers what is sent. -/
def deliver (c : Conn D) (sent : Bytes) : Conn D :=
  let (c', left) := loop newline (answerLine dm) c (c.pending ++ sent)
  { c' with pending := left }

/-- mirrors client/nekoecat_client.c:192-211 -/
def rpcCall (c : Conn D) (rpc : Rpc) (io : Io) : Conn D × Outcome :=
  let (sent, ok) := sendLine (request rpc) io.accepted
  let c := deliver dm c sent
  if !ok then (c, ⟨sent, none, none⟩)
  else
    let (received, stream) := recvLine io.fails c.stream
    ({ c with stream := stream }, ⟨sent, received, received.filter isOk⟩)

end

/-! ## Receiving -/

/-- The buffer before a byte is read: it is at its limit and full, or has room
after at most one doubling. -/
theorem cap_step {j pos : Nat} (hj : j ≤ 11) (hpos : pos + 1 ≤ 2 ^ (9 + j)) :
    (pos + 1 ≥ 2 ^ (9 + j) ∧ 2 ^ (9 + j) ≥ kMaxRpcResponse ∧ kMaxRpcResponse < pos + 2) ∨
    (¬ (pos + 1 ≥ 2 ^ (9 + j) ∧ 2 ^ (9 + j) ≥ kMaxRpcResponse) ∧ pos + 2 ≤ kMaxRpcResponse ∧ ∃ j' ≤ 11,
      pos + 2 ≤ 2 ^ (9 + j') ∧
      (if pos + 1 ≥ 2 ^ (9 + j) then (if 2 ^ (9 + j) < kMaxRpcResponse then 2 ^ (9 + j) * 2 else kMaxRpcResponse)
        else 2 ^ (9 + j)) = 2 ^ (9 + j')) := by
  rcases Nat.eq_or_lt_of_le hj with rfl | hlt
  · by_cases hfull : pos + 1 ≥ 2 ^ (9 + 11)
    · left
      unfold kMaxRpcResponse
      omega
    · right
      unfold kMaxRpcResponse
      refine ⟨by omega, by omega, 11, Nat.le_refl 11, by omega, by rw [if_neg hfull]⟩
  · right
    have hdouble : 2 ^ (9 + (j + 1)) = 2 ^ (9 + j) * 2 := Nat.pow_succ ..
    have hle : 2 ^ (9 + j) ≤ 2 ^ 19 := Nat.pow_le_pow_right (by omega) (by omega)
    have hcap : 2 ^ (9 + j) < kMaxRpcResponse := Nat.lt_of_le_of_lt hle (by decide)
    have hk : kMaxRpcResponse = 2 ^ 19 * 2 := by decide
    refine ⟨by omega, by omega, ?_⟩
    by_cases hfull : pos + 1 ≥ 2 ^ (9 + j)
    · exact ⟨j + 1, hlt, by omega, by rw [if_pos hfull, if_pos hcap, hdouble]⟩
    · exact ⟨j, by omega, by omega, if_neg hfull⟩

/-- A line comes off the stream if it fits with its terminator and no call
fails on the way; otherwise some of it stays. -/
theorem recvLoop_line {fails : Option Nat} {line rest : Bytes} (hl : newline ∉ line) :
    ∀ {pos j : Nat}, j ≤ 11 → pos + 1 ≤ 2 ^ (9 + j) →
      if pos + line.length + 2 ≤ kMaxRpcResponse ∧ ∀ k, fails = some k → k < pos ∨ pos + line.length < k then
        recvLoop fails (2 ^ (9 + j)) pos (line ++ newline :: rest) = (some line, rest)
      else
        (recvLoop fails (2 ^ (9 + j)) pos (line ++ newline :: rest)).1 = none ∧
        (recvLoop fails (2 ^ (9 + j)) pos (line ++ newline :: rest)).2 ≠ [] := by
  induction line with
  | nil =>
    intro pos j hj hpos
    rw [List.nil_append, recvLoop, List.length_nil]
    rcases cap_step hj hpos with ⟨h1, h2, h3⟩ | ⟨h1, h2, j', -, -, -⟩
    · rw [if_neg (by omega), if_pos ⟨h1, h2⟩]
      exact ⟨rfl, List.cons_ne_nil _ _⟩
    · rw [if_neg h1]
      dsimp only
      by_cases hf : fails = some pos
      · rw [if_neg fun h => by have := h.2 pos hf; omega, if_pos hf]
        exact ⟨rfl, List.cons_ne_nil _ _⟩
      · have hok : pos + 0 + 2 ≤ kMaxRpcResponse ∧ ∀ k, fails = some k → k < pos ∨ pos + 0 < k := by
          refine ⟨by omega, fun k hk => ?_⟩
          have hne : k ≠ pos := fun he => hf (he ▸ hk)
          omega
        rw [if_neg hf, if_pos rfl, if_pos hok]
  | cons b line ih =>
    intro pos j hj hpos
    have hb : b ≠ newline := fun he => hl (he ▸ List.mem_cons_self)
    rw [List.cons_append, recvLoop, List.length_cons]
    rcases cap_step hj hpos with ⟨h1, h2, h3⟩ | ⟨h1, h2, j', hj', hpos', hcap⟩
    · rw [if_neg (by omega), if_pos ⟨h1, h2⟩]
      exact ⟨rfl, List.cons_ne_nil _ _⟩
    · rw [if_neg h1]
      dsimp only
      by_cases hf : fails = some pos
      · rw [if_neg fun h => by have := h.2 pos hf; omega, if_pos hf]
        exact ⟨rfl, List.cons_ne_nil _ _⟩
      · rw [if_neg hf, if_neg hb, hcap]
        have hrest := ih (fun hm => hl (List.mem_cons_of_mem b hm)) hj' hpos'
        have hiff : (pos + 1 + line.length + 2 ≤ kMaxRpcResponse ∧
              ∀ k, fails = some k → k < pos + 1 ∨ pos + 1 + line.length < k) ↔
            (pos + (line.length + 1) + 2 ≤ kMaxRpcResponse ∧
              ∀ k, fails = some k → k < pos ∨ pos + (line.length + 1) < k) := by
          refine and_congr (by omega) (forall_congr' fun k => ?_)
          refine imp_congr_right fun hk => ?_
          have hne : k ≠ pos := fun he => hf (he ▸ hk)
          omega
        by_cases hok : pos + (line.length + 1) + 2 ≤ kMaxRpcResponse ∧
            ∀ k, fails = some k → k < pos ∨ pos + (line.length + 1) < k
        · rw [if_pos (hiff.2 hok)] at hrest
          rw [if_pos hok, hrest]
          rfl
        · rw [if_neg (mt hiff.1 hok)] at hrest
          rw [if_neg hok, hrest.1]
          exact ⟨rfl, hrest.2⟩

/-- **Which line `recv_line` gets.** -/
theorem recvLine_line {fails : Option Nat} {line rest : Bytes} (hl : newline ∉ line) :
    if line.length + 2 ≤ kMaxRpcResponse ∧ ∀ k, fails = some k → line.length < k then
      recvLine fails (line ++ newline :: rest) = (some line, rest)
    else
      (recvLine fails (line ++ newline :: rest)).1 = none ∧ (recvLine fails (line ++ newline :: rest)).2 ≠ [] := by
  simpa [recvLine] using @recvLoop_line fails _ rest hl 0 0 (by decide) (by decide)

/-! ## The request -/

/-- The text is not cut off and is one line. -/
def Rpc.fits : Rpc → Prop
  | .freeRunStart mapping => (mapping.getD .null).text.length ≤ 243 ∧ newline ∉ (mapping.getD .null).text
  | _ => True

/-- The mapping is too long for its buffer. -/
def Rpc.long : Rpc → Prop
  | .freeRunStart mapping => 243 < (mapping.getD .null).text.length
  | _ => False

instance (rpc : Rpc) : Decidable rpc.long := by
  cases rpc <;> unfold Rpc.long <;> exact inferInstance

/-- A start request up to its mapping, the first brace left out. -/
def startHead : Bytes := ascii "\"id\":\"1\",\"method\":\"freeRunStart\",\"params\":\x7b\"mapping\":"

/-- A request, the first brace and the one that closes it left out. -/
def Rpc.inner : Rpc → Bytes
  | .freeRunStart mapping => startHead ++ ((mapping.getD .null).text.take 244 ++ [closeBrace])
  | .freeRunStop => ascii "\"id\":\"1\",\"method\":\"freeRunStop\",\"params\":\x7b\x7d"
  | .freeRunShmInfo => ascii "\"id\":\"1\",\"method\":\"freeRunShmInfo\",\"params\":\x7b\x7d"

theorem startParams_eq (text : Bytes) :
    snprintf 256 (ascii "\x7b\"mapping\":" ++ text ++ ascii "\x7d") =
      ascii "\x7b\"mapping\":" ++ (text.take 244 ++ if 243 < text.length then [] else [closeBrace]) := by
  have hlen : (ascii "\x7b\"mapping\":").length = 11 := by simp [ascii]
  have hclose : ascii "\x7d" = [closeBrace] := by simp [ascii]
  unfold snprintf
  rw [List.append_assoc, List.take_append, hlen, hclose, List.take_of_length_le (by omega), List.take_append]
  congr 2
  split
  · rw [show 256 - 1 - 11 - text.length = 0 by omega, List.take_zero]
  · rw [List.take_of_length_le (by simp only [List.length_singleton]; omega)]

/-- The buffer of the request cuts nothing off. -/
theorem request_whole (rpc : Rpc) :
    request rpc = ascii "\x7b\"id\":\"1\",\"method\":\"" ++ ascii rpc.method ++ ascii "\",\"params\":" ++ rpc.params ++
      [closeBrace] := by
  have hhead : (ascii "\x7b\"id\":\"1\",\"method\":\"" ++ ascii rpc.method ++ ascii "\",\"params\":").length ≤ 46 := by
    cases rpc <;> simp [Rpc.method, ascii]
  have hparams : rpc.params.length ≤ 255 := by
    cases rpc with
    | freeRunStart mapping => exact List.length_take_le 255 _
    | freeRunStop => simp [Rpc.params, ascii]
    | freeRunShmInfo => simp [Rpc.params, ascii]
  have hclose : ascii "\x7d" = [closeBrace] := by simp [ascii]
  unfold request snprintf
  rw [hclose, List.take_of_length_le]
  rw [List.length_append, List.length_append, List.length_singleton]
  omega

/-- **A request** is `inner` in its braces, the last one missing if the mapping is
too long. -/
theorem request_eq (rpc : Rpc) :
    request rpc = openBrace :: (rpc.inner ++ if rpc.long then [] else [closeBrace]) := by
  cases rpc with
  | freeRunStart mapping =>
    have hhead : ascii "\x7b\"id\":\"1\",\"method\":\"" ++ ascii (Rpc.freeRunStart mapping).method ++
        ascii "\",\"params\":" ++ ascii "\x7b\"mapping\":" = openBrace :: startHead := by
      show ascii "\x7b\"id\":\"1\",\"method\":\"" ++ ascii "freeRunStart" ++
        ascii "\",\"params\":" ++ ascii "\x7b\"mapping\":" = openBrace :: startHead
      simp [startHead, ascii]
    rw [request_whole, Rpc.params, startParams_eq, ← List.append_assoc, hhead]
    show _ = openBrace :: ((startHead ++ ((mapping.getD .null).text.take 244 ++ [closeBrace])) ++
      if 243 < (mapping.getD .null).text.length then [] else [closeBrace])
    split <;> simp
  | freeRunStop => simp [request, snprintf, Rpc.inner, Rpc.long, Rpc.params, Rpc.method, ascii]
  | freeRunShmInfo => simp [request, snprintf, Rpc.inner, Rpc.long, Rpc.params, Rpc.method, ascii]

/-- Inside a request at least one brace is open. -/
theorem inner_above (rpc : Rpc) : Above 1 (out 1) rpc.inner := by
  cases rpc with
  | freeRunStart mapping =>
    have hhead : Above 1 (out 1) startHead := by
      simp [startHead, ascii]
      decide
    have hscan : scan (out 1) startHead = out 2 := by
      simp [startHead, ascii, scan, Scan.step, out, quote, backslash, openBrace, openBracket, closeBrace, closeBracket]
    have htext := (parse_scan (mapping.getD .null).parses 2).2
    rw [← List.take_append_drop 244 (mapping.getD .null).text] at htext
    have htake : Above 2 (out 2) ((mapping.getD .null).text.take 244) := above_of_append htext
    refine above_append hhead ?_
    rw [hscan]
    refine above_append (htake.mono (by decide)) ?_
    have hdepth : 2 ≤ (scan (out 2) ((mapping.getD .null).text.take 244)).depth := by
      rw [← List.append_nil (List.take ..)] at htake
      exact htake.scan_prefix
    have hstep := Scan.le_step (scan (out 2) ((mapping.getD .null).text.take 244)) closeBrace
    exact ⟨by omega, by simp only [Above]; omega⟩
  | freeRunStop =>
    simp [Rpc.inner, ascii]
    decide
  | freeRunShmInfo =>
    simp [Rpc.inner, ascii]
    decide

/-- A part of a request that lacks its last brace is no text. -/
theorem parse_part {rpc : Rpc} {line more : Bytes} (h : line ++ more = openBrace :: rpc.inner) : parse line = none := by
  cases line with
  | nil => rfl
  | cons b line =>
    rw [List.cons_append, List.cons.injEq] at h
    obtain ⟨rfl, h⟩ := h
    have habove := inner_above rpc
    rw [← h] at habove
    exact parse_eq_none habove.scan_prefix

/-- **What `send_line` sends of a request is one text only if it is all of it**,
and the request was not cut off. -/
theorem parse_sent {rpc : Rpc} {line more : Bytes} {v : Json} (h : line ++ more = request rpc) (hp : parse line = some v) :
    more = [] ∧ ¬ rpc.long := by
  rw [request_eq] at h
  by_cases hlong : rpc.long
  · rw [if_pos hlong, List.append_nil] at h
    rw [parse_part h] at hp
    cases hp
  · rw [if_neg hlong, ← List.cons_append] at h
    refine ⟨?_, hlong⟩
    -- either the last brace is in `more`, or `more` is empty
    rcases List.eq_nil_or_concat more with rfl | ⟨more', b, rfl⟩
    · rfl
    · rw [List.concat_eq_append, ← List.append_assoc] at h
      rw [parse_part (List.append_inj' h rfl).1] at hp
      cases hp

theorem newline_request {rpc : Rpc} : newline ∈ request rpc ↔ match rpc with
    | .freeRunStart mapping => newline ∈ (mapping.getD .null).text.take 244
    | _ => False := by
  cases rpc with
  | freeRunStart mapping =>
    have hhead : newline ∉ startHead := by simp [startHead, ascii, newline]
    rw [request_eq]
    show newline ∈ openBrace :: (startHead ++ ((mapping.getD .null).text.take 244 ++ [closeBrace]) ++ _) ↔ _
    have hclose : ∀ l : Bytes, (l = [] ∨ l = [closeBrace]) → newline ∉ l := by
      rintro l (rfl | rfl) <;> decide
    have hlast := hclose (if 243 < (mapping.getD .null).text.length then [] else [closeBrace]) (by split <;> simp)
    have hb : newline ≠ openBrace := by decide
    have hc : newline ≠ closeBrace := by decide
    simp only [List.mem_cons, List.mem_append, hhead, hb, hc, false_or, or_false, List.not_mem_nil]
    exact ⟨fun h => h.resolve_right hlast, .inl⟩
  | freeRunStop => simp [request, snprintf, Rpc.params, Rpc.method, ascii, newline]
  | freeRunShmInfo => simp [request, snprintf, Rpc.params, Rpc.method, ascii, newline]

/-- Two string fields and a last one. -/
theorem value_fields {i one me m p params : Bytes} {given : Json} {k : Nat} (hi : string (i ++ [quote]) = some (i, []))
    (ho : string (one ++ [quote]) = some (one, [])) (hme : string (me ++ [quote]) = some (me, []))
    (hm : string (m ++ [quote]) = some (m, [])) (hp : string (p ++ [quote]) = some (p, []))
    (hv : value (k + 1) (params ++ [closeBrace]) = some (given, [closeBrace])) :
    value (k + 5) (openBrace :: quote :: (i ++ quote :: colon :: quote :: (one ++ quote :: comma :: quote ::
      (me ++ quote :: colon :: quote :: (m ++ quote :: comma :: quote :: (p ++ quote :: colon ::
        (params ++ [closeBrace]))))))) =
      some (.object [(i, .string one), (me, .string m), (p, given)], []) := by
  have h3 := members_last (name_append hp (params ++ [closeBrace])) hv rfl
  have hskip : ∀ t, skipWs (comma :: t) = comma :: t := fun _ => rfl
  have h2 := members_cons (name_append hme _) (value_string hm (k + 1) _) (hskip _) h3
  have h1 := members_cons (name_append hi _) (value_string ho (k + 2) _) (hskip _) h2
  exact value_object h1 rfl

/-- A request whose parameters read as `given`. -/
theorem value_request {m params : Bytes} {given : Json} {k : Nat} (hm : string (m ++ [quote]) = some (m, []))
    (hv : value (k + 1) (params ++ [closeBrace]) = some (given, [closeBrace])) :
    value (k + 5) (ascii "\x7b\"id\":\"1\",\"method\":\"" ++ m ++ ascii "\",\"params\":" ++ params ++ [closeBrace]) =
      some (.object [(ascii "id", .string (ascii "1")), (ascii "method", .string m), (ascii "params", given)], []) := by
  have hid : string (ascii "id" ++ [quote]) = some (ascii "id", []) := string_key (by simp [ascii, quote, backslash])
  have hone : string (ascii "1" ++ [quote]) = some (ascii "1", []) := string_key (by simp [ascii, quote, backslash])
  have hmethod : string (ascii "method" ++ [quote]) = some (ascii "method", []) := string_key (by simp [ascii, quote, backslash])
  have hparams : string (ascii "params" ++ [quote]) = some (ascii "params", []) := string_key (by simp [ascii, quote, backslash])
  have hhead : ascii "\x7b\"id\":\"1\",\"method\":\"" =
      openBrace :: quote :: (ascii "id" ++ quote :: colon :: quote :: (ascii "1" ++ quote :: comma :: quote ::
        (ascii "method" ++ [quote, colon, quote]))) := by simp [ascii]
  have hmid : ascii "\",\"params\":" = quote :: comma :: quote :: (ascii "params" ++ [quote, colon]) := by
    simp [ascii]
  have h := value_fields hid hone hmethod hm hparams hv
  rw [hhead, hmid]
  generalize ascii "id" = i, ascii "1" = one, ascii "method" = me, ascii "params" = p at h ⊢
  simpa using h

theorem value_mapping (mapping : Mapping) {k : Nat} (hk : mapping.text.length < k) :
    value (k + 2) (ascii "\x7b\"mapping\":" ++ (mapping.text ++ [closeBrace]) ++ [closeBrace]) =
      some (.object [(ascii "mapping", mapping.value)], [closeBrace]) := by
  have hkey : string (ascii "mapping" ++ [quote]) = some (ascii "mapping", []) := string_key (by simp [ascii, quote, backslash])
  have hhead : ascii "\x7b\"mapping\":" = openBrace :: quote :: (ascii "mapping" ++ [quote, colon]) := by simp [ascii]
  have hdelim : Delim [closeBrace, closeBrace] := by
    rintro b hb
    cases hb
    decide
  obtain ⟨w, hw, hval⟩ := value_of_parse mapping.parses hk hdelim
  have hskip : skipWs (w ++ [closeBrace, closeBrace]) = [closeBrace, closeBrace] := by
    have h : skipWs [closeBrace, closeBrace] = [closeBrace, closeBrace] := rfl
    unfold skipWs at hw h ⊢
    rw [List.dropWhile_append, hw]
    exact h
  have hopen : ∀ s, skipWs (openBrace :: s) = openBrace :: s := fun _ => rfl
  have h := value_object (members_last (name_append hkey _) hval hskip) (hopen _)
  rw [hhead]
  generalize ascii "mapping" = key at h ⊢
  simpa using h

/-- **A request that fits parses to what was asked for.** -/
theorem request_fits {rpc : Rpc} (h : rpc.fits) : parse (request rpc) = some rpc.meaning := by
  have hmethod : string (ascii rpc.method ++ [quote]) = some (ascii rpc.method, []) := by
    cases rpc <;> exact string_key (by simp [Rpc.method, ascii, quote, backslash])
  rw [parse_eq_some]
  refine ⟨[], ?_, rfl⟩
  have hlen : 4 ≤ (request rpc).length := by
    rw [request_whole]
    have hhead : 4 ≤ (ascii "\x7b\"id\":\"1\",\"method\":\"").length := by simp [ascii]
    simp only [List.length_append]
    omega
  obtain ⟨k, hk⟩ : ∃ k, (request rpc).length + 1 = k + 5 := ⟨(request rpc).length - 4, by omega⟩
  rw [hk, request_whole]
  refine value_request hmethod ?_
  cases rpc with
  | freeRunStart mapping =>
    obtain ⟨hle, -⟩ := h
    have hparams : (Rpc.freeRunStart mapping).params =
        ascii "\x7b\"mapping\":" ++ ((mapping.getD .null).text ++ [closeBrace]) := by
      rw [Rpc.params, startParams_eq, if_neg (by omega), List.take_of_length_le (by omega)]
    have hk' : (mapping.getD .null).text.length < k - 1 := by
      rw [request_whole, hparams] at hk
      have hhead : 4 ≤ (ascii "\x7b\"id\":\"1\",\"method\":\"").length := by simp [ascii]
      simp only [List.length_append, List.length_singleton] at hk
      omega
    have hval := value_mapping (mapping.getD .null) hk'
    rw [show k - 1 + 2 = k + 1 by omega] at hval
    rw [hparams]
    exact hval
  | freeRunStop => rfl
  | freeRunShmInfo => rfl

theorem fits_iff {rpc : Rpc} : rpc.fits ↔ newline ∉ request rpc ∧ parse (request rpc) = some rpc.meaning := by
  constructor
  · intro h
    refine ⟨?_, request_fits h⟩
    rw [newline_request]
    cases rpc with
    | freeRunStart mapping => exact fun hm => h.2 (List.mem_of_mem_take hm)
    | freeRunStop => exact id
    | freeRunShmInfo => exact id
  · rintro ⟨hn, hp⟩
    have hlong := (parse_sent (List.append_nil _) hp).2
    cases rpc with
    | freeRunStart mapping =>
      have hle : (mapping.getD .null).text.length ≤ 243 := Nat.le_of_not_lt hlong
      rw [newline_request] at hn
      have hn : newline ∉ (mapping.getD .null).text.take 244 := hn
      rw [List.take_of_length_le (by omega)] at hn
      exact ⟨hle, hn⟩
    | freeRunStop => trivial
    | freeRunShmInfo => trivial

theorem request_length (rpc : Rpc) : (request rpc).length ≤ 511 := List.length_take_le 511 _

/-! ## One call -/

section
variable {D : Type} (dm : Daemon D)

/-- Nothing is under way in either direction. -/
def Clean (c : Conn D) : Prop := c.pending = [] ∧ c.stream = []

/-- The call sends nothing and fails, or it sends one line that parses to what
was asked for and returns the answer to it; no answer is left in the stream. -/
def Paired (c : Conn D) (rpc : Rpc) (io : Io) : Prop :=
  let r := rpcCall dm c rpc io
  r.1.stream = [] ∧
    (r.2 = ⟨[], none, none⟩ ∨
      ∃ line, newline ∉ line ∧ parse line = some rpc.meaning ∧
        r.2 = ⟨line ++ [newline], some (dm.answer c.daemon line).2, (some (dm.answer c.daemon line).2).filter isOk⟩)

/-- Unless nothing at all can be sent: the mapping fits its buffer and is one
line, the request is sent as a whole, and its answer fits the client's buffer
and is read without an error. -/
def Meets (c : Conn D) (rpc : Rpc) (io : Io) : Prop :=
  ∀ n, io.accepted = some n → n ≠ 0 →
    rpc.fits ∧ (request rpc).length < n ∧ (dm.answer c.daemon (request rpc)).2.length + 2 ≤ kMaxRpcResponse ∧
      ∀ k, io.fails = some k → (dm.answer c.daemon (request rpc)).2.length < k

theorem deliver_nil {c : Conn D} (h : c.pending = []) : deliver dm c [] = c := by
  unfold deliver
  rw [loop_eq, h]
  obtain ⟨d, p, s⟩ := c
  cases h
  rfl

theorem deliver_line {c : Conn D} (h : c.pending = []) {line : Bytes} (hl : newline ∉ line) :
    deliver dm c (line ++ [newline]) = answerLine dm c line := by
  unfold deliver
  rw [loop_eq, h, List.nil_append, lines_cons_line hl, rest_cons_line]
  obtain ⟨d, p, s⟩ := c
  cases h
  rfl

theorem sendLine_request (rpc : Rpc) (accepted : Option Nat) :
    sendLine (request rpc) accepted =
      match accepted with
      | none => ([], false)
      | some n => if (request rpc).length < n then (request rpc ++ [newline], true) else ((request rpc).take n, false) := by
  have hlen := request_length rpc
  unfold sendLine
  dsimp only
  rw [List.length_append, List.length_singleton, if_neg (by omega)]
  cases accepted with
  | none => rfl
  | some n =>
    dsimp only
    split
    · rw [List.take_of_length_le (by simp only [List.length_append, List.length_singleton]; omega)]
      simp
    · have htake : (request rpc ++ [newline]).take n = (request rpc).take n := List.take_append_of_le_length (by omega)
      rw [htake, List.length_take]
      simp only [Prod.mk.injEq, true_and, decide_eq_false_iff_not]
      omega

/-- A send that takes nothing. -/
theorem rpcCall_unsent {c : Conn D} (hc : c.pending = []) (rpc : Rpc) {io : Io}
    (h : ∀ n, io.accepted = some n → n = 0) : rpcCall dm c rpc io = (c, ⟨[], none, none⟩) := by
  unfold rpcCall
  rw [sendLine_request]
  cases ha : io.accepted with
  | none =>
    simp only
    rw [deliver_nil dm hc]
    rfl
  | some n =>
    obtain rfl := h n ha
    simp only [Nat.not_lt_zero, if_false, List.take_zero]
    rw [deliver_nil dm hc]
    rfl

/-- A send that takes the whole request, which is one line. -/
theorem rpcCall_whole {c : Conn D} (hc : Clean c) {rpc : Rpc} (hl : newline ∉ request rpc) {io : Io} {n : Nat}
    (ha : io.accepted = some n) (hn : (request rpc).length < n) :
    let resp := (dm.answer c.daemon (request rpc)).2
    let r := recvLine io.fails (resp ++ [newline])
    rpcCall dm c rpc io =
      (⟨(dm.answer c.daemon (request rpc)).1, [], r.2⟩, ⟨request rpc ++ [newline], r.1, r.1.filter isOk⟩) := by
  unfold rpcCall
  rw [sendLine_request, ha]
  dsimp only
  rw [if_pos hn, deliver_line dm hc.1 hl]
  dsimp only [answerLine]
  rw [hc.2, hc.1, List.nil_append]
  rfl

theorem paired_iff {c : Conn D} (hc : Clean c) (rpc : Rpc) (io : Io) : Paired dm c rpc io ↔ Meets dm c rpc io := by
  by_cases hsent : ∀ n, io.accepted = some n → n = 0
  · -- nothing is sent
    refine iff_of_true ?_ fun n ha hn => absurd (hsent n ha) hn
    unfold Paired
    rw [rpcCall_unsent dm hc.1 rpc hsent]
    exact ⟨hc.2, .inl rfl⟩
  simp only [not_forall] at hsent
  obtain ⟨n, ha, h0⟩ := hsent
  have hmeets : Meets dm c rpc io ↔ rpc.fits ∧ (request rpc).length < n ∧
      (dm.answer c.daemon (request rpc)).2.length + 2 ≤ kMaxRpcResponse ∧
      ∀ k, io.fails = some k → (dm.answer c.daemon (request rpc)).2.length < k := by
    constructor
    · exact fun h => h n ha h0
    · intro h n' ha' _
      rw [ha] at ha'
      cases ha'
      exact h
  rw [hmeets]
  by_cases hwhole : (request rpc).length < n
  · by_cases hl : newline ∈ request rpc
    · -- the request is more than one line
      refine iff_of_false ?_ fun h => (fits_iff.1 h.1).1 hl
      rintro ⟨-, h | ⟨line, hline, -, h⟩⟩
      all_goals
        have hs := congrArg Outcome.sent h
        unfold rpcCall at hs
        rw [sendLine_request, ha] at hs
        dsimp only at hs
        rw [if_pos hwhole] at hs
        simp only [Bool.not_true, Bool.false_eq_true, if_false] at hs
      · exact absurd hs (by simp)
      · rw [List.append_inj_left' hs rfl] at hl
        exact hline hl
    · have hresp := dm.oneLine c.daemon (request rpc)
      have hrecv := @recvLine_line io.fails _ [] hresp
      have hcall := rpcCall_whole dm hc hl ha hwhole
      unfold Paired
      rw [hcall]
      dsimp only
      constructor
      · rintro ⟨hstream, h | ⟨line, hline, hparse, h⟩⟩
        · exact absurd (congrArg Outcome.sent h) (by simp)
        · obtain rfl : request rpc = line := List.append_inj_left' (congrArg Outcome.sent h) rfl
          refine ⟨fits_iff.2 ⟨hline, hparse⟩, hwhole, ?_⟩
          by_contra hshort
          rw [if_neg hshort] at hrecv
          exact hrecv.2 hstream
      · rintro ⟨hfits, -, hshort⟩
        rw [if_pos hshort] at hrecv
        rw [hrecv]
        exact ⟨rfl, .inr ⟨request rpc, hl, request_fits hfits, rfl⟩⟩
  · -- the send is cut short
    refine iff_of_false ?_ fun h => hwhole h.2.1
    have hs : (rpcCall dm c rpc io).2.sent = (request rpc).take n := by
      unfold rpcCall
      rw [sendLine_request, ha]
      dsimp only
      rw [if_neg hwhole]
      rfl
    rintro ⟨-, h | ⟨line, -, hparse, h⟩⟩
    all_goals rw [h] at hs
    · have hne : 0 < ((request rpc).take n).length := by
        rw [List.length_take]
        have : 0 < (request rpc).length := by
          rw [request_eq]
          exact Nat.succ_pos _
        omega
      rw [← hs] at hne
      exact absurd hne (by simp)
    · have hpart : line ++ (newline :: (request rpc).drop n) = request rpc := by
        have htd := List.take_append_drop n (request rpc)
        rw [← hs] at htd
        simpa using htd
      exact absurd (parse_sent hpart hparse).1 (List.cons_ne_nil _ _)

/-- A paired call leaves nothing under way. -/
theorem paired_clean {c : Conn D} (hc : Clean c) {rpc : Rpc} {io : Io} (h : Paired dm c rpc io) :
    Clean (rpcCall dm c rpc io).1 := by
  refine ⟨?_, h.1⟩
  have hm := (paired_iff dm hc rpc io).1 h
  by_cases hsent : ∀ n, io.accepted = some n → n = 0
  · rw [rpcCall_unsent dm hc.1 rpc hsent]
    exact hc.1
  · simp only [not_forall] at hsent
    obtain ⟨n, ha, h0⟩ := hsent
    obtain ⟨hfits, hn, -⟩ := hm n ha h0
    rw [rpcCall_whole dm hc (fits_iff.1 hfits).1 ha hn]

/-! ## A session -/

/-- The calls of the library on a connected client. A start that succeeds
attaches; an attach with a layout of the caller asks for nothing. -/
inductive Call where
  | startFreerun (mapping : Option Mapping) (io ioAttach : Io)
  | stopFreerun (io : Io)
  | attach (layoutJson : Bool) (io : Io)

/-- The connection and, a ghost, the requests made on it with the state each of
them met. -/
structure Session (D : Type) where
  conn : Conn D
  log : List (Conn D × Rpc × Io)

def Session.rpc (s : Session D) (rpc : Rpc) (io : Io) : Session D × Option Bytes :=
  let r := rpcCall dm s.conn rpc io
  (⟨r.1, s.log ++ [(s.conn, rpc, io)]⟩, r.2.returned)

/-- mirrors client/nekoecat_client.c:214-240, 268-273 -/
def Session.step (s : Session D) : Call → Session D
  | .startFreerun mapping io ioAttach =>
    let (s, resp) := s.rpc dm (.freeRunStart mapping) io
    match resp with
    | none => s
    | some _ => (s.rpc dm .freeRunShmInfo ioAttach).1
  | .stopFreerun io => (s.rpc dm .freeRunStop io).1
  | .attach layoutJson io => if layoutJson then s else (s.rpc dm .freeRunShmInfo io).1

def Session.start (d : D) : Session D := ⟨⟨d, [], []⟩, []⟩

/-- Every request so far was paired with its answer. -/
def Session.AllPaired (s : Session D) : Prop := ∀ v ∈ s.log, Paired dm v.1 v.2.1 v.2.2

def Session.AllMeet (s : Session D) : Prop := ∀ v ∈ s.log, Meets dm v.1 v.2.1 v.2.2

/-- While all is paired nothing is under way, and what is paired is what meets
the condition. -/
structure Session.Ok (s : Session D) : Prop where
  iff : s.AllPaired dm ↔ s.AllMeet dm
  clean : s.AllPaired dm → Clean s.conn

theorem rpc_conn (s : Session D) (rpc : Rpc) (io : Io) : (s.rpc dm rpc io).1.conn = (rpcCall dm s.conn rpc io).1 := by
  simp only [Session.rpc]

theorem rpc_ok {s : Session D} (h : s.Ok dm) (rpc : Rpc) (io : Io) : (s.rpc dm rpc io).1.Ok dm := by
  have hpaired : (s.rpc dm rpc io).1.AllPaired dm ↔ s.AllPaired dm ∧ Paired dm s.conn rpc io := by
    simp [Session.rpc, Session.AllPaired, or_imp, forall_and]
  have hmeet : (s.rpc dm rpc io).1.AllMeet dm ↔ s.AllMeet dm ∧ Meets dm s.conn rpc io := by
    simp [Session.rpc, Session.AllMeet, or_imp, forall_and]
  refine ⟨?_, fun hp => ?_⟩
  · rw [hpaired, hmeet, h.iff]
    exact and_congr_right fun hm => paired_iff dm (h.clean (h.iff.2 hm)) rpc io
  · obtain ⟨h1, h2⟩ := hpaired.1 hp
    rw [rpc_conn]
    exact paired_clean dm (h.clean h1) h2

theorem step_ok (s : Session D) (l : Call) (h : s.Ok dm) : (s.step dm l).Ok dm := by
  cases l with
  | startFreerun mapping io ioAttach =>
    have h1 := rpc_ok dm h (.freeRunStart mapping) io
    unfold Session.step
    dsimp only
    split
    · exact h1
    · exact rpc_ok dm h1 .freeRunShmInfo ioAttach
  | stopFreerun io => exact rpc_ok dm h .freeRunStop io
  | attach layoutJson io =>
    show Session.Ok dm (if layoutJson then s else (s.rpc dm .freeRunShmInfo io).1)
    split
    · exact h
    · exact rpc_ok dm h .freeRunShmInfo io

/-- **Request and response pairing, exactly.** In any session every request is
paired with its own answer if and only if every request met the condition, and
then nothing is left in the stream. -/
theorem session_iff (d : D) (σ : Nat → Call) (n : Nat) :
    let s := trace (Session.step dm) (.start d) σ n
    (s.AllPaired dm ↔ s.AllMeet dm) ∧ (s.AllMeet dm → Clean s.conn) := by
  have hstart : (Session.start d).Ok dm := by
    refine ⟨iff_of_true ?_ ?_, fun _ => ⟨rfl, rfl⟩⟩
    · intro v hv
      cases hv
    · intro v hv
      cases hv
  have h := trace_inv (Session.step dm) (.start d) σ hstart (step_ok dm) n
  exact ⟨h.iff, fun hm => h.clean (h.iff.2 hm)⟩

end

/-- A daemon that says whether a line is a JSON text. -/
def judge : Daemon Unit where
  answer _ line := ((), if (parse line).isSome then ascii "\x7b\"ok\":true\x7d" else ascii "\x7b\"ok\":false\x7d")
  oneLine _ line := by
    split
    · decide +kernel
    · decide +kernel

/-- An empty object and the newline a file ends with. -/
def fileMapping : Mapping := ⟨ascii "\x7b\x7d\n", .object [], rfl⟩

/-- Everything is sent and received. -/
def allThrough : Io := ⟨some 1024, none⟩

/-- The start with a mapping that ends in a newline. -/
def afterStart : Session Unit := (Session.start ()).step judge (.startFreerun (some fileMapping) allThrough allThrough)

/-- **A newline in the mapping makes two lines of one request**: the start is not
paired, and the stop after it gets a rejection that was meant for the start,
while the daemon accepts the stop. -/
theorem newline_unpaired :
    ¬ afterStart.AllPaired judge ∧
    (rpcCall judge afterStart.conn .freeRunStop allThrough).2.received = some (ascii "\x7b\"ok\":false\x7d") ∧
    (rpcCall judge afterStart.conn .freeRunStop allThrough).2.returned = none ∧
    (judge.answer () (request .freeRunStop)).2 = ascii "\x7b\"ok\":true\x7d" := by
  refine ⟨fun h => ?_, by decide +kernel, by decide +kernel, by decide +kernel⟩
  have hret : ((Session.start ()).rpc judge (.freeRunStart (some fileMapping)) allThrough).2 = none := by decide +kernel
  have hstep : afterStart = ((Session.start ()).rpc judge (.freeRunStart (some fileMapping)) allThrough).1 := by
    unfold afterStart Session.step
    simp only [hret]
  rw [hstep] at h
  have hp := h ((Session.start ()).conn, .freeRunStart (some fileMapping), allThrough) (List.mem_singleton_self _)
  exact absurd hp.1 (by decide +kernel)

end NekoEcat.L2.Pairing
