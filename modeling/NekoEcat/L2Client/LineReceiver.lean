import NekoEcat.L2Client.Pairing

/-!
# The line receiver and its buffer

`recv_line` at the level of memory: a block from `malloc` that `realloc` makes
larger, writes that must be inside of it, a stream that ends anywhere.
`Pairing.recvLine` is the same function without the block.

* `grow_cases`: the block before a byte is read.
* `loop_line`, `loop_end`: what the loop makes of a stream with or without a newline.
* `recvLine_exact`: which line is returned, and what is left unread, for every
  allocator.
* `recvLine_pairing`: where memory is granted, the two models agree.
-/
namespace NekoEcat.L2.LineReceiver
open NekoEcat.Bytes NekoEcat.L2.Pairing

/-! ## Memory -/

/-- The allocator: the sizes it grants, and what the bytes of a block of some
size hold before they are written. -/
structure Allocator where
  grants : Nat → Bool
  fresh : Nat → Nat → UInt8

def Allocator.block (a : Allocator) (size : Nat) : Bytes := (List.range size).map (a.fresh size)

def Allocator.malloc (a : Allocator) (size : Nat) : Option Bytes :=
  if a.grants size then some (a.block size) else none

/-- The old bytes stay, as many as there is room for. -/
def Allocator.realloc (a : Allocator) (buf : Bytes) (size : Nat) : Option Bytes :=
  if a.grants size then some (buf.take size ++ (a.block size).drop buf.length) else none

/-- `buf[pos] = b`; `none` if that is not a byte of the block. -/
def store (buf : Bytes) (pos : Nat) (b : UInt8) : Option Bytes :=
  if pos < buf.length then some (buf.set pos b) else none

/-! ## The receiver -/

inductive Outcome where
  | outOfBounds
  | null
  /-- the block that is returned -/
  | line (buf : Bytes)

/-- Room for one more byte and the terminator: the capacity and the block.
mirrors client/nekoecat_client.c:100-113 -/
def grow (a : Allocator) (cap pos : Nat) (buf : Bytes) : Option (Nat × Bytes) :=
  if pos + 1 ≥ cap then
    if cap ≥ kMaxRpcResponse then none
    else
      let ncap := if cap < kMaxRpcResponse then cap * 2 else kMaxRpcResponse
      (a.realloc buf ncap).map fun nb => (ncap, nb)
  else some (cap, buf)

/-- The loop, and what is left of the stream. The end of the stream stands for
every return of `recv` that is not 1.
mirrors client/nekoecat_client.c:99-125 -/
def loop (a : Allocator) (cap pos : Nat) (buf stream : Bytes) : Outcome × Bytes :=
  match grow a cap pos buf with
  | none => (.null, stream)
  | some (cap, buf) =>
    match stream with
    | [] => (.null, [])
    | ch :: stream =>
      if ch = newline then
        match store buf pos 0 with
        | none => (.outOfBounds, stream)
        | some buf => (.line buf, stream)
      else
        match store buf pos ch with
        | none => (.outOfBounds, stream)
        | some buf => loop a cap (pos + 1) buf stream

/-- mirrors client/nekoecat_client.c:95-126 -/
def recvLine (a : Allocator) (stream : Bytes) : Outcome × Bytes :=
  match a.malloc 512 with
  | none => (.null, stream)
  | some buf => loop a 512 0 buf stream

/-! ## The block -/

section
variable {a : Allocator} {buf nb : Bytes}

@[simp] theorem length_block (a : Allocator) (size : Nat) : (a.block size).length = size := by simp [Allocator.block]

theorem realloc_spec {size : Nat} (h : buf.length ≤ size) (hg : a.grants size = true) :
    ∃ nb, a.realloc buf size = some nb ∧ nb.length = size ∧ ∀ pos ≤ buf.length, nb.take pos = buf.take pos := by
  refine ⟨_, if_pos hg, ?_, fun pos hpos => ?_⟩
  · rw [List.take_of_length_le h, List.length_append, List.length_drop, length_block]
    omega
  · rw [List.take_of_length_le h, List.take_append_of_le_length hpos]

/-- A byte that is stored goes behind those that are there. -/
theorem store_spec {pos : Nat} (h : pos < buf.length) (b : UInt8) :
    ∃ nb, store buf pos b = some nb ∧ nb.length = buf.length ∧ nb.take (pos + 1) = buf.take pos ++ [b] := by
  refine ⟨_, if_pos h, List.length_set, ?_⟩
  rw [List.take_add_one, List.take_set_of_le (Nat.le_refl pos), List.getElem?_set_self h]
  rfl

end

/-- What the allocator must grant to get from `2 ^ (9 + j)` bytes to a line of `n`. -/
def Allocator.GrantsFrom (a : Allocator) (j n : Nat) : Prop :=
  ∀ i, j ≤ i → 2 ^ (9 + i) ≤ n + 1 → a.grants (2 ^ (9 + (i + 1))) = true

/-- What it must grant for a line of `n` bytes. -/
def Allocator.Grants (a : Allocator) (n : Nat) : Prop := a.grants 512 = true ∧ a.GrantsFrom 0 n

section
variable (a : Allocator) {j pos : Nat} {buf : Bytes}

/-- Before a byte is read the block is full at its limit, or memory is refused, or
there is room for the byte and the terminator. -/
theorem grow_cases (hj : j ≤ 11) (hpos : pos + 1 ≤ 2 ^ (9 + j)) (hbuf : buf.length = 2 ^ (9 + j)) :
    (grow a (2 ^ (9 + j)) pos buf = none ∧ ∀ n, pos ≤ n → ¬ (n + 2 ≤ kMaxRpcResponse ∧ a.GrantsFrom j n)) ∨
    ∃ j' nb, grow a (2 ^ (9 + j)) pos buf = some (2 ^ (9 + j'), nb) ∧ j' ≤ 11 ∧ pos + 2 ≤ 2 ^ (9 + j') ∧
      nb.length = 2 ^ (9 + j') ∧ nb.take pos = buf.take pos ∧ ∀ n, pos ≤ n → (a.GrantsFrom j n ↔ a.GrantsFrom j' n) := by
  by_cases hfull : pos + 1 ≥ 2 ^ (9 + j)
  · rw [grow, if_pos hfull]
    rcases Nat.eq_or_lt_of_le hj with rfl | hlt
    · left
      rw [if_pos (by decide)]
      refine ⟨rfl, fun n hn h => ?_⟩
      have hmax : kMaxRpcResponse = 2 ^ (9 + 11) := rfl
      omega
    · have hdouble : 2 ^ (9 + j) * 2 = 2 ^ (9 + (j + 1)) := (Nat.pow_succ ..).symm
      have hle : 2 ^ (9 + j) ≤ 2 ^ 19 := Nat.pow_le_pow_right (by omega) (by omega)
      have hcap : 2 ^ (9 + j) < kMaxRpcResponse := Nat.lt_of_le_of_lt hle (by decide)
      rw [if_neg (Nat.not_le.2 hcap), if_pos hcap, hdouble]
      cases hgrant : a.grants (2 ^ (9 + (j + 1))) with
      | false =>
        left
        have hrefused : a.realloc buf (2 ^ (9 + (j + 1))) = none := by simp [Allocator.realloc, hgrant]
        refine ⟨by simp only [hrefused, Option.map_none], fun n hn h => ?_⟩
        have hasked := h.2 j (Nat.le_refl j) (by omega)
        rw [hgrant] at hasked
        cases hasked
      | true =>
        right
        obtain ⟨nb, hnb, hlen, hkept⟩ := realloc_spec (show buf.length ≤ 2 ^ (9 + (j + 1)) by omega) hgrant
        refine ⟨j + 1, nb, by simp only [hnb, Option.map_some], hlt, by omega, hlen, hkept pos (by omega), fun n _ => ⟨fun h i hi => ?_, fun h i hi => ?_⟩⟩
        · exact h i (by omega)
        · rcases Nat.eq_or_lt_of_le hi with rfl | hi
          · exact fun _ => hgrant
          · exact h i hi
  · right
    rw [grow, if_neg hfull]
    exact ⟨j, buf, rfl, hj, by omega, hbuf, rfl, fun n _ => Iff.rfl⟩

/-- Without a newline there is no line. -/
theorem loop_end {stream : Bytes} (hn : newline ∉ stream) :
    ∀ {j pos : Nat} {buf : Bytes}, j ≤ 11 → pos + 1 ≤ 2 ^ (9 + j) → buf.length = 2 ^ (9 + j) →
      (loop a (2 ^ (9 + j)) pos buf stream).1 = .null := by
  induction stream with
  | nil =>
    intro j pos buf hj hpos hbuf
    unfold loop
    rcases grow_cases a hj hpos hbuf with ⟨hgrow, -⟩ | ⟨j', nb, hgrow, -⟩ <;> rw [hgrow]
  | cons ch stream ih =>
    intro j pos buf hj hpos hbuf
    have hch : ch ≠ newline := fun he => hn (he ▸ List.mem_cons_self)
    unfold loop
    rcases grow_cases a hj hpos hbuf with ⟨hgrow, -⟩ | ⟨j', nb, hgrow, hj', hroom, hlen, -, -⟩ <;> rw [hgrow]
    obtain ⟨stored, hstore, hstored, -⟩ := store_spec (show pos < nb.length by omega) ch
    dsimp only
    rw [if_neg hch, hstore]
    exact ih (fun hm => hn (List.mem_cons_of_mem ch hm)) hj' hroom (hstored.trans hlen)

/-- What the bytes of a line leave, when they come behind what is there. -/
structure Received (n : Nat) (front line rest : Bytes) (r : Outcome × Bytes) : Prop where
  unread : r.2 = rest
  terminated : ∃ out, r.1 = .line out ∧ out.take (n + 1) = front ++ line ++ [0]

/-- **A line comes off the stream**, behind the bytes that are there already, if it
fits with its terminator and memory is granted; otherwise there is none. -/
theorem loop_line {line rest : Bytes} (hn : newline ∉ line) :
    ∀ {j pos : Nat} {buf : Bytes}, j ≤ 11 → pos + 1 ≤ 2 ^ (9 + j) → buf.length = 2 ^ (9 + j) →
      (pos + line.length + 2 ≤ kMaxRpcResponse ∧ a.GrantsFrom j (pos + line.length) →
        Received (pos + line.length) (buf.take pos) line rest (loop a (2 ^ (9 + j)) pos buf (line ++ newline :: rest))) ∧
      (¬ (pos + line.length + 2 ≤ kMaxRpcResponse ∧ a.GrantsFrom j (pos + line.length)) →
        (loop a (2 ^ (9 + j)) pos buf (line ++ newline :: rest)).1 = .null) := by
  induction line with
  | nil =>
    intro j pos buf hj hpos hbuf
    unfold loop
    rcases grow_cases a hj hpos hbuf with ⟨hgrow, hnot⟩ | ⟨j', nb, hgrow, hj', hroom, hlen, hkept, hgrants⟩
    · rw [hgrow]
      exact ⟨fun h => absurd h (hnot _ (Nat.le_add_right pos _)), fun _ => rfl⟩
    · obtain ⟨stored, hstore, -, hbytes⟩ := store_spec (show pos < nb.length by omega) 0
      simp only [hgrow, List.nil_append, if_pos, hstore]
      have hmax : 2 ^ (9 + j') ≤ kMaxRpcResponse := Nat.pow_le_pow_right (by omega) (show 9 + j' ≤ 20 by omega)
      have hgranted : a.GrantsFrom j pos := by
        refine (hgrants pos (Nat.le_refl pos)).2 fun i hi hasked => ?_
        have hle : 2 ^ (9 + j') ≤ 2 ^ (9 + i) := Nat.pow_le_pow_right (by omega) (by omega)
        omega
      refine ⟨fun _ => ⟨rfl, stored, rfl, ?_⟩, fun h => absurd ⟨?_, hgranted⟩ h⟩
      · rw [List.append_nil, ← hkept]
        exact hbytes
      · rw [List.length_nil]
        omega
  | cons ch line ih =>
    intro j pos buf hj hpos hbuf
    have hch : ch ≠ newline := fun he => hn (he ▸ List.mem_cons_self)
    unfold loop
    rcases grow_cases a hj hpos hbuf with ⟨hgrow, hnot⟩ | ⟨j', nb, hgrow, hj', hroom, hlen, hkept, hgrants⟩
    · rw [hgrow]
      exact ⟨fun h => absurd h (hnot _ (Nat.le_add_right pos _)), fun _ => rfl⟩
    · obtain ⟨stored, hstore, hstored, hbytes⟩ := store_spec (show pos < nb.length by omega) ch
      simp only [hgrow, List.cons_append, if_neg hch, hstore]
      have hrest := ih (fun hm => hn (List.mem_cons_of_mem ch hm)) hj' hroom (hstored.trans hlen)
      have hcount : pos + 1 + line.length = pos + (line.length + 1) := by omega
      rw [hcount, ← hgrants _ (Nat.le_add_right pos _), hbytes, hkept] at hrest
      refine ⟨fun h => ?_, hrest.2⟩
      obtain ⟨hunread, out, hout, hterminated⟩ := hrest.1 h
      exact ⟨hunread, out, hout, by simpa using hterminated⟩

end

/-! ## The whole function -/

section
variable (a : Allocator)

theorem recvLine_line {line rest : Bytes} (hn : newline ∉ line) :
    (line.length + 2 ≤ kMaxRpcResponse ∧ a.Grants line.length →
      Received line.length [] line rest (recvLine a (line ++ newline :: rest))) ∧
    (¬ (line.length + 2 ≤ kMaxRpcResponse ∧ a.Grants line.length) →
      (recvLine a (line ++ newline :: rest)).1 = .null) := by
  unfold recvLine Allocator.malloc
  by_cases hg : a.grants 512 = true
  · rw [if_pos hg]
    have hloop := @loop_line a line rest hn 0 0 _ (by omega) (by omega) (length_block a 512)
    rw [Nat.zero_add] at hloop
    exact ⟨fun h => hloop.1 ⟨h.1, h.2.2⟩, fun h => hloop.2 fun h' => h ⟨h'.1, hg, h'.2⟩⟩
  · rw [if_neg hg]
    exact ⟨fun h => absurd h.2.1 hg, fun _ => rfl⟩

theorem recvLine_end {stream : Bytes} (hn : newline ∉ stream) : (recvLine a stream).1 = .null := by
  unfold recvLine Allocator.malloc
  by_cases hg : a.grants 512 = true
  · rw [if_pos hg]
    exact @loop_end a stream hn 0 0 _ (by omega) (by omega) (length_block a 512)
  · rw [if_neg hg]

end

/-- A block that begins with the line and its terminator. -/
theorem Received.block {line rest : Bytes} {r : Outcome × Bytes} (h : Received line.length [] line rest r) :
    ∃ out, r = (.line out, rest) ∧ line ++ [0] <+: out := by
  obtain ⟨hunread, out, hout, hterminated⟩ := h
  refine ⟨out, Prod.ext hout hunread, ?_⟩
  rw [← List.nil_append (line ++ [0]), ← List.append_assoc, ← hterminated]
  exact List.take_prefix _ out

/-- **No write is out of bounds**, whatever the allocator and the stream. What is
returned is the line before the first newline with its terminator, and all behind
that newline is left unread, when the line has at most `2 ^ 20 - 2` bytes and memory
for it is granted; in every other case it is null. -/
theorem recvLine_exact (a : Allocator) (stream : Bytes) :
    (recvLine a stream).1 ≠ .outOfBounds ∧
    (∀ line rest, newline ∉ line → stream = line ++ newline :: rest → line.length ≤ 2 ^ 20 - 2 → a.Grants line.length →
      ∃ out, recvLine a stream = (.line out, rest) ∧ line ++ [0] <+: out) ∧
    ((∀ line rest, newline ∉ line → stream = line ++ newline :: rest → ¬ (line.length ≤ 2 ^ 20 - 2 ∧ a.Grants line.length)) →
      (recvLine a stream).1 = .null) := by
  have hmax (n : Nat) : n + 2 ≤ kMaxRpcResponse ↔ n ≤ 2 ^ 20 - 2 := by
    unfold kMaxRpcResponse
    omega
  have hfits {line rest : Bytes} (hline : newline ∉ line) := @recvLine_line a line rest hline
  simp only [hmax] at hfits
  refine ⟨?_, fun line rest hline heq hlen hgrants => ?_, fun h => ?_⟩
  · by_cases hm : newline ∈ stream
    · obtain ⟨line, rest, rfl, hline⟩ := List.eq_append_cons_of_mem hm
      by_cases hfit : line.length ≤ 2 ^ 20 - 2 ∧ a.Grants line.length
      · obtain ⟨out, hout, -⟩ := ((hfits hline).1 hfit).terminated
        rw [hout]
        nofun
      · rw [(hfits hline).2 hfit]
        nofun
    · rw [recvLine_end a hm]
      nofun
  · rw [heq]
    exact ((hfits hline).1 ⟨hlen, hgrants⟩).block
  · by_cases hm : newline ∈ stream
    · obtain ⟨line, rest, rfl, hline⟩ := List.eq_append_cons_of_mem hm
      exact (hfits hline).2 (h line rest hline rfl)
    · exact recvLine_end a hm

/-! ## Without the block -/

theorem recvLoop_end {fails : Option Nat} {stream : Bytes} (hn : newline ∉ stream) (cap pos : Nat) :
    (recvLoop fails cap pos stream).1 = none := by
  induction stream generalizing cap pos with
  | nil => rfl
  | cons ch stream ih =>
    have hch : ch ≠ newline := fun he => hn (he ▸ List.mem_cons_self)
    have hrest := ih fun hm => hn (List.mem_cons_of_mem ch hm)
    rw [recvLoop]
    split
    · rfl
    · dsimp only
      split
      · rfl
      · rw [hrest]
        rfl

/-- **Where memory is granted**, the block holds the line that `Pairing.recvLine` gets. -/
theorem recvLine_pairing {a : Allocator} (hgrants : ∀ size, a.grants size = true) (stream : Bytes) :
    ((Pairing.recvLine none stream).1 = none ∧ (recvLine a stream).1 = .null) ∨
    ∃ line rest out, Pairing.recvLine none stream = (some line, rest) ∧ recvLine a stream = (.line out, rest) ∧
      line ++ [0] <+: out := by
  by_cases hm : newline ∈ stream
  · obtain ⟨line, rest, rfl, hline⟩ := List.eq_append_cons_of_mem hm
    have habstract := @Pairing.recvLine_line none line rest hline
    have hblock := @recvLine_line a line rest hline
    have hall : a.Grants line.length := ⟨hgrants 512, fun _ _ _ => hgrants _⟩
    by_cases hfit : line.length + 2 ≤ kMaxRpcResponse
    · right
      rw [if_pos ⟨hfit, nofun⟩] at habstract
      obtain ⟨out, hout, hprefix⟩ := (hblock.1 ⟨hfit, hall⟩).block
      exact ⟨line, rest, out, habstract, hout, hprefix⟩
    · left
      rw [if_neg fun h => hfit h.1] at habstract
      exact ⟨habstract.1, hblock.2 fun h => hfit h.1⟩
  · exact .inl ⟨recvLoop_end hm 512 0, recvLine_end a hm⟩

end NekoEcat.L2.LineReceiver
