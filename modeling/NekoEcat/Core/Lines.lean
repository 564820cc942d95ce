import Mathlib.Data.List.Basic

/-!
# Newline framing

A byte stream is a sequence of terminated frames and an unterminated tail.
`lines` and `rest` are the two, over any alphabet with any terminator; `loop`
is the loop by which a program cuts them off a reassembly buffer, one
`indexOf` at a time.

* `lines_append`, `rest_append`: the tail is all that a later chunk needs.
* `lines_frames`, `rest_join`: complete frames come apart again.
* `loop_eq`: the loop is a fold over the frames and leaves the tail.
-/
namespace NekoEcat.Lines

variable {α : Type} (nl : α)

/-- A stream of complete frames. -/
def join (frames : List (List α)) : List α := frames.flatMap (· ++ [nl])

@[simp] theorem join_nil : join nl ([] : List (List α)) = [] := rfl

@[simp] theorem join_cons (f : List α) (fs : List (List α)) : join nl (f :: fs) = f ++ nl :: join nl fs := by
  simp [join]

variable [DecidableEq α]

/-- The terminated frames, without their terminators. -/
def lines : List α → List (List α)
  | [] => []
  | b :: bs => if b = nl then [] :: lines bs else (lines bs).modifyHead (b :: ·)

/-- What follows the last terminator. -/
def rest : List α → List α
  | [] => []
  | b :: bs => if nl ∈ b :: bs then rest bs else b :: bs

@[simp] theorem lines_nil : lines nl ([] : List α) = [] := rfl

@[simp] theorem rest_nil : rest nl ([] : List α) = [] := rfl

variable {nl}

theorem lines_of_not_mem {s : List α} (h : nl ∉ s) : lines nl s = [] := by
  induction s with
  | nil => rfl
  | cons b bs ih =>
    have hb : b ≠ nl := fun e => h (e ▸ List.mem_cons_self)
    rw [lines, if_neg hb, ih fun hm => h (List.mem_cons_of_mem b hm)]
    rfl

theorem rest_of_not_mem {s : List α} (h : nl ∉ s) : rest nl s = s := by
  cases s with
  | nil => rfl
  | cons b bs => rw [rest, if_neg h]

/-- A frame at the front. -/
theorem lines_cons_line {line : List α} (h : nl ∉ line) (s : List α) :
    lines nl (line ++ nl :: s) = line :: lines nl s := by
  induction line with
  | nil => rw [List.nil_append, lines, if_pos rfl]
  | cons b bs ih =>
    have hb : b ≠ nl := fun e => h (e ▸ List.mem_cons_self)
    rw [List.cons_append, lines, if_neg hb, ih fun hm => h (List.mem_cons_of_mem b hm)]
    rfl

theorem rest_cons_line (line s : List α) : rest nl (line ++ nl :: s) = rest nl s := by
  induction line with
  | nil => rw [List.nil_append, rest, if_pos List.mem_cons_self]
  | cons b bs ih => rw [List.cons_append, rest, if_pos (by simp), ih]

variable (nl) in
/-- **The frame rule.** A stream is a tail, or a frame before a stream. -/
theorem stream_induction {P : List α → Prop} (tail : ∀ s, nl ∉ s → P s)
    (frame : ∀ line s, nl ∉ line → P s → P (line ++ nl :: s)) (s : List α) : P s := by
  induction hn : s.length using Nat.strongRecOn generalizing s with
  | ind n ih =>
    by_cases h : nl ∈ s
    · obtain ⟨line, s', rfl, hl⟩ := List.eq_append_cons_of_mem h
      have hlt : s'.length < n := by
        rw [← hn, List.length_append, List.length_cons]
        omega
      exact frame line s' hl (ih s'.length hlt s' rfl)
    · exact tail s h

theorem not_mem_rest (s : List α) : nl ∉ rest nl s := by
  induction s using stream_induction nl with
  | tail s h => rwa [rest_of_not_mem h]
  | frame line s hl ih => rwa [rest_cons_line]

variable (nl) in
/-- The frames and the tail are the whole stream. -/
theorem join_lines_rest (s : List α) : join nl (lines nl s) ++ rest nl s = s := by
  induction s using stream_induction nl with
  | tail s h => rw [lines_of_not_mem h, rest_of_not_mem h, join_nil, List.nil_append]
  | frame line s hl ih =>
    rw [lines_cons_line hl, rest_cons_line, join_cons, List.append_assoc, List.cons_append, ih]

/-- **The tail is all that a later chunk needs.** -/
theorem lines_append (s t : List α) : lines nl (s ++ t) = lines nl s ++ lines nl (rest nl s ++ t) := by
  induction s using stream_induction nl with
  | tail s h => rw [lines_of_not_mem h, rest_of_not_mem h, List.nil_append]
  | frame line s hl ih =>
    rw [List.append_assoc, List.cons_append, lines_cons_line hl, lines_cons_line hl, rest_cons_line, ih,
      List.cons_append]

theorem rest_append (s t : List α) : rest nl (s ++ t) = rest nl (rest nl s ++ t) := by
  induction s using stream_induction nl with
  | tail s h => rw [rest_of_not_mem h]
  | frame line s hl ih => rw [List.append_assoc, List.cons_append, rest_cons_line, rest_cons_line, ih]

/-- **Complete frames come apart again.** -/
theorem lines_frames {frames : List (List α)} (h : ∀ f ∈ frames, nl ∉ f) : lines nl (join nl frames) = frames := by
  induction frames with
  | nil => rfl
  | cons f fs ih =>
    rw [join_cons, lines_cons_line (h f List.mem_cons_self), ih fun g hg => h g (List.mem_cons_of_mem f hg)]

theorem rest_join (frames : List (List α)) : rest nl (join nl frames) = [] := by
  induction frames with
  | nil => rfl
  | cons f fs ih => rw [join_cons, rest_cons_line, ih]

/-- The frames after an unterminated tail: the first one is glued to it. -/
theorem lines_tail_frames {tail : List α} (ht : nl ∉ tail) {f : List α} {fs : List (List α)}
    (h : ∀ g ∈ f :: fs, nl ∉ g) : lines nl (tail ++ join nl (f :: fs)) = (tail ++ f) :: fs := by
  have hf : nl ∉ tail ++ f := by
    intro hm
    rcases List.mem_append.1 hm with hm | hm
    · exact ht hm
    · exact h f List.mem_cons_self hm
  rw [join_cons, ← List.append_assoc, lines_cons_line hf, lines_frames fun g hg => h g (List.mem_cons_of_mem f hg)]

theorem length_lines_le {s line : List α} (h : line ∈ lines nl s) : line.length < s.length := by
  induction s using stream_induction nl with
  | tail s hs =>
    rw [lines_of_not_mem hs] at h
    cases h
  | frame l s hl ih =>
    rw [lines_cons_line hl] at h
    rw [List.length_append, List.length_cons]
    rcases List.mem_cons.1 h with rfl | h
    · omega
    · have := ih h
      omega

variable (nl) in
theorem length_rest_le (s : List α) : (rest nl s).length ≤ s.length := by
  have h := congrArg List.length (join_lines_rest nl s)
  rw [List.length_append] at h
  omega

/-! ## The loop that cuts frames off a buffer -/

/-- `indexOf`, `left` and `remove`: the first frame of a buffer. -/
theorem cut_first {s : List α} {newline : Nat} (h : s.idxOf? nl = some newline) :
    s = s.take newline ++ nl :: s.drop (newline + 1) ∧ nl ∉ s.take newline := by
  obtain ⟨hlt, hat, hbefore⟩ := List.idxOf?_eq_some_iff.1 h
  refine ⟨?_, ?_⟩
  · rw [← hat, ← List.drop_eq_getElem_cons hlt, List.take_append_drop]
  · intro hm
    obtain ⟨j, hj, he⟩ := List.getElem_of_mem hm
    rw [List.length_take] at hj
    rw [List.getElem_take] at he
    exact hbefore j (by omega) he

variable (nl) in
/-- `while ((newline = buffer.indexOf(nl)) >= 0)`: cut the first frame off the
buffer and handle it. -/
def loop {S : Type} (handle : S → List α → S) (s : S) (buffer : List α) : S × List α :=
  match h : buffer.idxOf? nl with
  | none => (s, buffer)
  | some newline => loop handle (handle s (buffer.take newline)) (buffer.drop (newline + 1))
termination_by buffer.length
decreasing_by
  obtain ⟨hlt, -, -⟩ := List.idxOf?_eq_some_iff.1 h
  rw [List.length_drop]
  omega

/-- **The loop is a fold over the frames and leaves the tail.** -/
theorem loop_eq {S : Type} (handle : S → List α → S) (s : S) (buffer : List α) :
    loop nl handle s buffer = ((lines nl buffer).foldl handle s, rest nl buffer) := by
  induction s, buffer using loop.induct nl handle with
  | case1 s buffer h =>
    have hn := List.idxOf?_eq_none_iff.1 h
    rw [loop, lines_of_not_mem hn, rest_of_not_mem hn]
    split
    · rfl
    · rename_i newline h'
      rw [h] at h'
      cases h'
  | case2 s buffer newline h ih =>
    obtain ⟨hs, hl⟩ := cut_first h
    rw [loop]
    split
    · rename_i h'
      rw [h] at h'
      cases h'
    · rename_i newline' h'
      rw [h] at h'
      obtain rfl := Option.some.inj h'
      rw [ih]
      conv => rhs; rw [hs, lines_cons_line hl, rest_cons_line, List.foldl_cons]

end NekoEcat.Lines
