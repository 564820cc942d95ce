import Mathlib.Data.List.Basic

/-!
# Reading back what was written

A reader takes a value off the front of a text. `Reads F r w a` says that it takes `a`
off `w` whatever follows, if that satisfies `F`: a part that may be left out, or come
several times, is told by the text it starts with, so that what follows must not start
so too.

* `Reads.bind`: one part after the other.
* `reads_leaf`: a text between two fixed ones.
* `reads_present`, `reads_absent`, `reads_many`: parts that may be left out, and lists.
-/
namespace NekoEcat.Reading

abbrev Text := List Char

/-- A value, and the text behind it. -/
abbrev Reader (α : Type) := StateT Text Option α

variable {α β : Type}

def literal (w : Text) : Reader Unit := fun s => if w.isPrefixOf s then some ((), s.drop w.length) else none

/-- The text in front of a character. -/
def upTo (c : Char) : Reader Text := fun s => some (s.takeWhile (· != c), s.dropWhile (· != c))

/-- What stands between two texts. -/
def leaf (opening closing : Text) (decode : Text → Option α) : Reader α := do
  literal opening
  let t ← upTo '<'
  literal closing
  fun s => (decode t).map fun a => (a, s)

/-- A part that starts with `mark`, or nothing. -/
def optional (mark : Text) (r : Reader α) (absent : α) : Reader α := fun s =>
  if mark.isPrefixOf s then r s else some (absent, s)

def manyFuel (mark : Text) (r : Reader α) : Nat → Reader (List α)
  | 0 => pure []
  | fuel + 1 =>
    optional mark (do
      let a ← r
      let rest ← manyFuel mark r fuel
      pure (a :: rest)) []

/-- Parts that start with `mark`. -/
def many (mark : Text) (r : Reader α) : Reader (List α) := fun s => manyFuel mark r s.length s

/-- The whole text. -/
def readAll (r : Reader α) (s : Text) : Option α :=
  match r s with
  | some (a, []) => some a
  | _ => none

/-! ## Laws -/

def Reads (F : Text → Prop) (r : Reader α) (w : Text) (a : α) : Prop := ∀ rest, F rest → r (w ++ rest) = some (a, rest)

/-- Whatever follows. -/
abbrev Always : Text → Prop := fun _ => True

/-- What follows does not start with `mark`. -/
abbrev Unmarked (mark : Text) : Text → Prop := fun rest => mark.isPrefixOf rest = false

section
variable {F G : Text → Prop} {r : Reader α} {w w' : Text} {a : α}

theorem Reads.mono (h : Reads G r w a) (hF : ∀ rest, F rest → G rest) : Reads F r w a := fun rest hrest =>
  h rest (hF rest hrest)

theorem reads_pure : Reads F (pure a : Reader α) [] a := fun _ _ => rfl

theorem reads_eq {b : α} (h : a = b) : Reads F (pure a : Reader α) [] b := h ▸ reads_pure

/-- **One part after the other**, with what the first needs to follow it. -/
theorem Reads.bind {f : α → Reader β} {b : β} (h : Reads G r w a) (h' : Reads F (f a) w' b)
    (hG : ∀ rest, F rest → G (w' ++ rest)) : Reads F (r >>= f) (w ++ w') b := by
  intro rest hrest
  have hfirst := h (w' ++ rest) (hG rest hrest)
  show (r (w ++ w' ++ rest)).bind (fun p => f p.1 p.2) = _
  rw [List.append_assoc, hfirst]
  exact h' rest hrest

/-- The same for a part that anything may follow. -/
theorem Reads.then {f : α → Reader β} {b : β} (h : Reads Always r w a) (h' : Reads F (f a) w' b) :
    Reads F (r >>= f) (w ++ w') b :=
  h.bind h' fun _ _ => trivial

/-- The last part, and what is made of it. -/
theorem Reads.last {f : α → Reader β} {b : β} (h : Reads G r w a) (h' : Reads F (f a) [] b)
    (hG : ∀ rest, F rest → G rest := by intros; trivial) : Reads F (r >>= f) w b := by
  have hboth := h.bind h' hG
  rwa [List.append_nil] at hboth

theorem reads_literal (w : Text) : Reads Always (literal w) w () := by
  intro rest _
  have hpre : w.isPrefixOf (w ++ rest) = true := List.isPrefixOf_iff_prefix.2 (List.prefix_append w rest)
  rw [literal, if_pos hpre, List.drop_left]

theorem reads_upTo {c : Char} (h : c ∉ w) : Reads (fun rest => rest.head? = some c) (upTo c) w w := by
  intro rest hrest
  have hall : ∀ d ∈ w, (d != c) = true := fun d hd => by simpa using ne_of_mem_of_not_mem hd h
  obtain ⟨d, rest, rfl⟩ := List.exists_cons_of_ne_nil (l := rest) (by rintro rfl; cases hrest)
  obtain rfl : d = c := Option.some.inj hrest
  rw [upTo, List.takeWhile_append_of_pos hall, List.dropWhile_append_of_pos hall]
  simp

/-- **A text between two fixed ones** is read if it has no markup. -/
theorem reads_leaf {opening closing : Text} {decode : Text → Option α} (hclosing : closing.head? = some '<')
    (hw : '<' ∉ w) (hdecode : decode w = some a) : Reads Always (leaf opening closing decode) (opening ++ (w ++ closing)) a := by
  have hend : Reads Always (fun s => (decode w).map fun a => (a, s)) [] a := fun rest _ => by
    rw [hdecode]
    rfl
  refine (reads_literal opening).then ((reads_upTo hw).bind ((reads_literal closing).last hend) fun rest _ => ?_)
  · obtain ⟨c, closing, rfl⟩ := List.exists_cons_of_ne_nil (l := closing) (by rintro rfl; cases hclosing)
    exact hclosing

/-- A part that starts with its mark is there. -/
theorem reads_present {mark : Text} {absent : α} (h : Reads F r w a) (hw : mark <+: w) :
    Reads F (optional mark r absent) w a := by
  intro rest hrest
  have hpre : mark.isPrefixOf (w ++ rest) = true :=
    List.isPrefixOf_iff_prefix.2 (hw.trans (List.prefix_append w rest))
  rw [optional, if_pos hpre]
  exact h rest hrest

theorem reads_absent {mark : Text} {absent : α} : Reads (Unmarked mark) (optional mark r absent) [] absent := by
  intro rest hrest
  rw [List.nil_append, optional, if_neg (by rw [hrest]; exact Bool.false_ne_true)]

/-- **A list of parts** is read up to what does not start like one. -/
theorem reads_many {mark : Text} {write : α → Text} (hne : mark ≠ []) (h : ∀ a, Reads Always r (write a) a)
    (hmark : ∀ a, mark <+: write a) (as : List α) : Reads (Unmarked mark) (many mark r) (as.flatMap write) as := by
  have hpositive : ∀ a, 0 < (write a).length := fun a => by
    have hle := (hmark a).length_le
    have hpos := List.length_pos_iff.2 hne
    omega
  have hfuel : ∀ (as : List α) (n : Nat), (as.flatMap write).length ≤ n →
      Reads (Unmarked mark) (manyFuel mark r n) (as.flatMap write) as := by
    intro as
    induction as with
    | nil =>
      intro n _
      cases n with
      | zero => exact reads_pure
      | succ n => exact reads_absent
    | cons a as ih =>
      intro n hn
      rw [List.flatMap_cons, List.length_append] at hn
      have hpos := hpositive a
      obtain ⟨n, rfl⟩ := Nat.exists_eq_succ_of_ne_zero (by omega : n ≠ 0)
      rw [List.flatMap_cons]
      refine reads_present ?_ ((hmark a).trans (List.prefix_append _ _))
      exact (h a).then ((ih n (by omega)).last reads_pure)
  intro rest hrest
  refine (hfuel as _ ?_) rest hrest
  rw [List.length_append]
  exact Nat.le_add_right _ _

theorem readAll_eq (h : Reads F r w a) (hF : F []) : readAll r w = some a := by
  have hend := h [] hF
  rw [List.append_nil] at hend
  rw [readAll, hend]

end

end NekoEcat.Reading
