import Mathlib.Data.List.Basic

/-!
# Backtracking regular expressions

The expressions a line scanner uses: literals, character classes, greedy
repetition of a class, alternatives and capture groups. `run` tries the ways an
expression can match in the order of a backtracking engine and hands the rest of
the subject to its continuation; the first way the continuation accepts is the
match. A group that takes no part in the match captures `none`.

* `many_stop`: a repetition whose continuation fails on its own characters takes
  all of them.
* `many_last`: one whose rest begins in the class gives back as far as it must.
* `run_avoids`: what an expression cannot match is not looked past.
* `run_reads`, `firstMatch_reads`: what a match reads and captures.
* `globalMatch_quiet`, `globalMatch_hit`: a text is scanned piece by piece.
-/
namespace NekoEcat.Regex

inductive Re where
  | lit (text : List Char)
  /-- one character of a class -/
  | char (p : Char → Bool)
  /-- `[p]*` -/
  | many (p : Char → Bool)
  | cat (r t : Re)
  | alt (r t : Re)
  /-- a capture group -/
  | group (r : Re)

/-- `[p]+` -/
def Re.plus (p : Char → Bool) : Re := .cat (.char p) (.many p)

/-- One expression after the other. -/
def Re.seq : List Re → Re
  | [] => .lit []
  | r :: rs => .cat r (Re.seq rs)

def Re.groups : Re → Nat
  | .lit _ | .char _ | .many _ => 0
  | .cat r t | .alt r t => r.groups + t.groups
  | .group r => r.groups + 1

/-- The captures, in the order of the opening brackets. -/
abbrev Groups := List (Option (List Char))

/-- The rest of the subject, the captures so far, and what to do next. -/
abbrev Cont (β : Type) := List Char → Groups → Option β

variable {β : Type}

def many (p : Char → Bool) : List Char → (List Char → Option β) → Option β
  | [], k => k []
  | c :: s, k => if p c then (many p s k).orElse fun _ => k (c :: s) else k (c :: s)

def run : Re → List Char → Groups → Cont β → Option β
  | .lit text, s, g, k => if text.isPrefixOf s then k (s.drop text.length) g else none
  | .char _, [], _, _ => none
  | .char p, c :: s, g, k => if p c then k s g else none
  | .many p, s, g, k => many p s fun s' => k s' g
  | .cat r t, s, g, k => run r s g fun s' g' => run t s' g' k
  | .alt r t, s, g, k =>
    (run r s g fun s' g' => k s' (g' ++ List.replicate t.groups none)).orElse fun _ =>
      run t s (g ++ List.replicate r.groups none) k
  | .group r, s, g, k =>
    run r s (g ++ [none]) fun s' g' => k s' (g'.set g.length (some (s.take (s.length - s'.length))))

section
variable (p : Char → Bool) (r t : Re) (c : Char) (s : List Char) (g : Groups) (k : Cont β)

theorem many_nil (k : List Char → Option β) : many p [] k = k [] := rfl

theorem many_cons (k : List Char → Option β) :
    many p (c :: s) k = if p c then (many p s k).orElse fun _ => k (c :: s) else k (c :: s) := rfl

theorem run_text (text : List Char) :
    run (.lit text) s g k = if text.isPrefixOf s then k (s.drop text.length) g else none := rfl

theorem run_char_nil : run (.char p) [] g k = none := rfl

theorem run_char : run (.char p) (c :: s) g k = if p c then k s g else none := rfl

theorem run_cat : run (.cat r t) s g k = run r s g fun s' g' => run t s' g' k := rfl

theorem run_alt :
    run (.alt r t) s g k =
      (run r s g fun s' g' => k s' (g' ++ List.replicate t.groups none)).orElse fun _ =>
        run t s (g ++ List.replicate r.groups none) k := rfl

theorem run_group :
    run (.group r) s g k =
      run r s (g ++ [none]) fun s' g' => k s' (g'.set g.length (some (s.take (s.length - s'.length)))) := rfl

end

/-- A match at the start of the subject: the captures and the rest. -/
def matchStart (r : Re) (s : List Char) : Option (Groups × List Char) := run r s [] fun s' g => some (g, s')

/-- The matches, `skip` characters of one still to be passed over. -/
def scan (r : Re) : Nat → List Char → List (Groups × List Char)
  | _, [] => []
  | skip + 1, _ :: s => scan r skip s
  | 0, c :: s =>
    match matchStart r (c :: s) with
    | some (g, rest) => (g, rest) :: scan r (s.length - rest.length) s
    | none => scan r 0 s

/-- All matches from left to right, each with the text behind it. -/
def globalMatch (r : Re) (s : List Char) : List (Groups × List Char) := scan r 0 s

/-- The first match. -/
def firstMatch (r : Re) (s : List Char) : Option Groups := (globalMatch r s).head?.map (·.1)

/-! ## Deterministic steps -/

/-- The expression matches nothing that starts with `c`. -/
def Re.rejects (c : Char) : Re → Bool
  | .lit [] | .many _ => false
  | .lit (x :: _) => c != x
  | .char p => !p c
  | .cat r _ => r.rejects c
  | .alt r t => r.rejects c && t.rejects c
  | .group r => r.rejects c

theorem run_rejects {r : Re} {c : Char} (h : r.rejects c = true) (s : List Char) (g : Groups) (k : Cont β) :
    run r (c :: s) g k = none := by
  induction r generalizing g k with
  | lit text =>
    cases text with
    | nil => cases h
    | cons x text =>
      have hne : x ≠ c := by
        rintro rfl
        simp [Re.rejects] at h
      simp [run_text, hne]
  | char p =>
    have hp : p c = false := by simpa [Re.rejects] using h
    simp [run_char, hp]
  | many p => cases h
  | cat r t ih _ => exact ih h _ _
  | alt r t ihr iht =>
    simp only [Re.rejects, Bool.and_eq_true] at h
    rw [run_alt, ihr h.1, iht h.2]
    rfl
  | group r ih => exact ih h _ _

/-- The text does not go on with a character of the class. -/
def Stops (p : Char → Bool) (s : List Char) : Prop := ∀ c ∈ s.head?, p c = false

theorem stops_cons {p : Char → Bool} {x : Char} (h : p x = false) (s : List Char) : Stops p (x :: s) := by
  rintro _ ⟨⟩
  exact h

theorem stops_append {p : Char → Bool} {a : List Char} (hne : a ≠ []) (h : ∀ c ∈ a, p c = false) (s : List Char) :
    Stops p (a ++ s) := by
  cases a with
  | nil => exact absurd rfl hne
  | cons x a => exact stops_cons (h x List.mem_cons_self) _

theorem stops_word {p : Char → Bool} {a : List Char} (hne : a ≠ []) (h : a.any p = false) (s : List Char) :
    Stops p (a ++ s) := by
  refine stops_append hne (fun c hc => ?_) s
  simpa using List.any_eq_false.1 h c hc

/-- **A repetition that cannot give back**: the continuation fails on every
character of the class, so the longest run is the only one. -/
theorem many_stop {p : Char → Bool} {k : List Char → Option β} {a b : List Char}
    (ha : ∀ c ∈ a, p c = true) (hb : Stops p b) (hk : ∀ c t, p c = true → k (c :: t) = none) :
    many p (a ++ b) k = k b := by
  induction a with
  | nil =>
    cases b with
    | nil => rfl
    | cons c b => rw [List.nil_append, many_cons, if_neg (by rw [hb c rfl]; exact Bool.false_ne_true)]
  | cons c a ih =>
    have hc : p c = true := ha c List.mem_cons_self
    rw [List.cons_append, many_cons, if_pos hc, ih fun x hx => ha x (List.mem_cons_of_mem _ hx), hk _ _ hc]
    cases k b <;> rfl

/-- **A greedy repetition** takes the longest run when that is accepted. -/
theorem many_greedy {p : Char → Bool} {k : List Char → Option β} {a b : List Char} {y : β}
    (ha : ∀ c ∈ a, p c = true) (hb : Stops p b) (hk : k b = some y) : many p (a ++ b) k = some y := by
  induction a with
  | nil =>
    cases b with
    | nil => exact hk
    | cons c b => rw [List.nil_append, many_cons, if_neg (by rw [hb c rfl]; exact Bool.false_ne_true), hk]
  | cons c a ih =>
    rw [List.cons_append, many_cons, if_pos (ha c List.mem_cons_self), ih fun x hx => ha x (List.mem_cons_of_mem _ hx)]
    rfl

theorem many_none {p : Char → Bool} {k : List Char → Option β} {s : List Char} (h : ∀ t, t <:+ s → k t = none) :
    many p s k = none := by
  induction s with
  | nil => exact h [] List.suffix_rfl
  | cons c s ih =>
    rw [many_cons, ih fun t ht => h t (ht.trans (List.suffix_cons c s)), h _ List.suffix_rfl]
    split <;> rfl

/-- **A greedy repetition that gives back**: it ends at the last place where the
rest is accepted. -/
theorem many_last {p : Char → Bool} {k : List Char → Option β} {a : List Char} {x : Char} {b : List Char} {y : β}
    (ha : ∀ c ∈ a, p c = true) (hb : ∀ t, t <:+ b → k t = none) (hk : k (x :: b) = some y) :
    many p (a ++ x :: b) k = some y := by
  induction a with
  | nil =>
    rw [List.nil_append, many_cons, many_none hb, hk]
    split <;> rfl
  | cons c a ih =>
    rw [List.cons_append, many_cons, if_pos (ha c List.mem_cons_self), ih fun x hx => ha x (List.mem_cons_of_mem _ hx)]
    rfl

theorem run_lit {text s : List Char} {g : Groups} {k : Cont β} : run (.lit text) (text ++ s) g k = k s g := by
  rw [run_text, if_pos (by simp), List.drop_left]

theorem run_lit_ne {text s : List Char} {g : Groups} {k : Cont β} (h : ¬ text <+: s) :
    run (.lit text) s g k = none := by
  rw [run_text, if_neg (by rwa [List.isPrefixOf_iff_prefix])]

/-- A literal and what follows it. -/
theorem run_lit_cat {text s : List Char} {r : Re} {g : Groups} {k : Cont β} :
    run (.cat (.lit text) r) (text ++ s) g k = run r s g k := by
  rw [run_cat, run_lit]

theorem run_nil (s : List Char) (g : Groups) (k : Cont β) : run (.lit []) s g k = k s g := by
  cases s <;> rfl

theorem run_nil_cat (r : Re) (s : List Char) (g : Groups) (k : Cont β) : run (.cat (.lit []) r) s g k = run r s g k := by
  rw [run_cat, run_nil]

theorem run_lit_same (x : Char) (text : List Char) (r : Re) (s : List Char) (g : Groups) (k : Cont β) :
    run (.cat (.lit (x :: text)) r) (x :: s) g k = run (.cat (.lit text) r) s g k := by
  simp [run_cat, run_text]

section
variable {p : Char → Bool} {a b : List Char} {g : Groups}

/-- A run of a class, ended where the class does, with a continuation that
fails on the class. -/
theorem run_plus {k : Cont β} (hne : a ≠ []) (ha : ∀ c ∈ a, p c = true) (hb : Stops p b)
    (hk : ∀ c t, p c = true → k (c :: t) g = none) : run (.plus p) (a ++ b) g k = k b g := by
  cases a with
  | nil => exact absurd rfl hne
  | cons c a =>
    rw [Re.plus, run_cat, List.cons_append, run_char, if_pos (ha c List.mem_cons_self)]
    exact many_stop (fun y hy => ha y (List.mem_cons_of_mem _ hy)) hb hk

/-- What a group captures is what was read. -/
theorem set_capture (g : Groups) (a s : List Char) :
    (g ++ [none]).set g.length (some ((a ++ s).take ((a ++ s).length - s.length))) = g ++ [some a] := by
  have hl : (a ++ s).length - s.length = a.length := by simp
  rw [hl, List.take_left, List.set_append_right _ _ (Nat.le_refl g.length), Nat.sub_self]
  rfl

theorem run_group_greedy {k : Cont β} {y : β} (hne : a ≠ []) (ha : ∀ c ∈ a, p c = true) (hb : Stops p b)
    (hk : k b (g ++ [some a]) = some y) : run (.group (.plus p)) (a ++ b) g k = some y := by
  cases a with
  | nil => exact absurd rfl hne
  | cons c a =>
    rw [run_group, Re.plus, run_cat, List.cons_append, run_char, if_pos (ha c List.mem_cons_self)]
    refine many_greedy (fun y hy => ha y (List.mem_cons_of_mem _ hy)) hb ?_
    show k b ((g ++ [none]).set g.length (some ((c :: a ++ b).take ((c :: a ++ b).length - b.length)))) = some y
    rw [set_capture, hk]

theorem run_group_last {k : Cont β} {x : Char} {y : β} (hne : a ≠ []) (ha : ∀ c ∈ a, p c = true)
    (hb : ∀ t g', t <:+ b → k t g' = none) (hk : k (x :: b) (g ++ [some a]) = some y) :
    run (.group (.plus p)) (a ++ x :: b) g k = some y := by
  cases a with
  | nil => exact absurd rfl hne
  | cons c a =>
    rw [run_group, Re.plus, run_cat, List.cons_append, run_char, if_pos (ha c List.mem_cons_self)]
    refine many_last (fun y hy => ha y (List.mem_cons_of_mem _ hy)) (fun t ht => hb t _ ht) ?_
    show k (x :: b) ((g ++ [none]).set g.length
      (some ((c :: a ++ x :: b).take ((c :: a ++ x :: b).length - (x :: b).length)))) = some y
    rw [set_capture, hk]

theorem run_group_plus {k : Cont β} (hne : a ≠ []) (ha : ∀ c ∈ a, p c = true) (hb : Stops p b)
    (hk : ∀ c t g', p c = true → k (c :: t) g' = none) :
    run (.group (.plus p)) (a ++ b) g k = k b (g ++ [some a]) := by
  rw [run_group, run_plus hne ha hb, set_capture]
  exact fun c t hc => hk c t _ hc

/-- A captured word: a literal and a run. -/
theorem run_group_word {text : List Char} {k : Cont β} (hne : a ≠ []) (ha : ∀ c ∈ a, p c = true) (hb : Stops p b)
    (hk : ∀ c t g', p c = true → k (c :: t) g' = none) :
    run (.group (.cat (.lit text) (.plus p))) (text ++ a ++ b) g k = k b (g ++ [some (text ++ a)]) := by
  rw [run_group, run_cat, List.append_assoc, run_lit, run_plus hne ha hb, ← List.append_assoc, set_capture]
  exact fun c t hc => hk c t _ hc

variable {r : Re} {k : Cont β} (ha : ∀ c ∈ a, p c = true) (hb : Stops p b)
  (hr : ∀ c, p c = true → r.rejects c = true)
include ha hb hr

/-- The same before an expression that does not start in the class. -/
theorem run_many_cat : run (.cat (.many p) r) (a ++ b) g k = run r b g k :=
  many_stop ha hb fun c t hc => run_rejects (hr c hc) t g k

theorem run_plus_cat (hne : a ≠ []) : run (.cat (.plus p) r) (a ++ b) g k = run r b g k :=
  run_plus hne ha hb fun c t hc => run_rejects (hr c hc) t g k

theorem run_group_cat (hne : a ≠ []) :
    run (.cat (.group (.plus p)) r) (a ++ b) g k = run r b (g ++ [some a]) k :=
  run_group_plus (k := fun s' g' => run r s' g' k) hne ha hb fun c t g' hc => run_rejects (hr c hc) t g' k

theorem run_word_cat {text : List Char} (hne : a ≠ []) :
    run (.cat (.group (.cat (.lit text) (.plus p))) r) (text ++ a ++ b) g k =
      run r b (g ++ [some (text ++ a)]) k :=
  run_group_word (k := fun s' g' => run r s' g' k) hne ha hb fun c t g' hc => run_rejects (hr c hc) t g' k

end

/-! ## Characters an expression cannot match -/

/-- No way through the expression reads the character. -/
def Re.avoids (x : Char) : Re → Bool
  | .lit text => !text.contains x
  | .char p | .many p => !p x
  | .cat r t | .alt r t => r.avoids x && t.avoids x
  | .group r => r.avoids x

theorem many_append {p : Char → Bool} {x : Char} (hp : p x = false) (b : List Char) (k : List Char → Option β)
    (a : List Char) : many p (a ++ x :: b) k = many p a fun s => k (s ++ x :: b) := by
  induction a with
  | nil => simp [many_cons, many_nil, hp]
  | cons c a ih => rw [List.cons_append, many_cons, many_cons, ih]; rfl

theorem prefix_append_avoid {text : List Char} {x : Char} (hx : x ∉ text) {a b : List Char} :
    text <+: a ++ x :: b ↔ text <+: a := by
  induction text generalizing a with
  | nil => simp
  | cons c text ih =>
    rw [List.mem_cons, not_or] at hx
    cases a with
    | nil => simp [Ne.symm hx.1]
    | cons d a => rw [List.cons_append, List.cons_prefix_cons, List.cons_prefix_cons, ih hx.2]

/-- **What an expression cannot match is not looked past**: the rest behind such
a character only waits for the continuation. -/
theorem run_avoids {r : Re} {x : Char} (hr : r.avoids x = true) (a b : List Char) (g : Groups) (k : Cont β) :
    run r (a ++ x :: b) g k = run r a g fun s g' => k (s ++ x :: b) g' := by
  induction r generalizing a g k with
  | lit text =>
    have hx : x ∉ text := by simpa [Re.avoids] using hr
    by_cases h : text <+: a
    · obtain ⟨t, rfl⟩ := h
      rw [List.append_assoc, run_lit, run_lit]
    · rw [run_lit_ne h, run_lit_ne (mt (prefix_append_avoid hx).1 h)]
  | char p =>
    have hx : p x = false := by simpa [Re.avoids] using hr
    cases a with
    | nil => simp [run_char, run_char_nil, hx]
    | cons c a => rfl
  | many p => exact many_append (by simpa [Re.avoids] using hr) b _ a
  | cat r t ihr iht =>
    simp only [Re.avoids, Bool.and_eq_true] at hr
    rw [run_cat, run_cat, ihr hr.1]
    simp only [iht hr.2]
  | alt r t ihr iht =>
    simp only [Re.avoids, Bool.and_eq_true] at hr
    rw [run_alt, run_alt, ihr hr.1, iht hr.2]
  | group r ih =>
    rw [run_group, run_group, ih hr]
    congr 1
    funext s g'
    have hl : (a ++ x :: b).length - (s ++ x :: b).length = a.length - s.length := by
      simp only [List.length_append]; omega
    rw [hl, List.take_append_of_le_length (Nat.sub_le _ _)]

theorem many_map {γ : Type} (f : β → γ) (p : Char → Bool) (k : List Char → Option β) (s : List Char) :
    (many p s k).map f = many p s fun s' => (k s').map f := by
  induction s with
  | nil => rfl
  | cons c s ih =>
    rw [many_cons, many_cons, ← ih]
    split
    · cases many p s k <;> rfl
    · rfl

/-- What is done with the result can be done by the continuation. -/
theorem run_map {γ : Type} (f : β → γ) (r : Re) (s : List Char) (g : Groups) (k : Cont β) :
    (run r s g k).map f = run r s g fun s' g' => (k s' g').map f := by
  induction r generalizing s g k with
  | lit text => rw [run_text, run_text]; split <;> rfl
  | char p =>
    cases s with
    | nil => rfl
    | cons c s => rw [run_char, run_char]; split <;> rfl
  | many p => exact many_map f p _ s
  | cat r t ihr iht =>
    rw [run_cat, run_cat, ihr]
    simp only [iht]
  | alt r t ihr iht =>
    rw [run_alt, run_alt, ← ihr, ← iht]
    cases run r s g _ <;> rfl
  | group r ih => rw [run_group, run_group, ih]

/-- A match of an expression that cannot read `x` ends before it. -/
theorem matchStart_avoids {r : Re} {x : Char} (hr : r.avoids x = true) (a b : List Char) :
    matchStart r (a ++ x :: b) = (matchStart r a).map fun m => (m.1, m.2 ++ x :: b) := by
  rw [matchStart, matchStart, run_avoids hr, run_map]
  rfl

/-! ## What a match reads -/

/-- The expression reads `a` and captures `caps`. -/
def Re.Reads : Re → List Char → Groups → Prop
  | .lit text, a, caps => a = text ∧ caps = []
  | .char p, a, caps => (∃ c, a = [c] ∧ p c = true) ∧ caps = []
  | .many p, a, caps => (∀ c ∈ a, p c = true) ∧ caps = []
  | .cat r t, a, caps => ∃ a₁ a₂ c₁ c₂, a = a₁ ++ a₂ ∧ caps = c₁ ++ c₂ ∧ r.Reads a₁ c₁ ∧ t.Reads a₂ c₂
  | .alt r t, a, caps =>
    (∃ c, r.Reads a c ∧ caps = c ++ List.replicate t.groups none) ∨
      ∃ c, t.Reads a c ∧ caps = List.replicate r.groups none ++ c
  | .group r, a, caps => ∃ c, r.Reads a c ∧ caps = some a :: c

theorem many_reads {p : Char → Bool} {s : List Char} {k : List Char → Option β} {y : β} (h : many p s k = some y) :
    ∃ a s', s = a ++ s' ∧ (∀ c ∈ a, p c = true) ∧ k s' = some y := by
  induction s with
  | nil => exact ⟨[], [], rfl, by simp, h⟩
  | cons c s ih =>
    have hstop : k (c :: s) = some y → ∃ a s', c :: s = a ++ s' ∧ (∀ c ∈ a, p c = true) ∧ k s' = some y :=
      fun hk => ⟨[], c :: s, rfl, by simp, hk⟩
    rw [many_cons] at h
    split at h
    · rename_i hc
      cases hm : many p s k with
      | none =>
        rw [hm] at h
        exact hstop h
      | some z =>
        rw [hm] at h
        obtain ⟨a, s', rfl, ha, hk⟩ := ih (hm.trans h)
        refine ⟨c :: a, s', rfl, fun d hd => ?_, hk⟩
        rcases List.mem_cons.1 hd with rfl | hd
        · exact hc
        · exact ha d hd
    · exact hstop h

/-- **A match reads a text of the expression.** -/
theorem run_reads {r : Re} {s : List Char} {g : Groups} {k : Cont β} {y : β} (h : run r s g k = some y) :
    ∃ a s' caps, s = a ++ s' ∧ r.Reads a caps ∧ k s' (g ++ caps) = some y := by
  induction r generalizing s g k with
  | lit text =>
    rw [run_text] at h
    split at h
    · rename_i hpre
      obtain ⟨t, rfl⟩ := List.isPrefixOf_iff_prefix.1 hpre
      rw [List.drop_left] at h
      exact ⟨text, t, [], rfl, ⟨rfl, rfl⟩, by rwa [List.append_nil]⟩
    · cases h
  | char p =>
    cases s with
    | nil => cases h
    | cons c s =>
      rw [run_char] at h
      split at h
      · rename_i hc
        exact ⟨[c], s, [], rfl, ⟨⟨c, rfl, hc⟩, rfl⟩, by rwa [List.append_nil]⟩
      · cases h
  | many p =>
    obtain ⟨a, s', hs, ha, hk⟩ := many_reads h
    exact ⟨a, s', [], hs, ⟨ha, rfl⟩, by rwa [List.append_nil]⟩
  | cat r t ihr iht =>
    obtain ⟨a₁, s₁, c₁, rfl, hr, h₁⟩ := ihr h
    obtain ⟨a₂, s₂, c₂, rfl, ht, h₂⟩ := iht h₁
    exact ⟨a₁ ++ a₂, s₂, c₁ ++ c₂, (List.append_assoc _ _ _).symm, ⟨a₁, a₂, c₁, c₂, rfl, rfl, hr, ht⟩,
      by rwa [← List.append_assoc]⟩
  | alt r t ihr iht =>
    rw [run_alt] at h
    cases hr : run r s g fun s' g' => k s' (g' ++ List.replicate t.groups none) with
    | some z =>
      rw [hr] at h
      obtain ⟨a, s', c, hs, hreads, hk⟩ := ihr (hr.trans h)
      exact ⟨a, s', _, hs, Or.inl ⟨c, hreads, rfl⟩, by rwa [← List.append_assoc]⟩
    | none =>
      rw [hr] at h
      obtain ⟨a, s', c, hs, hreads, hk⟩ := iht h
      exact ⟨a, s', _, hs, Or.inr ⟨c, hreads, rfl⟩, by rwa [← List.append_assoc]⟩
  | group r ih =>
    obtain ⟨a, s', c, rfl, hreads, hk⟩ := ih h
    refine ⟨a, s', some a :: c, rfl, ⟨c, hreads, rfl⟩, ?_⟩
    have hset : (g ++ [none] ++ c).set g.length (some ((a ++ s').take ((a ++ s').length - s'.length))) =
        g ++ some a :: c := by
      have hl : (a ++ s').length - s'.length = a.length := by simp
      rw [hl, List.take_left, List.append_assoc, List.set_append_right _ _ (Nat.le_refl g.length), Nat.sub_self]
      rfl
    rwa [hset] at hk

theorem scan_reads {r : Re} {skip : Nat} {s : List Char} {m : Groups × List Char} (h : m ∈ scan r skip s) :
    ∃ a, a <:+: s ∧ r.Reads a m.1 := by
  induction s generalizing skip with
  | nil => cases skip <;> cases h
  | cons c s ih =>
    have hrest : ∀ n, m ∈ scan r n s → ∃ a, a <:+: c :: s ∧ r.Reads a m.1 := by
      intro n hn
      obtain ⟨a, ha, hreads⟩ := ih hn
      exact ⟨a, ha.trans (List.suffix_cons c s).isInfix, hreads⟩
    cases skip with
    | succ skip => exact hrest skip h
    | zero =>
      cases hm : matchStart r (c :: s) with
      | none =>
        simp only [scan, hm] at h
        exact hrest 0 h
      | some m' =>
        simp only [scan, hm, List.mem_cons] at h
        rcases h with rfl | h
        · obtain ⟨a, s', caps, hs, hreads, hk⟩ := run_reads hm
          cases hk
          exact ⟨a, ⟨[], s', by rw [hs]; rfl⟩, hreads⟩
        · exact hrest _ h

/-- What the first match captures. -/
theorem firstMatch_reads {r : Re} {s : List Char} {g : Groups} (h : firstMatch r s = some g) :
    ∃ a, a <:+: s ∧ r.Reads a g := by
  rw [firstMatch, Option.map_eq_some_iff] at h
  obtain ⟨m, hm, rfl⟩ := h
  exact scan_reads (List.mem_of_mem_head? hm)

theorem Re.Reads.length {r : Re} {a : List Char} {caps : Groups} (h : r.Reads a caps) : caps.length = r.groups := by
  induction r generalizing a caps with
  | lit text => rw [h.2]; rfl
  | char p => rw [h.2]; rfl
  | many p => rw [h.2]; rfl
  | cat r t ihr iht =>
    obtain ⟨a₁, a₂, c₁, c₂, -, rfl, hr, ht⟩ := h
    rw [List.length_append, ihr hr, iht ht]
    rfl
  | alt r t ihr iht =>
    rcases h with ⟨c, hr, rfl⟩ | ⟨c, ht, rfl⟩
    · rw [List.length_append, ihr hr, List.length_replicate]
      rfl
    · rw [List.length_append, iht ht, List.length_replicate]
      rfl
  | group r ih =>
    obtain ⟨c, hr, rfl⟩ := h
    rw [List.length_cons, ih hr]
    rfl

/-- A run of a class. -/
theorem reads_plus {p : Char → Bool} {a : List Char} {caps : Groups} (h : (Re.plus p).Reads a caps) :
    a ≠ [] ∧ (∀ c ∈ a, p c = true) ∧ caps = [] := by
  obtain ⟨a₁, a₂, c₁, c₂, rfl, rfl, ⟨⟨c, rfl, hc⟩, rfl⟩, ha₂, rfl⟩ := h
  refine ⟨by simp, fun d hd => ?_, rfl⟩
  rcases List.mem_cons.1 hd with rfl | hd
  · exact hc
  · exact ha₂ d hd

/-- The captures of a part without groups. -/
theorem reads_cat_plain {r t : Re} (hr : r.groups = 0) {a : List Char} {caps : Groups} (h : (Re.cat r t).Reads a caps) :
    ∃ a₁ a₂, a = a₁ ++ a₂ ∧ r.Reads a₁ [] ∧ t.Reads a₂ caps := by
  obtain ⟨a₁, a₂, c₁, c₂, rfl, rfl, h₁, h₂⟩ := h
  have hnil : c₁ = [] := List.length_eq_zero_iff.1 (h₁.length.trans hr)
  subst hnil
  exact ⟨a₁, a₂, rfl, h₁, h₂⟩

/-- The first capture is that of a group in front. -/
theorem reads_cat_group {r t : Re} {a : List Char} {caps : Groups} (h : (Re.cat (.group r) t).Reads a caps) :
    ∃ a₁ c₁ caps', caps = some a₁ :: caps' ∧ r.Reads a₁ c₁ := by
  obtain ⟨a₁, a₂, c₁, c₂, rfl, rfl, ⟨c, hr, rfl⟩, -⟩ := h
  exact ⟨a₁, c, c ++ c₂, rfl, hr⟩

/-! ## Scanning piece by piece -/

/-- No match starts in the piece, whatever follows it. -/
def Quiet (r : Re) (a b : List Char) : Prop := ∀ t, t ≠ [] → t <:+ a → matchStart r (t ++ b) = none

theorem globalMatch_skip {r : Re} {c : Char} {s : List Char} (h : matchStart r (c :: s) = none) :
    globalMatch r (c :: s) = globalMatch r s := by
  simp only [globalMatch, scan, h]

theorem firstMatch_start {r : Re} {s rest : List Char} {g : Groups} (hs : s ≠ [])
    (h : matchStart r s = some (g, rest)) : firstMatch r s = some g := by
  cases s with
  | nil => exact absurd rfl hs
  | cons c s => simp only [firstMatch, globalMatch, scan, h, List.head?_cons, Option.map_some]

/-- **A quiet piece is passed over.** -/
theorem globalMatch_quiet {r : Re} {a b : List Char} (h : Quiet r a b) :
    globalMatch r (a ++ b) = globalMatch r b := by
  induction a with
  | nil => rfl
  | cons c a ih =>
    have hc : matchStart r (c :: (a ++ b)) = none := h (c :: a) (List.cons_ne_nil _ _) List.suffix_rfl
    rw [List.cons_append, globalMatch_skip hc, ih fun t ht hs => h t ht (hs.trans (List.suffix_cons c a))]

theorem scan_drop (r : Re) (a b : List Char) : scan r a.length (a ++ b) = globalMatch r b := by
  induction a with
  | nil => rfl
  | cons c a ih => exact ih

/-- **A match is recorded**, and the scan goes on behind it. -/
theorem globalMatch_hit {r : Re} {a b : List Char} {g : Groups} (hne : a ≠ [])
    (h : matchStart r (a ++ b) = some (g, b)) : globalMatch r (a ++ b) = (g, b) :: globalMatch r b := by
  cases a with
  | nil => exact absurd rfl hne
  | cons c a =>
    rw [List.cons_append] at h ⊢
    have hl : (a ++ b).length - b.length = a.length := by simp
    simp only [globalMatch, scan, h, hl]
    rw [scan_drop]
    rfl

/-- An expression that starts with a literal finds nothing where its first
character does not occur. -/
theorem quiet_of_not_mem {r : Re} {x : Char} (hr : ∀ c s, c ≠ x → matchStart r (c :: s) = none) {a : List Char}
    (h : x ∉ a) (b : List Char) : Quiet r a b := by
  intro t ht hs
  cases t with
  | nil => exact absurd rfl ht
  | cons c t => exact hr c _ fun hc => h (hs.subset (hc ▸ List.mem_cons_self))

/-- A piece in which nothing is found on its own, ended by a character the
expression cannot read. -/
theorem quiet_of_globalMatch {r : Re} {x : Char} (hr : r.avoids x = true) {a : List Char}
    (h : globalMatch r a = []) (b : List Char) : Quiet r a (x :: b) := by
  induction a with
  | nil => intro t ht hs; exact absurd (List.suffix_nil.1 hs) ht
  | cons c a ih =>
    have hc : matchStart r (c :: a) = none := by
      cases hm : matchStart r (c :: a) with
      | none => rfl
      | some m => simp [globalMatch, scan, hm] at h
    rw [globalMatch_skip hc] at h
    intro t ht hs
    rcases List.suffix_cons_iff.1 hs with rfl | hs
    · rw [matchStart_avoids hr, hc]; rfl
    · exact ih h t ht hs

end NekoEcat.Regex
