import NekoEcat.Core.Regex

/-!
# Expressions for a whole line

`^head(p+?)tail$`: a free text that is taken as short as possible, between two
expressions that are tied to the ends of the line.

* `run_complete`: a way to read the subject is found.
* `matchLine_reads`, `matchLine_complete`: the lines that match, and what is captured.
* `append_unique`, `append_unique_right`: a text is cut in one way only where a class ends.
-/
namespace NekoEcat.Regex

variable {β : Type}

/-- `p*?` -/
def lazily (p : Char → Bool) : List Char → (List Char → Option β) → Option β
  | [], k => k []
  | c :: s, k => (k (c :: s)).orElse fun _ => if p c then lazily p s k else none

/-- `(p+?)` -/
def runLazy (p : Char → Bool) (s : List Char) (g : Groups) (k : Cont β) : Option β :=
  match s with
  | [] => none
  | c :: t => if p c then lazily p t fun s' => k s' (g ++ [some (s.take (s.length - s'.length))]) else none

/-- `$` -/
def atEnd : Cont Groups
  | [], g => some g
  | _ :: _, _ => none

/-- `^head(p+?)tail$` -/
def matchLine (head : Re) (p : Char → Bool) (tail : Re) (line : List Char) : Option Groups :=
  run head line [] fun s g => runLazy p s g fun s' g' => run tail s' g' atEnd

/-! ## Every way is tried -/

theorem many_complete {p : Char → Bool} {a s : List Char} {k : List Char → Option β} (ha : ∀ c ∈ a, p c = true)
    (hk : (k s).isSome = true) : (many p (a ++ s) k).isSome = true := by
  induction a with
  | nil =>
    cases s with
    | nil => exact hk
    | cons c s =>
      rw [List.nil_append, many_cons]
      split
      · cases many p s k with
        | none => exact hk
        | some y => rfl
      · exact hk
  | cons c a ih =>
    have hrest := ih fun d hd => ha d (List.mem_cons_of_mem c hd)
    rw [List.cons_append, many_cons, if_pos (ha c List.mem_cons_self)]
    obtain ⟨y, hy⟩ := Option.isSome_iff_exists.1 hrest
    rw [hy]
    rfl

/-- **A way to read the subject is found.** -/
theorem run_complete {r : Re} {a s : List Char} {caps g : Groups} {k : Cont β} (h : r.Reads a caps)
    (hk : (k s (g ++ caps)).isSome = true) : (run r (a ++ s) g k).isSome = true := by
  induction r generalizing a caps s g k with
  | lit text =>
    obtain ⟨rfl, rfl⟩ := h
    rwa [run_lit, ← List.append_nil g]
  | char p =>
    obtain ⟨⟨c, rfl, hc⟩, rfl⟩ := h
    rw [List.append_nil] at hk
    rwa [List.singleton_append, run_char, if_pos hc]
  | many p =>
    obtain ⟨ha, rfl⟩ := h
    rw [List.append_nil] at hk
    exact many_complete ha hk
  | cat r t ihr iht =>
    obtain ⟨a₁, a₂, c₁, c₂, rfl, rfl, hr, ht⟩ := h
    rw [run_cat, List.append_assoc]
    exact ihr hr (iht ht (by rwa [List.append_assoc]))
  | alt r t ihr iht =>
    rw [run_alt]
    rcases h with ⟨c, hr, rfl⟩ | ⟨c, ht, rfl⟩
    · have hleft := ihr (k := fun s' g' => k s' (g' ++ List.replicate t.groups none)) hr (by rwa [List.append_assoc])
      obtain ⟨y, hy⟩ := Option.isSome_iff_exists.1 hleft
      rw [hy]
      rfl
    · have hright := iht (g := g ++ List.replicate r.groups none) ht (by rwa [List.append_assoc])
      cases run r (a ++ s) g fun s' g' => k s' (g' ++ List.replicate t.groups none) with
      | none => exact hright
      | some y => rfl
  | group r ih =>
    obtain ⟨c, hr, rfl⟩ := h
    rw [run_group]
    refine ih hr ?_
    have hset : (g ++ [none] ++ c).set g.length (some ((a ++ s).take ((a ++ s).length - s.length))) =
        g ++ some a :: c := by
      have hl : (a ++ s).length - s.length = a.length := by simp
      rw [hl, List.take_left, List.append_assoc, List.set_append_right _ _ (Nat.le_refl g.length), Nat.sub_self]
      rfl
    rwa [hset]

theorem lazily_reads {p : Char → Bool} {s : List Char} {k : List Char → Option β} {y : β} (h : lazily p s k = some y) :
    ∃ a s', s = a ++ s' ∧ (∀ c ∈ a, p c = true) ∧ k s' = some y := by
  induction s with
  | nil => exact ⟨[], [], rfl, by simp, h⟩
  | cons c s ih =>
    rw [lazily] at h
    cases hk : k (c :: s) with
    | some z =>
      rw [hk] at h
      exact ⟨[], c :: s, rfl, by simp, hk.trans h⟩
    | none =>
      rw [hk] at h
      change (if p c = true then lazily p s k else none) = some y at h
      split at h
      · rename_i hc
        obtain ⟨a, s', rfl, ha, hy⟩ := ih h
        exact ⟨c :: a, s', rfl, List.forall_mem_cons.2 ⟨hc, ha⟩, hy⟩
      · cases h

theorem lazily_complete {p : Char → Bool} {a s : List Char} {k : List Char → Option β} (ha : ∀ c ∈ a, p c = true)
    (hk : (k s).isSome = true) : (lazily p (a ++ s) k).isSome = true := by
  induction a with
  | nil =>
    cases s with
    | nil => exact hk
    | cons c s =>
      obtain ⟨y, hy⟩ := Option.isSome_iff_exists.1 hk
      rw [List.nil_append, lazily, hy]
      rfl
  | cons c a ih =>
    have hrest := ih fun d hd => ha d (List.mem_cons_of_mem c hd)
    rw [List.cons_append, lazily]
    cases k (c :: (a ++ s)) with
    | some z => rfl
    | none =>
      show (if p c = true then lazily p (a ++ s) k else none).isSome = true
      rwa [if_pos (ha c List.mem_cons_self)]

/-! ## The lines that match -/

section
variable {head tail : Re} {p : Char → Bool} {line : List Char}

theorem matchLine_reads {g : Groups} (h : matchLine head p tail line = some g) :
    ∃ a name b c₁ c₂, line = a ++ (name ++ b) ∧ name ≠ [] ∧ (∀ c ∈ name, p c = true) ∧ head.Reads a c₁ ∧
      tail.Reads b c₂ ∧ g = c₁ ++ some name :: c₂ := by
  obtain ⟨a, s, c₁, rfl, hhead, hs⟩ := run_reads h
  cases s with
  | nil => cases hs
  | cons c t =>
    change (if p c = true then lazily p t _ else none) = some g at hs
    split at hs
    · rename_i hc
      obtain ⟨name, b, rfl, hname, hb⟩ := lazily_reads hs
      obtain ⟨b', s', c₂, rfl, htail, hend⟩ := run_reads hb
      cases s' with
      | cons d s' => cases hend
      | nil =>
        cases hend
        refine ⟨a, c :: name, b', c₁, c₂, by simp, List.cons_ne_nil c name, List.forall_mem_cons.2 ⟨hc, hname⟩,
          hhead, htail, ?_⟩
        have hl : (c :: (name ++ (b' ++ []))).length - (b' ++ []).length = (c :: name).length := by
          simp only [List.length_cons, List.length_append]
          omega
        rw [hl, ← List.cons_append, List.take_left]
        simp
    · cases hs

theorem matchLine_complete {a name b : List Char} {c₁ c₂ : Groups} (hline : line = a ++ (name ++ b)) (hne : name ≠ [])
    (hname : ∀ c ∈ name, p c = true) (hhead : head.Reads a c₁) (htail : tail.Reads b c₂) :
    (matchLine head p tail line).isSome = true := by
  obtain ⟨c, name, rfl⟩ := List.exists_cons_of_ne_nil hne
  rw [List.forall_mem_cons] at hname
  rw [hline]
  refine run_complete hhead ?_
  show (if p c = true then lazily p (name ++ b) _ else none).isSome = true
  rw [if_pos hname.1]
  refine lazily_complete hname.2 ?_
  have hfound := run_complete (s := []) (k := atEnd)
    (g := [] ++ c₁ ++ [some ((c :: (name ++ b)).take ((c :: (name ++ b)).length - b.length))]) htail rfl
  rwa [List.append_nil] at hfound

end

theorem plus_reads {p : Char → Bool} {a : List Char} (hne : a ≠ []) (ha : ∀ c ∈ a, p c = true) :
    (Re.plus p).Reads a [] := by
  obtain ⟨c, a, rfl⟩ := List.exists_cons_of_ne_nil hne
  rw [List.forall_mem_cons] at ha
  exact ⟨[c], a, [], [], rfl, rfl, ⟨⟨c, rfl, ha.1⟩, rfl⟩, ha.2, rfl⟩

/-- An alternative without groups. -/
theorem alt_reads {r t : Re} (hr : r.groups = 0) (ht : t.groups = 0) {a : List Char} {caps : Groups} :
    (Re.alt r t).Reads a caps ↔ r.Reads a caps ∨ t.Reads a caps := by
  simp only [Re.Reads, hr, ht, List.replicate_zero, List.append_nil, List.nil_append, exists_eq_right']

/-- A literal and a run of a class. -/
theorem word_reads {p : Char → Bool} {text a : List Char} {caps : Groups} :
    (Re.cat (.lit text) (.plus p)).Reads a caps ↔ ∃ d, d ≠ [] ∧ (∀ c ∈ d, p c = true) ∧ a = text ++ d ∧ caps = [] := by
  constructor
  · rintro ⟨a₁, d, c₁, c₂, rfl, rfl, ⟨rfl, rfl⟩, hd⟩
    obtain ⟨hne, hall, rfl⟩ := reads_plus hd
    exact ⟨d, hne, hall, rfl, rfl⟩
  · rintro ⟨d, hne, hall, rfl, rfl⟩
    exact ⟨text, d, [], [], rfl, rfl, ⟨rfl, rfl⟩, plus_reads hne hall⟩

/-! ## Where a text is cut -/

section
variable {p : Char → Bool} {a a' b b' : List Char}

theorem stops_reverse_append (a : List Char) (hne : b ≠ []) (hb : ∀ c ∈ b, p c = false) : Stops p (a ++ b).reverse := by
  rw [List.reverse_append]
  exact stops_append (List.reverse_ne_nil_iff.2 hne) (fun c hc => hb c (List.mem_reverse.1 hc)) a.reverse

theorem append_unique (ha : ∀ c ∈ a, p c = true) (ha' : ∀ c ∈ a', p c = true) (hb : Stops p b) (hb' : Stops p b')
    (h : a ++ b = a' ++ b') : a = a' ∧ b = b' := by
  have htake : ∀ {x y : List Char}, (∀ c ∈ x, p c = true) → Stops p y → (x ++ y).takeWhile p = x := by
    intro x y hx hy
    rw [List.takeWhile_append_of_pos hx]
    cases y with
    | nil => simp
    | cons c y => rw [List.takeWhile_cons, hy c rfl]; simp
  have heq : a = a' := by rw [← htake ha hb, h, htake ha' hb']
  exact ⟨heq, List.append_cancel_left (heq ▸ h)⟩

/-- The same from the end. -/
theorem append_unique_right (hb : ∀ c ∈ b, p c = true) (hb' : ∀ c ∈ b', p c = true) (ha : Stops p a.reverse)
    (ha' : Stops p a'.reverse) (h : a ++ b = a' ++ b') : a = a' ∧ b = b' := by
  have hrev := congrArg List.reverse h
  rw [List.reverse_append, List.reverse_append] at hrev
  obtain ⟨hbs, has⟩ := append_unique (fun c hc => hb c (List.mem_reverse.1 hc))
    (fun c hc => hb' c (List.mem_reverse.1 hc)) ha ha' hrev
  exact ⟨List.reverse_injective has, List.reverse_injective hbs⟩

end

end NekoEcat.Regex
