import Mathlib.Data.Nat.Init

/-!
# Runs of a step function under a schedule

A system is a total step function `step : S → L → S`; a label that is not
enabled in a state leaves it unchanged. An interleaving of the system's
parties is a schedule `σ : Nat → L`, and `trace step s₀ σ n` is the state
after its first `n` labels, so a statement about every schedule and every `n`
is a statement about every state of every run.

* `trace_inv`: the invariant rule.
* `trace_inv_guarded`: the invariant rule for runs whose steps all meet a
  guard (a condition on the state before the step and the label).
* `foldl_inv_guarded`: the same for a loop over a list.
* `along_iff`: a run whose states all meet the invariant is one whose steps all
  meet the guard.
* `along_iff_forall`: a guard along a list, label by label.
* `along_congr`: two guards that the invariant makes the same.
* `trace_stays`: a property kept by every step, from some position on.
* `trace_until`: the rule for "kept until something happens".
* `trace_latch`: a property that steps set and reset, read off the history.
-/
namespace NekoEcat.Trace

variable {S L : Type}

def trace (step : S → L → S) (s0 : S) (σ : Nat → L) : Nat → S
  | 0 => s0
  | n + 1 => step (trace step s0 σ n) (σ n)

/-- The state after a finite list of labels. -/
def exec (step : S → L → S) (s : S) (ls : List L) : S := ls.foldl step s

/-- The schedule that plays `ls` and then the label `l` forever. -/
def sched (ls : List L) (l : L) (n : Nat) : L := ls.getD n l

/-- `G` holds of every label of a finite list and the state before it. -/
def Along (step : S → L → S) (G : S → L → Prop) : S → List L → Prop
  | _, [] => True
  | s, l :: ls => G s l ∧ Along step G (step s l) ls

section
variable (step : S → L → S) (s0 : S) (σ : Nat → L)

@[simp] theorem trace_zero : trace step s0 σ 0 = s0 := rfl

theorem trace_succ (n : Nat) :
    trace step s0 σ (n + 1) = step (trace step s0 σ n) (σ n) := rfl

theorem trace_inv {I : S → Prop} (h0 : I s0) (hs : ∀ s l, I s → I (step s l)) :
    ∀ n, I (trace step s0 σ n)
  | 0 => h0
  | n + 1 => hs _ _ (trace_inv h0 hs n)

theorem trace_inv_guarded {I : S → Prop} {G : S → L → Prop} (h0 : I s0)
    (hs : ∀ s l, I s → G s l → I (step s l)) :
    ∀ n, (∀ m < n, G (trace step s0 σ m) (σ m)) → I (trace step s0 σ n)
  | 0, _ => h0
  | n + 1, hg =>
    hs _ _ (trace_inv_guarded h0 hs n fun m hm => hg m (Nat.lt_succ_of_lt hm))
      (hg n (Nat.lt_succ_self n))

/-- The invariant rule for a loop over a list. -/
theorem foldl_inv_guarded {I : S → Prop} {G : S → L → Prop} (hs : ∀ s l, I s → G s l → I (step s l)) :
    ∀ {s : S} (ls : List L), I s → Along step G s ls → I (ls.foldl step s)
  | _, [], h, _ => h
  | s, l :: ls, h, hg => foldl_inv_guarded hs ls (hs s l h hg.1) hg.2

theorem along_of_forall {G : S → L → Prop} (h : ∀ s l, G s l) : ∀ (s : S) (ls : List L), Along step G s ls
  | _, [] => trivial
  | s, l :: ls => ⟨h s l, along_of_forall h (step s l) ls⟩

/-- **The guard is exact** when a step from a state of the invariant leads to one
iff it meets the guard; `J` is what every step keeps. -/
theorem along_iff {J I : S → Prop} {G : S → L → Prop} (hJ : ∀ s l, J s → J (step s l))
    (hs : ∀ s l, J s → I s → (I (step s l) ↔ G s l)) {s : S} (ls : List L) (hj : J s) (hi : I s) :
    (∀ pre, pre <+: ls → I (exec step s pre)) ↔ Along step G s ls := by
  induction ls generalizing s with
  | nil =>
    refine iff_of_true (fun pre hpre => ?_) trivial
    rw [List.prefix_nil.1 hpre]
    exact hi
  | cons l ls ih =>
    have hstep : ∀ h : I (step s l), (∀ pre, pre <+: ls → I (exec step (step s l) pre)) ↔ Along step G (step s l) ls :=
      ih (hJ s l hj)
    constructor
    · intro h
      have hfirst : I (step s l) := h [l] (List.prefix_append [l] ls)
      refine ⟨(hs s l hj hi).1 hfirst, (hstep hfirst).1 fun pre hpre => ?_⟩
      exact h (l :: pre) ((List.prefix_cons_inj l).2 hpre)
    · rintro ⟨hg, hrest⟩ pre hpre
      cases pre with
      | nil => exact hi
      | cons l' pre =>
        obtain ⟨rfl, hrestpre⟩ := List.cons_prefix_cons.1 hpre
        exact (hstep ((hs s l' hj hi).2 hg)).2 hrest pre hrestpre

/-- What holds along a list holds at each of its labels. -/
theorem along_iff_forall {G : S → L → Prop} {s : S} (ls : List L) :
    Along step G s ls ↔ ∀ pre l, pre ++ [l] <+: ls → G (exec step s pre) l := by
  induction ls generalizing s with
  | nil =>
    refine iff_of_true trivial fun pre l hpre => ?_
    simp at hpre
  | cons l ls ih =>
    constructor
    · rintro ⟨hg, hrest⟩ pre l' hpre
      cases pre with
      | nil =>
        rw [List.nil_append, List.cons_prefix_cons] at hpre
        exact hpre.1 ▸ hg
      | cons l'' pre =>
        rw [List.cons_append, List.cons_prefix_cons] at hpre
        obtain ⟨rfl, hpre⟩ := hpre
        exact ih.1 hrest pre l' hpre
    · intro h
      refine ⟨h [] l (List.prefix_append [l] ls), ih.2 fun pre l' hpre => ?_⟩
      exact h (l :: pre) l' ((List.prefix_cons_inj l).2 hpre)

/-- Two guards that say the same where the invariant holds. -/
theorem along_congr {I : S → Prop} {F G : S → L → Prop} (hs : ∀ s l, I s → (F s l ↔ G s l))
    (hI : ∀ s l, I s → G s l → I (step s l)) {s : S} (ls : List L) (hi : I s) : Along step F s ls ↔ Along step G s ls := by
  induction ls generalizing s with
  | nil => exact Iff.rfl
  | cons l ls ih =>
    constructor
    · rintro ⟨hf, hrest⟩
      have hg := (hs s l hi).1 hf
      exact ⟨hg, (ih (hI s l hi hg)).1 hrest⟩
    · rintro ⟨hg, hrest⟩
      exact ⟨(hs s l hi).2 hg, (ih (hI s l hi hg)).2 hrest⟩

theorem trace_stays {P : S → Prop} (hs : ∀ s l, P s → P (step s l)) {m n : Nat} (hmn : m ≤ n)
    (hm : P (trace step s0 σ m)) : P (trace step s0 σ n) := by
  induction n, hmn using Nat.le_induction with
  | base => exact hm
  | succ n _ ih => exact hs _ _ ih

/-- What every step but those of kind `R` keeps holds until an `R` step is
taken. -/
theorem trace_until {P : S → Prop} {R : S → L → Prop} (hs : ∀ s l, P s → R s l ∨ P (step s l))
    {m n : Nat} (hmn : m ≤ n) (hm : P (trace step s0 σ m)) :
    P (trace step s0 σ n) ∨ ∃ k, m ≤ k ∧ k < n ∧ R (trace step s0 σ k) (σ k) := by
  induction n, hmn using Nat.le_induction with
  | base => exact .inl hm
  | succ n hle ih =>
    rcases ih with hp | ⟨k, h1, h2, hr⟩
    · rcases hs _ (σ n) hp with hr | hp'
      · exact .inr ⟨n, hle, Nat.lt_succ_self n, hr⟩
      · exact .inl hp'
    · exact .inr ⟨k, h1, Nat.lt_succ_of_lt h2, hr⟩

/-- **A latch**: what `A` steps set and `R` steps reset holds iff the last of
them set it. -/
theorem trace_latch {P : S → Prop} {I : S → Prop} {A R : S → L → Prop} (hI : ∀ n, I (trace step s0 σ n)) (h0 : ¬ P s0)
    (hs : ∀ s l, I s → (P (step s l) ↔ A s l ∨ (P s ∧ ¬ R s l))) (n : Nat) :
    P (trace step s0 σ n) ↔
      ∃ m < n, A (trace step s0 σ m) (σ m) ∧ ∀ k, m < k → k < n → ¬ R (trace step s0 σ k) (σ k) := by
  induction n with
  | zero =>
    refine iff_of_false h0 ?_
    rintro ⟨m, hm, -⟩
    exact absurd hm (Nat.not_lt_zero m)
  | succ n ih =>
    rw [trace_succ, hs _ _ (hI n), ih]
    constructor
    · rintro (ha | ⟨⟨m, hm, ha, hk⟩, hr⟩)
      · exact ⟨n, Nat.lt_succ_self n, ha, fun k h1 h2 => absurd h1 (by omega)⟩
      · refine ⟨m, Nat.lt_succ_of_lt hm, ha, fun k h1 h2 => ?_⟩
        rcases Nat.lt_succ_iff_lt_or_eq.1 h2 with h2 | rfl
        · exact hk k h1 h2
        · exact hr
    · rintro ⟨m, hm, ha, hk⟩
      rcases Nat.lt_succ_iff_lt_or_eq.1 hm with hm | rfl
      · exact .inr ⟨⟨m, hm, ha, fun k h1 h2 => hk k h1 (Nat.lt_succ_of_lt h2)⟩, hk n hm (Nat.lt_succ_self n)⟩
      · exact .inl ha

end

end NekoEcat.Trace
