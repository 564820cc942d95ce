import Mathlib.Data.List.Basic

/-!
# Operations that may stop half way

A step of a longer construction succeeds in a new state or stops with an error
in the state it got to, where the caller still has to undo what was done. The
rules are those of a logic with two postconditions, one for each ending.

* `Triple.ok`, `Triple.error`: the two endings.
* `Triple.andThen`, `Triple.each`: sequencing and loops.
* `Commutes`: a change of the state that an operation does not see.
-/
namespace NekoEcat.Fallible

variable {ε σ α : Type}

abbrev Op (ε σ : Type) := σ → Except (ε × σ) σ

namespace Op

def andThen (f g : Op ε σ) : Op ε σ := fun s =>
  match f s with
  | .ok s' => g s'
  | .error e => .error e

/-- A step that cannot fail. -/
def pure (f : σ → σ) : Op ε σ := fun s => .ok (f s)

/-- The loop over a list, with the position. -/
def each (body : Nat → α → Op ε σ) : Nat → List α → Op ε σ
  | _, [] => pure id
  | n, x :: xs => (body n x).andThen (each body (n + 1) xs)

end Op

/-- From `P`, a success ends in `Q` and a failure in `E`. -/
def Triple (P : σ → Prop) (f : Op ε σ) (Q E : σ → Prop) : Prop :=
  ∀ s, P s → (∀ s', f s = .ok s' → Q s') ∧ ∀ e s', f s = .error (e, s') → E s'

namespace Triple

variable {P Q R E : σ → Prop} {f g : Op ε σ}

/-- The ending is a success. -/
theorem ok {s : σ} (h : Q s) : (∀ s', (Except.ok s : Except (ε × σ) σ) = .ok s' → Q s') ∧
    ∀ e s', (Except.ok s : Except (ε × σ) σ) = .error (e, s') → E s' := by
  refine ⟨fun s' hs => ?_, nofun⟩
  cases hs
  exact h

/-- The ending is a failure. -/
theorem error {e : ε} {s : σ} (h : E s) : (∀ s', (Except.error (e, s) : Except (ε × σ) σ) = .ok s' → Q s') ∧
    ∀ e' s', (Except.error (e, s) : Except (ε × σ) σ) = .error (e', s') → E s' := by
  refine ⟨nofun, fun e' s' hs => ?_⟩
  cases hs
  exact h

theorem andThen (hf : Triple P f Q E) (hg : Triple Q g R E) : Triple P (f.andThen g) R E := by
  intro s hs
  have h := hf s hs
  unfold Op.andThen
  cases hr : f s with
  | ok t => exact hg t (h.1 t hr)
  | error e => exact error (h.2 e.1 e.2 hr)

theorem pure {k : σ → σ} (h : ∀ s, P s → Q (k s)) : Triple P (Op.pure k : Op ε σ) Q E :=
  fun s hs => ok (h s hs)

theorem mono {P' Q' E' : σ → Prop} (h : Triple P f Q E) (hP : ∀ s, P' s → P s) (hQ : ∀ s, Q s → Q' s)
    (hE : ∀ s, E s → E' s) : Triple P' f Q' E' := by
  intro s hs
  exact ⟨fun s' hr => hQ _ ((h s (hP s hs)).1 s' hr), fun e s' hr => hE _ ((h s (hP s hs)).2 e s' hr)⟩

/-- The loop rule; the invariant speaks of the elements done. -/
theorem eachDone {I : List α → σ → Prop} {body : Nat → α → Op ε σ}
    (h : ∀ done n x, Triple (I done) (body n x) (I (done ++ [x])) E) (done : List α) (n : Nat) (xs : List α) :
    Triple (I done) (Op.each body n xs) (I (done ++ xs)) E := by
  induction xs generalizing done n with
  | nil =>
    rw [List.append_nil]
    exact pure fun _ hs => hs
  | cons x xs ih =>
    have := ih (done ++ [x]) (n + 1)
    rw [List.append_assoc, List.singleton_append] at this
    exact (h done n x).andThen this

/-- A loop keeps what its body keeps. -/
theorem each {body : Nat → α → Op ε σ} (h : ∀ n x, Triple P (body n x) P E) (n : Nat) (xs : List α) :
    Triple P (Op.each body n xs) P E :=
  eachDone (I := fun _ => P) (fun _ => h) [] n xs

end Triple

/-- What a change of the state makes of an ending. -/
def mapState (k : σ → σ) : Except (ε × σ) σ → Except (ε × σ) σ
  | .ok s => .ok (k s)
  | .error (e, s) => .error (e, k s)

/-- The operation neither reads nor writes what `k` changes. -/
def Commutes (k : σ → σ) (f : Op ε σ) : Prop := ∀ s, f (k s) = mapState k (f s)

namespace Commutes

variable {k : σ → σ} {f g : Op ε σ}

theorem andThen (hf : Commutes k f) (hg : Commutes k g) : Commutes k (f.andThen g) := by
  intro s
  unfold Op.andThen
  rw [hf s]
  cases hr : f s with
  | ok t => exact hg t
  | error r => rfl

theorem pure {h : σ → σ} (hk : ∀ s, h (k s) = k (h s)) : Commutes k (Op.pure h : Op ε σ) :=
  fun s => congrArg Except.ok (hk s)

theorem each {body : Nat → α → Op ε σ} (h : ∀ n x, Commutes k (body n x)) (n : Nat) (xs : List α) :
    Commutes k (Op.each body n xs) := by
  induction xs generalizing n with
  | nil => exact pure fun _ => rfl
  | cons x xs ih => exact (h n x).andThen (ih (n + 1))

end Commutes

end NekoEcat.Fallible
