import Mathlib.Data.List.Basic

/-!
# Programs that run commands

A program runs commands one after the other and is told how each ended; what it
does next may depend on that. Its environment answers every command, with all
the commands before it in view.

* `Calls`: what holds of every command, however the commands end.
* `Calls.run`: and therefore of the commands of every run.
* `run_bind`, `run_each`: the run of a program put together from parts.
* `lines_each`, `result_each`: a loop that runs one command a round.
* `via_bind`, `via_each`: a program whose commands are programs themselves.
-/
namespace NekoEcat.Commands

variable {C R α β σ : Type}

/-- `C` are the commands, `R` what they end in. -/
inductive Prog (C R α : Type) where
  | done (a : α)
  | call (c : C) (k : R → Prog C R α)

namespace Prog

def bind : Prog C R α → (α → Prog C R β) → Prog C R β
  | done a, f => f a
  | call c k, f => call c fun r => (k r).bind f

instance : Monad (Prog C R) where
  pure := done
  bind := bind

/-- One command. -/
def exec (c : C) : Prog C R R := call c done

/-- The loop over a list. -/
def each (body : σ → α → Prog C R σ) : σ → List α → Prog C R σ
  | s, [] => done s
  | s, x :: xs => (body s x).bind fun t => each body t xs

/-- The result, and the commands that were run, after those of `h`. -/
def run (env : List C → C → R) : List C → Prog C R α → α × List C
  | _, done a => (a, [])
  | h, call c k =>
    let (a, cs) := run env (h ++ [c]) (k (env h c))
    (a, c :: cs)

@[simp] theorem pure_eq (a : α) : (pure a : Prog C R α) = done a := rfl

@[simp] theorem bind_eq (p : Prog C R α) (f : α → Prog C R β) : (p >>= f) = p.bind f := rfl

@[simp] theorem done_bind (a : α) (f : α → Prog C R β) : (done a).bind f = f a := rfl

@[simp] theorem call_bind (c : C) (k : R → Prog C R α) (f : α → Prog C R β) :
    (call c k).bind f = call c fun r => (k r).bind f := rfl

@[simp] theorem exec_bind (c : C) (f : R → Prog C R β) : (exec c).bind f = call c f := rfl

theorem bind_assoc {γ : Type} (p : Prog C R α) (f : α → Prog C R β) (g : β → Prog C R γ) :
    (p.bind f).bind g = p.bind fun a => (f a).bind g := by
  induction p with
  | done a => rfl
  | call c k ih => simp [ih]

/-! ## Runs -/

section
variable (env : List C → C → R) (h : List C)

@[simp] theorem run_done (a : α) : run env h (done a) = (a, []) := rfl

theorem run_call (c : C) (k : R → Prog C R α) :
    run env h (call c k) = ((run env (h ++ [c]) (k (env h c))).1, c :: (run env (h ++ [c]) (k (env h c))).2) := rfl

theorem run_bind (p : Prog C R α) (f : α → Prog C R β) :
    run env h (p.bind f) =
      ((run env (h ++ (run env h p).2) (f (run env h p).1)).1,
        (run env h p).2 ++ (run env (h ++ (run env h p).2) (f (run env h p).1)).2) := by
  induction p generalizing h with
  | done a => simp
  | call c k ih => simp [run_call, ih]

/-- Every round of a loop is run from what the rounds before left. -/
theorem run_each (body : σ → α → Prog C R σ) (s : σ) (x : α) (xs : List α) :
    run env h (each body s (x :: xs)) =
      ((run env (h ++ (run env h (body s x)).2) (each body (run env h (body s x)).1 xs)).1,
        (run env h (body s x)).2 ++
          (run env (h ++ (run env h (body s x)).2) (each body (run env h (body s x)).1 xs)).2) :=
  run_bind env h (body s x) fun t => each body t xs

/-- A loop that runs one command a round. -/
theorem lines_each {body : σ → α → Prog C R σ} {f : α → C} (hb : ∀ h s x, ((body s x).run env h).2 = [f x]) (s : σ)
    (xs : List α) : ((each body s xs).run env h).2 = xs.map f := by
  induction xs generalizing h s with
  | nil => rfl
  | cons x xs ih => rw [run_each, hb, ih, List.map_cons, List.singleton_append]

/-- How commands end that are run one after the other. -/
def answers (env : List C → C → R) : List C → List C → List R
  | _, [] => []
  | h, c :: cs => env h c :: answers env (h ++ [c]) cs

@[simp] theorem length_answers (cs : List C) : (answers env h cs).length = cs.length := by
  induction cs generalizing h with
  | nil => rfl
  | cons c cs ih => simp [answers, ih]

/-- What such a loop returns. -/
theorem result_each {body : σ → α → Prog C R σ} {f : α → C} {g : σ → α → R → σ}
    (hb : ∀ s x, body s x = call (f x) fun r => done (g s x r)) (s : σ) (xs : List α) :
    ((each body s xs).run env h).1 =
      (xs.zip (answers env h (xs.map f))).foldl (fun s x => g s x.1 x.2) s := by
  induction xs generalizing h s with
  | nil => rfl
  | cons x xs ih =>
    rw [run_each, hb, run_call]
    exact ih (h ++ [f x]) (g s x (env h (f x)))

end

theorem answers_append (env : List C → C → R) (h cs ds : List C) :
    answers env h (cs ++ ds) = answers env h cs ++ answers env (h ++ cs) ds := by
  induction cs generalizing h with
  | nil => simp [answers]
  | cons c cs ih => simp [answers, ih]

/-! ## Commands that are programs -/

section
variable {C' R' : Type} (f : C → Prog C' R' R)

/-- The program in which every command is the program `f` has for it. -/
def via : Prog C R α → Prog C' R' α
  | done a => done a
  | call c k => (f c).bind fun r => (k r).via

theorem via_bind (p : Prog C R α) (g : α → Prog C R β) : (p.bind g).via f = (p.via f).bind fun a => (g a).via f := by
  induction p with
  | done a => rfl
  | call c k ih => simp only [call_bind, via, ih, bind_assoc]

theorem via_each (body : σ → α → Prog C R σ) (s : σ) (xs : List α) :
    (each body s xs).via f = each (fun s x => (body s x).via f) s xs := by
  induction xs generalizing s with
  | nil => rfl
  | cons x xs ih => simp only [each, via_bind, ih]

end

/-! ## What holds of every command -/

/-- However the commands end, `P` holds of every one that is run. -/
def Calls (P : C → Prop) : Prog C R α → Prop
  | done _ => True
  | call c k => P c ∧ ∀ r, (k r).Calls P

section
variable {P : C → Prop}

theorem Calls.bind {p : Prog C R α} (hp : p.Calls P) {f : α → Prog C R β} (hf : ∀ a, (f a).Calls P) :
    (p.bind f).Calls P := by
  induction p with
  | done a => exact hf a
  | call c k ih => exact ⟨hp.1, fun r => ih r (hp.2 r)⟩

theorem Calls.each {body : σ → α → Prog C R σ} {xs : List α} (hb : ∀ s, ∀ x ∈ xs, (body s x).Calls P) (s : σ) :
    (each body s xs).Calls P := by
  induction xs generalizing s with
  | nil => trivial
  | cons x xs ih => exact (hb s x List.mem_cons_self).bind fun t => ih (fun s y hy => hb s y (List.mem_cons_of_mem x hy)) t

/-- In every environment. -/
theorem Calls.run {p : Prog C R α} (hp : p.Calls P) (env : List C → C → R) (h : List C) :
    ∀ c ∈ (p.run env h).2, P c := by
  induction p generalizing h with
  | done a => simp
  | call c k ih =>
    rw [run_call]
    intro d hd
    obtain rfl | hd := List.mem_cons.1 hd
    · exact hp.1
    · exact ih _ (hp.2 _) _ d hd

end

end Prog

end NekoEcat.Commands
