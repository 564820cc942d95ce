import Mathlib.Data.List.Chain
import Mathlib.Data.List.DropRight
import NekoEcat.Core.QNumber

/-!
# Stripping the ends of a text, and closing its runs up

`strip p` takes the characters of `p` off both ends; `QString::trimmed` is one
such. `squash p` puts one `_` in the place of each run of `p`, as
`replace(QRegularExpression("[..]+"), "_")` does.

* `strip_between`: what is taken off.
* `head_strip`, `last_strip`, `strip_eq_self`: how a stripped text starts and
  ends, and that it is stripped already if it does.
* `mem_strip`, `mem_squash`: what is not of `p` stays.
* `strip_flatMap`: stripping before or after a map of the characters.
* `squash_eq_self`: a text without `p` stays as it is.
-/
namespace NekoEcat.Strip

variable {α : Type} (p : α → Bool) {cs : List α}

def strip (cs : List α) : List α := (cs.dropWhile p).rdropWhile p

theorem trim_eq_strip (cs : List Char) : QNumber.trim cs = strip QString.isSpace cs := rfl

theorem strip_infix : strip p cs <:+: cs :=
  List.IsInfix.trans (List.rdropWhile_prefix p _).isInfix (List.dropWhile_suffix p).isInfix

/-- What is taken off. -/
theorem strip_between (cs : List α) :
    ∃ a b, cs = a ++ strip p cs ++ b ∧ (∀ c ∈ a, p c = true) ∧ ∀ c ∈ b, p c = true := by
  refine ⟨cs.takeWhile p, (cs.dropWhile p).rtakeWhile p, ?_, fun c => List.mem_takeWhile_imp,
    fun c => List.mem_rtakeWhile_imp⟩
  rw [List.append_assoc, strip, List.rdropWhile_append_rtakeWhile, List.takeWhile_append_dropWhile]

theorem head_dropWhile {c : α} (h : (cs.dropWhile p).head? = some c) : p c = false := by
  have hne : cs.dropWhile p ≠ [] := by
    intro hnil
    rw [hnil] at h
    cases h
  rw [List.head?_eq_some_head hne] at h
  cases h
  exact List.head_dropWhile_not p hne

theorem last_strip {c : α} (h : (strip p cs).getLast? = some c) : p c = false := by
  have hne : (cs.dropWhile p).rdropWhile p ≠ [] := by
    intro hnil
    rw [strip, hnil] at h
    cases h
  rw [strip, List.getLast?_eq_some_getLast hne] at h
  cases h
  simpa using List.rdropWhile_last_not p _ hne

theorem head_strip {c : α} (h : (strip p cs).head? = some c) : p c = false := by
  obtain ⟨t, ht⟩ := List.rdropWhile_prefix p (l := cs.dropWhile p)
  refine @head_dropWhile _ p cs _ ?_
  rw [← ht]
  unfold strip at h
  cases hr : (cs.dropWhile p).rdropWhile p with
  | nil =>
    rw [hr] at h
    cases h
  | cons d ds =>
    rw [hr] at h
    exact h

theorem strip_eq_self (hhead : ∀ c, cs.head? = some c → p c = false) (hlast : ∀ c, cs.getLast? = some c → p c = false) :
    strip p cs = cs := by
  have hdrop : cs.dropWhile p = cs := by
    cases cs with
    | nil => rfl
    | cons c cs => exact List.dropWhile_cons_of_neg (by simp [hhead c rfl])
  rw [strip, hdrop, List.rdropWhile_eq_self_iff]
  intro hne
  simp [hlast _ (List.getLast?_eq_some_getLast hne)]

theorem strip_strip : strip p (strip p cs) = strip p cs :=
  strip_eq_self p (fun _ => head_strip p) (fun _ => last_strip p)

theorem mem_dropWhile {c : α} (hc : c ∈ cs) (hp : p c = false) : c ∈ cs.dropWhile p := by
  induction cs with
  | nil => cases hc
  | cons d cs ih =>
    rcases List.mem_cons.1 hc with rfl | hc
    · rw [List.dropWhile_cons_of_neg (by simp [hp])]
      exact List.mem_cons_self
    · rw [List.dropWhile_cons]
      split
      · exact ih hc
      · exact List.mem_cons_of_mem d hc

theorem mem_strip {c : α} (hc : c ∈ cs) (hp : p c = false) : c ∈ strip p cs := by
  have hdrop := mem_dropWhile p hc hp
  rw [strip, List.rdropWhile, List.mem_reverse]
  exact mem_dropWhile p (List.mem_reverse.2 hdrop) hp

/-- A text whose first character stays. -/
theorem strip_cons {c : α} (hp : p c = false) : strip p (c :: cs) = c :: cs.rdropWhile p := by
  have hdrop : (c :: cs).dropWhile p = c :: cs := List.dropWhile_cons_of_neg (by simp [hp])
  rw [strip, hdrop]
  induction cs using List.reverseRecOn with
  | nil => simp [List.rdropWhile_singleton, hp]
  | append_singleton cs d ih =>
    rw [← List.cons_append, List.rdropWhile_concat, List.rdropWhile_concat]
    split
    · exact ih (List.dropWhile_cons_of_neg (by simp [hp]))
    · rfl

/-! ## After a map of the characters -/

section
variable {f : α → List α} (hstays : ∀ c, p c = true → f c = [c])
  (hleaves : ∀ c, p c = false → f c ≠ [] ∧ ∀ d ∈ f c, p d = false)

include hstays hleaves

theorem dropWhile_flatMap (cs : List α) : (cs.flatMap f).dropWhile p = (cs.dropWhile p).flatMap f := by
  induction cs with
  | nil => rfl
  | cons c cs ih =>
    rw [List.flatMap_cons]
    cases hc : p c with
    | true =>
      rw [hstays c hc, List.singleton_append, List.dropWhile_cons_of_pos hc, List.dropWhile_cons_of_pos hc, ih]
    | false =>
      obtain ⟨hne, hall⟩ := hleaves c hc
      obtain ⟨d, ds, hfc⟩ := List.exists_cons_of_ne_nil hne
      have hd : p d = false := hall d (hfc ▸ List.mem_cons_self)
      rw [List.dropWhile_cons_of_neg (by simp [hc]), List.flatMap_cons, hfc, List.cons_append,
        List.dropWhile_cons_of_neg (by simp [hd])]

/-- Stripping and a map that keeps apart what is stripped and what is not. -/
theorem strip_flatMap (cs : List α) : strip p (cs.flatMap f) = (strip p cs).flatMap f := by
  have hback := dropWhile_flatMap p (f := fun c => (f c).reverse) (fun c hc => by rw [hstays c hc]; rfl)
    (fun c hc => ⟨by simpa using (hleaves c hc).1, fun d hd => (hleaves c hc).2 d (List.mem_reverse.1 hd)⟩)
    (cs.dropWhile p).reverse
  rw [strip, dropWhile_flatMap p hstays hleaves, List.rdropWhile, List.reverse_flatMap]
  change (((cs.dropWhile p).reverse.flatMap fun c => (f c).reverse).dropWhile p).reverse = _
  rw [hback, List.reverse_flatMap, strip, List.rdropWhile]
  simp [Function.comp_def]

end

/-! ## Runs -/

/-- `inRun`: the character before is of `p`. -/
def squash (p : Char → Bool) : Bool → List Char → List Char
  | _, [] => []
  | inRun, c :: cs =>
    if p c then if inRun then squash p true cs else '_' :: squash p true cs
    else c :: squash p false cs

section
variable {p : Char → Bool} {cs : List Char}

theorem mem_squash {b : Bool} {c : Char} (hc : c ∈ cs) (hp : p c = false) : c ∈ squash p b cs := by
  induction cs generalizing b with
  | nil => cases hc
  | cons d cs ih =>
    rw [squash]
    rcases List.mem_cons.1 hc with rfl | hc
    · simp [hp]
    · split
      · split
        · exact ih hc
        · exact List.mem_cons_of_mem _ (ih hc)
      · exact List.mem_cons_of_mem _ (ih hc)

theorem of_mem_squash {b : Bool} {c : Char} (hc : c ∈ squash p b cs) : c = '_' ∨ (c ∈ cs ∧ p c = false) := by
  induction cs generalizing b with
  | nil => cases hc
  | cons d cs ih =>
    have hrest : ∀ b', c ∈ squash p b' cs → c = '_' ∨ (c ∈ d :: cs ∧ p c = false) := fun b' h =>
      (ih h).imp_right fun h => ⟨List.mem_cons_of_mem d h.1, h.2⟩
    rw [squash] at hc
    split at hc
    · split at hc
      · exact hrest _ hc
      · rcases List.mem_cons.1 hc with rfl | hc
        · exact Or.inl rfl
        · exact hrest _ hc
    · rename_i hp
      rcases List.mem_cons.1 hc with rfl | hc
      · exact Or.inr ⟨List.mem_cons_self, by simpa using hp⟩
      · exact hrest _ hc

theorem squash_eq_self (h : ∀ c ∈ cs, p c = false) (b : Bool) : squash p b cs = cs := by
  induction cs generalizing b with
  | nil => rfl
  | cons c cs ih =>
    rw [squash, if_neg (by simp [h c List.mem_cons_self]), ih fun d hd => h d (List.mem_cons_of_mem c hd)]

end

/-- No two `_` next to each other. -/
abbrev Single (cs : List Char) : Prop := cs.IsChain fun a b => ¬ (a = '_' ∧ b = '_')

/-- Runs of `_` are closed up. -/
theorem squash_single (b : Bool) (cs : List Char) :
    Single (squash (· == '_') b cs) ∧ (b = true → (squash (· == '_') b cs).head? ≠ some '_') := by
  induction cs generalizing b with
  | nil => simp [squash, Single]
  | cons c cs ih =>
    rw [squash]
    by_cases hc : c = '_'
    · cases b with
      | true => simpa [hc] using ih true
      | false =>
        obtain ⟨hsingle, hhead⟩ := ih true
        simp only [hc, beq_self_eq_true, if_true, Bool.false_eq_true, if_false, false_implies, and_true]
        refine List.isChain_cons.2 ⟨fun d hd hboth => hhead rfl ?_, hsingle⟩
        rw [hd, hboth.2]
    · simp only [beq_iff_eq, hc, if_false]
      refine ⟨List.isChain_cons.2 ⟨fun d _ hboth => hc hboth.1, (ih false).1⟩, fun _ => ?_⟩
      simpa using hc

/-- A text without such runs stays as it is. -/
theorem squash_of_single {cs : List Char} (h : Single cs) (b : Bool) (hb : b = true → cs.head? ≠ some '_') :
    squash (· == '_') b cs = cs := by
  induction cs generalizing b with
  | nil => rfl
  | cons c cs ih =>
    obtain ⟨hnext, hrest⟩ := List.isChain_cons.1 h
    rw [squash]
    by_cases hc : c = '_'
    · have hbf : b = false := by
        cases b with
        | false => rfl
        | true => exact absurd (congrArg some hc) (hb rfl)
      have htrue := ih hrest true fun _ hhead => hnext '_' hhead ⟨hc, rfl⟩
      simp [hc, hbf, htrue]
    · have hfalse := ih hrest false fun h => absurd h Bool.false_ne_true
      simp [hc, hfalse]

end NekoEcat.Strip
