import Mathlib.Data.Int.GCD
import Mathlib.Data.Int.ModEq

/-!
# A ring that is read from its first slot on

The entry number `n` goes to slot `n % W` once the `W` slots are full. Who reads the
slots in their order reads the last `W` entries, but from the wrong one on.

* `Holds.push`: where every entry of the window is.
* `shift_iff`: what a cyclic shift leaves as it is.
* `Holds.eq_window_iff`: when the slots are the window, oldest first.
-/
namespace NekoEcat.RingWindow

variable {α : Type}

/-- The entry after `n` others. -/
def push (W : Nat) (slots : List α) (n : Nat) (a : α) : List α :=
  if slots.length < W then slots ++ [a] else slots.set (n % W) a

/-- The last `W` entries, oldest first. -/
def window (W : Nat) (as : List α) : List α := as.drop (as.length - W)

/-- Every entry of the window is in its slot. -/
structure Holds (W : Nat) (slots as : List α) : Prop where
  length : slots.length = min as.length W
  slot : ∀ i < as.length, as.length ≤ i + W → slots[i % W]? = as[i]?

theorem holds_nil (W : Nat) : Holds W ([] : List α) [] :=
  ⟨(Nat.zero_min W).symm, fun i hi => absurd hi (Nat.not_lt_zero i)⟩

/-- **One more entry.** -/
theorem Holds.push {W : Nat} {slots as : List α} (h : Holds W slots as) (a : α) :
    Holds W (RingWindow.push W slots as.length a) (as ++ [a]) := by
  have hlength := h.length
  unfold RingWindow.push
  split
  · rename_i hroom
    have hfew : as.length < W := by omega
    refine ⟨by simp only [List.length_append, List.length_singleton]; omega, fun i hi _ => ?_⟩
    rw [List.length_append, List.length_singleton] at hi
    have hmod : ∀ j ≤ as.length, j % W = j := fun j hj => Nat.mod_eq_of_lt (by omega)
    rw [hmod i (by omega)]
    rcases Nat.lt_or_ge i as.length with hlt | hge
    · have hold := h.slot i hlt (by omega)
      rw [hmod i (by omega)] at hold
      rw [List.getElem?_append_left (by omega), List.getElem?_append_left hlt, hold]
    · obtain rfl : i = as.length := by omega
      rw [List.getElem?_append_right (by omega), List.getElem?_append_right (by omega),
        show as.length - slots.length = as.length - as.length by omega]
  · rename_i hfull
    have hmany : W ≤ as.length := by omega
    refine ⟨by simp only [List.length_set, List.length_append, List.length_singleton]; omega, fun i hi hin => ?_⟩
    rw [List.length_append, List.length_singleton] at hi hin
    rcases Nat.lt_or_ge i as.length with hlt | hge
    · -- another slot, as the two entries are less than `W` apart
      have hne : as.length % W ≠ i % W := by
        intro hmod
        have hdvd := (Nat.modEq_iff_dvd' hlt.le).1 hmod.symm
        have hle := Nat.le_of_dvd (by omega) hdvd
        omega
      rw [List.getElem?_set_ne hne, h.slot i hlt (by omega), List.getElem?_append_left hlt]
    · obtain rfl : i = as.length := by omega
      have hslot : as.length % W < slots.length := by
        rw [hlength, Nat.min_eq_right hmany]
        exact Nat.mod_lt _ (by omega)
      rw [List.getElem?_set_self hslot, List.getElem?_concat_length]

/-- **A cyclic shift** by `n` leaves what one by the greatest common divisor leaves. -/
theorem shift_iff {β : Type} {f : Nat → β} {n W : Nat} (hW : 0 < W) :
    (∀ j < W, f ((n + j) % W) = f j) ↔ ∀ j, j + n.gcd W < W → f (j + n.gcd W) = f j := by
  have hpos : 0 < n.gcd W := Nat.gcd_pos_of_pos_right n hW
  constructor
  · intro hshift j hj
    obtain ⟨t, -, ht⟩ := Nat.exists_mul_mod_eq_gcd (k := W) (n := n) (by omega)
    have hmany : ∀ t, ∀ j < W, f ((n * t + j) % W) = f j := by
      intro t
      induction t with
      | zero =>
        intro j hj
        rw [Nat.mul_zero, Nat.zero_add, Nat.mod_eq_of_lt hj]
      | succ t ih =>
        intro j hj
        have hround : (n * (t + 1) + j) % W = (n + (n * t + j) % W) % W := by
          rw [Nat.add_mod_mod, Nat.mul_succ, Nat.add_comm (n * t) n, Nat.add_assoc]
        rw [hround, hshift _ (Nat.mod_lt _ hW), ih j hj]
    rw [← hmany t j (by omega), Nat.add_mod, ht, Nat.mod_eq_of_lt (show j < W by omega), Nat.add_comm,
      Nat.mod_eq_of_lt (by omega)]
  · intro hperiod j hj
    have hclass : ∀ k < W, f k = f (k % n.gcd W) := by
      intro k
      induction k using Nat.strongRecOn with
      | _ k ih =>
        intro hk
        rcases Nat.lt_or_ge k (n.gcd W) with hlt | hge
        · rw [Nat.mod_eq_of_lt hlt]
        · have hback := hperiod (k - n.gcd W) (by omega)
          rw [Nat.sub_add_cancel hge] at hback
          rw [hback, ih _ (by omega) (by omega), ← Nat.mod_eq_sub_mod hge]
    rw [hclass _ (Nat.mod_lt _ hW), hclass j hj, Nat.mod_mod_of_dvd _ (Nat.gcd_dvd_right n W), Nat.add_mod,
      Nat.mod_eq_zero_of_dvd (Nat.gcd_dvd_left n W), Nat.zero_add, Nat.mod_mod]

theorem Holds.eq_of_few {W : Nat} {slots as : List α} (h : Holds W slots as) (hfew : as.length ≤ W) : slots = as := by
  have hlength := h.length
  refine List.ext_getElem? fun i => ?_
  rcases Nat.lt_or_ge i as.length with hlt | hge
  · have hslot := h.slot i hlt (by omega)
    rwa [Nat.mod_eq_of_lt (by omega)] at hslot
  · rw [List.getElem?_eq_none (by omega), List.getElem?_eq_none hge]

theorem getElem?_window {W : Nat} {as : List α} (j : Nat) : (window W as)[j]? = as[as.length - W + j]? :=
  List.getElem?_drop

/-- A full ring is its window shifted by the number of all entries. -/
theorem Holds.slot_shift {W : Nat} {slots as : List α} (h : Holds W slots as) (hmany : W ≤ as.length) {j : Nat}
    (hj : j < W) :
    slots[(as.length + j) % W]? = (window W as)[j]? := by
  have hslot := h.slot (as.length - W + j) (by omega) (by omega)
  rw [getElem?_window, ← hslot, ← Nat.add_mod_right (as.length - W + j) W,
    show as.length - W + j + W = as.length + j by omega]

/-- Every slot is met by the shift. -/
theorem forall_shift_iff {p : Nat → Prop} {W : Nat} (n : Nat) (hW : 0 < W) :
    (∀ k < W, p k) ↔ ∀ j < W, p ((n + j) % W) := by
  constructor
  · intro h j _
    exact h _ (Nat.mod_lt _ hW)
  · intro h k hk
    have hback := h ((k + (W - n % W)) % W) (Nat.mod_lt _ hW)
    have hround : (n + (k + (W - n % W)) % W) % W = k := by
      have hn := Nat.mod_lt n hW
      rw [Nat.add_mod_mod, ← Nat.mod_add_mod, show n % W + (k + (W - n % W)) = k + W by omega, Nat.add_mod_right,
        Nat.mod_eq_of_lt hk]
    rwa [hround] at hback

/-- **The slots are the window exactly if** it is all there is, or its entries recur
at the distance that the number of all entries and `W` have in common. -/
theorem Holds.eq_window_iff {W : Nat} (hW : 0 < W) {slots as : List α} (h : Holds W slots as) :
    slots = window W as ↔ as.length ≤ W ∨
      ∀ i, as.length ≤ i + W → i + as.length.gcd W < as.length → as[i + as.length.gcd W]? = as[i]? := by
  have hlength := h.length
  rcases Nat.lt_or_ge W as.length with hmany | hfew
  · have hwindow : (window W as).length = W := by
      rw [window, List.length_drop]
      omega
    have hslots : slots = window W as ↔ ∀ k < W, slots[k]? = (window W as)[k]? := by
      constructor
      · rintro rfl _ _
        rfl
      · intro hall
        refine List.ext_getElem? fun k => ?_
        rcases Nat.lt_or_ge k W with hk | hk
        · exact hall k hk
        · rw [List.getElem?_eq_none (by omega), List.getElem?_eq_none (by omega)]
    have hshift : (∀ j < W, slots[(as.length + j) % W]? = (window W as)[(as.length + j) % W]?) ↔
        ∀ j < W, (window W as)[(as.length + j) % W]? = (window W as)[j]? :=
      forall₂_congr fun j hj => by rw [h.slot_shift hmany.le hj, eq_comm]
    rw [hslots, forall_shift_iff as.length hW, hshift, shift_iff hW, or_iff_right (by omega)]
    constructor
    · intro hperiod i hi hin
      have hj := hperiod (i - (as.length - W)) (by omega)
      rw [getElem?_window, getElem?_window] at hj
      rwa [show as.length - W + (i - (as.length - W) + as.length.gcd W) = i + as.length.gcd W by omega,
        show as.length - W + (i - (as.length - W)) = i by omega] at hj
    · intro hperiod j hj
      rw [getElem?_window, getElem?_window]
      have hi := hperiod (as.length - W + j) (by omega) (by omega)
      rwa [Nat.add_assoc] at hi
  · rw [h.eq_of_few hfew, window, Nat.sub_eq_zero_of_le hfew, List.drop_zero]
    exact iff_of_true rfl (.inl hfew)

end NekoEcat.RingWindow
