import Mathlib.Algebra.Order.Ring.Int
import Mathlib.Data.Nat.Init

/-!
# Integers as doubles

A `double` has 53 significant bits. An integer that needs more is rounded to the
nearest multiple of a power of two that fits, ties to the even one.

* `ofInt_of_lt`: an integer of at most 53 bits stays as it is.
* `ofInt_eq_zero`: only 0 is rounded to 0.
-/
namespace NekoEcat.Double

/-- `n / 2 ^ k`, rounded to the nearest, ties to even. -/
def roundShift (n k : Nat) : Nat :=
  let q := n / 2 ^ k
  let r := n % 2 ^ k
  if 2 * r < 2 ^ k ∨ (2 * r = 2 ^ k ∧ q % 2 = 0) then q else q + 1

/-- The bits of `n` that do not fit. -/
def excess (n : Nat) : Nat := n.log2 + 1 - 53

def roundNat (n : Nat) : Nat := roundShift n (excess n) * 2 ^ excess n

/-- `(double)n`, which is an integer again. -/
def ofInt : Int → Int
  | .ofNat n => roundNat n
  | .negSucc n => -roundNat (n + 1)

theorem excess_of_lt {n : Nat} (h : n < 2 ^ 53) : excess n = 0 := by
  unfold excess
  by_cases hn : n = 0
  · simp [hn]
  · have hlog := (Nat.log2_lt hn).2 h
    omega

theorem roundNat_of_lt {n : Nat} (h : n < 2 ^ 53) : roundNat n = n := by
  simp [roundNat, roundShift, excess_of_lt h]
  omega

theorem ofInt_of_lt {n : Int} (h : n.natAbs < 2 ^ 53) : ofInt n = n := by
  cases n with
  | ofNat n =>
    have hn : roundNat n = n := roundNat_of_lt h
    change (roundNat n : Int) = n
    rw [hn]
  | negSucc n =>
    have hn : roundNat (n + 1) = n + 1 := roundNat_of_lt h
    change -(roundNat (n + 1) : Int) = Int.negSucc n
    rw [hn]
    rfl

theorem roundNat_ne_zero {n : Nat} (h : n ≠ 0) : roundNat n ≠ 0 := by
  have hlog : excess n ≤ n.log2 := by
    unfold excess
    omega
  have hle : 2 ^ excess n ≤ n := Nat.le_trans (Nat.pow_le_pow_right (by omega) hlog) (Nat.log2_self_le h)
  have hq : 0 < n / 2 ^ excess n := Nat.div_pos hle (Nat.two_pow_pos _)
  have hround : 0 < roundShift n (excess n) := by
    unfold roundShift
    dsimp only
    split <;> omega
  exact Nat.ne_of_gt (Nat.mul_pos hround (Nat.two_pow_pos _))

theorem ofInt_eq_zero {n : Int} : ofInt n = 0 ↔ n = 0 := by
  cases n with
  | ofNat n =>
    by_cases hn : n = 0
    · rw [hn]
      decide
    · have hround := roundNat_ne_zero hn
      change (roundNat n : Int) = 0 ↔ (n : Int) = 0
      omega
  | negSucc n =>
    have hround := roundNat_ne_zero (Nat.succ_ne_zero n)
    change -(roundNat (n + 1) : Int) = 0 ↔ Int.negSucc n = 0
    simp only [Nat.succ_eq_add_one] at hround
    omega

example : ofInt (2 ^ 53 + 1) = 2 ^ 53 ∧ ofInt (-(2 ^ 53) - 3) = -(2 ^ 53) - 4 := by decide

end NekoEcat.Double
