import Mathlib.Algebra.Order.Ring.Int
import Mathlib.Data.List.GetD

/-!
# Byte buffers and `memcpy`

A buffer is a list of bytes; `rd` and `wr` are the C array accesses and
`memcpy` copies between two distinct objects, byte by byte in ascending
order. A write past the end is lost and a read past the end is 0: what the
program never does is stated where the program is (bounds of an access), not
here.

* `rd_memcpy`: what every byte of the destination holds afterwards.
* `bytes_ext`: buffers of one length that agree byte by byte are equal.
* `leBytes`: the little-endian bytes of a machine integer of `w` bytes.
-/
namespace NekoEcat

abbrev Bytes := List UInt8

namespace Bytes

def rd (b : Bytes) (i : Nat) : UInt8 := b.getD i 0

def wr (b : Bytes) (i : Nat) (v : UInt8) : Bytes := b.set i v

/-- `memcpy(dst + d, src + s, n)`. -/
def memcpy (dst : Bytes) (d : Nat) (src : Bytes) (s : Nat) : Nat → Bytes
  | 0 => dst
  | n + 1 => wr (memcpy dst d src s n) (d + n) (rd src (s + n))

@[simp] theorem wr_length (b : Bytes) (i : Nat) (v : UInt8) : (wr b i v).length = b.length := by
  simp [wr]

@[simp] theorem memcpy_length (dst : Bytes) (d : Nat) (src : Bytes) (s n : Nat) :
    (memcpy dst d src s n).length = dst.length := by
  induction n with
  | zero => rfl
  | succ n ih => simp [memcpy, ih]

theorem rd_wr (b : Bytes) (i j : Nat) (v : UInt8) :
    rd (wr b i v) j = if i = j ∧ j < b.length then v else rd b j := by
  simp only [rd, wr, List.getD_eq_getElem?_getD, List.getElem?_set]
  by_cases hij : i = j
  · subst hij
    by_cases hl : i < b.length <;> simp [hl]
  · simp [hij]

theorem rd_wr_self {b : Bytes} {i : Nat} (v : UInt8) (h : i < b.length) :
    rd (wr b i v) i = v := by
  rw [rd_wr, if_pos ⟨rfl, h⟩]

theorem rd_wr_ne (b : Bytes) {i j : Nat} (v : UInt8) (h : i ≠ j) : rd (wr b i v) j = rd b j := by
  rw [rd_wr, if_neg fun hc => h hc.1]

theorem rd_memcpy (dst : Bytes) (d : Nat) (src : Bytes) (s n i : Nat) :
    rd (memcpy dst d src s n) i =
      if d ≤ i ∧ i < d + n ∧ i < dst.length then rd src (s + (i - d)) else rd dst i := by
  induction n with
  | zero => rw [if_neg (by omega)]; rfl
  | succ n ih =>
    rw [memcpy, rd_wr, memcpy_length, ih]
    by_cases hi : d + n = i
    · by_cases hl : i < dst.length
      · rw [if_pos ⟨hi, hl⟩, if_pos ⟨by omega, by omega, hl⟩]
        congr 1; omega
      · rw [if_neg (by omega), if_neg (by omega), if_neg (by omega)]
    · rw [if_neg fun hc => hi hc.1]
      by_cases hc : d ≤ i ∧ i < d + n ∧ i < dst.length
      · rw [if_pos hc, if_pos ⟨hc.1, by omega, hc.2.2⟩]
      · rw [if_neg hc, if_neg (by omega)]

theorem rd_memcpy_in {dst src : Bytes} {d s n i : Nat} (h1 : d ≤ i) (h2 : i < d + n)
    (hl : i < dst.length) : rd (memcpy dst d src s n) i = rd src (s + (i - d)) := by
  rw [rd_memcpy, if_pos ⟨h1, h2, hl⟩]

theorem rd_memcpy_out {dst src : Bytes} {d s n i : Nat} (h : i < d ∨ d + n ≤ i) :
    rd (memcpy dst d src s n) i = rd dst i := by
  rw [rd_memcpy, if_neg (by omega)]

/-- Buffers of one length that agree byte by byte are equal. -/
theorem bytes_ext {a b : Bytes} (hl : a.length = b.length)
    (h : ∀ i, i < a.length → rd a i = rd b i) : a = b := by
  apply List.ext_getElem hl
  intro i h1 h2
  have := h i h1
  simpa [rd, List.getD_eq_getElem?_getD, h1, h2] using this

theorem rd_take {b : Bytes} {n i : Nat} (h : i < n) : rd (b.take n) i = rd b i := by
  simp [rd, List.getD_eq_getElem?_getD, h]

theorem rd_drop (b : Bytes) (k i : Nat) : rd (b.drop k) i = rd b (k + i) := by
  simp [rd, List.getD_eq_getElem?_getD]

/-- The `n` bytes from address `i` on. -/
def slice (b : Bytes) (i n : Nat) : Bytes := (List.range n).map fun k => rd b (i + k)

@[simp] theorem slice_length (b : Bytes) (i n : Nat) : (slice b i n).length = n := by simp [slice]

theorem slice_succ (b : Bytes) (i n : Nat) : slice b i (n + 1) = slice b i n ++ [rd b (i + n)] := by
  simp [slice, List.range_succ]

/-- The little-endian bytes of `v` in `w` bytes. -/
def leBytes : Nat → Nat → Bytes
  | 0, _ => []
  | w + 1, v => UInt8.ofNat (v % 256) :: leBytes w (v / 256)

@[simp] theorem leBytes_length (w v : Nat) : (leBytes w v).length = w := by
  induction w generalizing v with
  | zero => rfl
  | succ w ih => simp [leBytes, ih]

theorem leBytes_mod (w v : Nat) : leBytes w (v % 256 ^ w) = leBytes w v := by
  induction w generalizing v with
  | zero => rfl
  | succ w ih =>
    rw [Nat.pow_succ', leBytes, leBytes, Nat.mod_mul_right_mod, Nat.mod_mul_right_div_self, ih]

end Bytes

end NekoEcat
