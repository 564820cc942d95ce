import Mathlib.Data.List.Infix
import NekoEcat.Core.Bytes
import NekoEcat.Core.CScan

/-!
# Texts as UTF-8 bytes

A C program searches the bytes of a text. An ASCII needle is found in them
exactly where it is in the text: no byte of another character is ASCII.

* `encodeChar_ascii`, `encodeChar_high`: the bytes of one character.
* `infix_latin1_utf8`: the search for an ASCII text.
-/
namespace NekoEcat.Utf8
open NekoEcat.Bytes NekoEcat.CScan

def utf8 (cs : List Char) : Bytes := cs.flatMap String.utf8EncodeChar

/-- The bytes as C characters. -/
def latin1 (bs : Bytes) : List Char := bs.map fun b => Char.ofNat b.toNat

def IsAscii (c : Char) : Prop := c.toNat < 128

theorem encodeChar_ascii {c : Char} (h : IsAscii c) : String.utf8EncodeChar c = [UInt8.ofNat c.toNat] := by
  unfold IsAscii at h
  unfold String.utf8EncodeChar
  rw [if_pos (show c.val.toNat ≤ 0x7f from Nat.le_of_lt_succ h)]
  rfl

theorem toNat_ascii {c : Char} (h : IsAscii c) : (UInt8.ofNat c.toNat).toNat = c.toNat := by
  unfold IsAscii at h
  rw [UInt8.toNat_ofNat', Nat.mod_eq_of_lt (by omega)]

theorem encodeChar_high {c : Char} (h : ¬ IsAscii c) : ∀ b ∈ String.utf8EncodeChar c, 128 ≤ b.toNat := by
  have hbyte {n : Nat} (h1 : 128 ≤ n) (h2 : n < 256) : 128 ≤ (UInt8.ofNat n).toNat := by
    rw [UInt8.toNat_ofNat', Nat.mod_eq_of_lt h2]
    exact h1
  unfold IsAscii at h
  unfold String.utf8EncodeChar
  dsimp only
  rw [if_neg (show ¬ c.val.toNat ≤ 0x7f from fun hc => h (Nat.lt_succ_of_le hc))]
  intro b hb
  split at hb
  · simp only [List.mem_cons, List.not_mem_nil, or_false] at hb
    rcases hb with rfl | rfl <;> exact hbyte (by omega) (by omega)
  · split at hb
    · simp only [List.mem_cons, List.not_mem_nil, or_false] at hb
      rcases hb with rfl | rfl | rfl <;> exact hbyte (by omega) (by omega)
    · simp only [List.mem_cons, List.not_mem_nil, or_false] at hb
      rcases hb with rfl | rfl | rfl | rfl <;> exact hbyte (by omega) (by omega)

theorem latin1_append (a b : Bytes) : latin1 (a ++ b) = latin1 a ++ latin1 b := List.map_append

theorem latin1_ascii {c : Char} (h : IsAscii c) : latin1 (String.utf8EncodeChar c) = [c] := by
  rw [encodeChar_ascii h, latin1, List.map_singleton, toNat_ascii h, Char.ofNat_toNat]

theorem latin1_high {c : Char} (h : ¬ IsAscii c) : ∀ x ∈ latin1 (String.utf8EncodeChar c), ¬ IsAscii x := by
  intro x hx
  obtain ⟨b, hb, rfl⟩ := List.mem_map.1 hx
  have hlt := b.toNat_lt
  unfold IsAscii
  have hvalid : b.toNat.isValidChar := .inl (by omega)
  have hchar : (Char.ofNat b.toNat).toNat = b.toNat := by
    have haux : Char.ofNat b.toNat = Char.ofNatAux b.toNat hvalid := dif_pos hvalid
    rw [haux]
    rfl
  have := encodeChar_high h b hb
  omega

theorem utf8_cons (c : Char) (cs : List Char) : utf8 (c :: cs) = String.utf8EncodeChar c ++ utf8 cs :=
  List.flatMap_cons

theorem length_le_utf8 (cs : List Char) : cs.length ≤ (utf8 cs).length := by
  induction cs with
  | nil => exact Nat.zero_le _
  | cons c cs ih =>
    have := List.length_pos_of_ne_nil (String.utf8EncodeChar_ne_nil (c := c))
    rw [utf8_cons, List.length_append, List.length_cons]
    omega

theorem mem_utf8 {c : Char} (h : IsAscii c) {cs : List Char} : UInt8.ofNat c.toNat ∈ utf8 cs ↔ c ∈ cs := by
  constructor
  · intro hm
    obtain ⟨x, hx, hb⟩ := List.mem_flatMap.1 hm
    by_cases ha : IsAscii x
    · rw [encodeChar_ascii ha, List.mem_singleton] at hb
      have := congrArg UInt8.toNat hb
      rw [toNat_ascii h, toNat_ascii ha] at this
      rwa [Char.toNat_inj.1 this]
    · have := encodeChar_high ha _ hb
      rw [toNat_ascii h] at this
      exact absurd h (Nat.not_lt.2 this)
  · intro hm
    exact List.mem_flatMap.2 ⟨c, hm, by rw [encodeChar_ascii h, List.mem_singleton]⟩

/-! ## Searching -/

theorem strstr_isSome {needle s : List Char} : (strstr needle s).isSome = true ↔ needle <:+: s := by
  constructor
  · intro h
    obtain ⟨t, ht⟩ := Option.isSome_iff_exists.1 h
    exact (strstr_some ht).1.isInfix.trans (strstr_some ht).2.isInfix
  · rintro ⟨p, q, rfl⟩
    obtain ⟨t, ht, -⟩ := strstr_infix needle p q
    rw [List.append_assoc, ht]
    rfl

section
variable {needle : List Char} (hn : ∀ c ∈ needle, IsAscii c)
include hn

theorem prefix_latin1_utf8 (cs : List Char) : needle <+: latin1 (utf8 cs) ↔ needle <+: cs := by
  induction needle generalizing cs with
  | nil => exact iff_of_true List.nil_prefix List.nil_prefix
  | cons x needle ih =>
    obtain ⟨hx, hn⟩ := List.forall_mem_cons.1 hn
    cases cs with
    | nil => rfl
    | cons c cs =>
      rw [utf8_cons, latin1_append]
      by_cases ha : IsAscii c
      · rw [latin1_ascii ha, List.singleton_append, List.cons_prefix_cons, List.cons_prefix_cons, ih hn]
      · -- neither starts with an ASCII character
        refine iff_of_false (fun h => ?_) fun h => ha ((List.cons_prefix_cons.1 h).1 ▸ hx)
        obtain ⟨b, bs, hb⟩ := List.exists_cons_of_ne_nil (String.utf8EncodeChar_ne_nil (c := c))
        have hhigh := latin1_high ha
        rw [hb] at h hhigh
        exact hhigh _ List.mem_cons_self ((List.cons_prefix_cons.1 h).1 ▸ hx)

/-- The search passes what is not ASCII. -/
theorem infix_high {a b : List Char} (hne : needle ≠ []) (ha : ∀ x ∈ a, ¬ IsAscii x) :
    needle <:+: a ++ b ↔ needle <:+: b := by
  induction a with
  | nil => rfl
  | cons x a ih =>
    obtain ⟨hx, ha⟩ := List.forall_mem_cons.1 ha
    rw [List.cons_append, List.infix_cons_iff, ih ha, or_iff_right]
    intro h
    cases needle with
    | nil => exact hne rfl
    | cons y needle => exact hx ((List.cons_prefix_cons.1 h).1 ▸ hn y List.mem_cons_self)

theorem infix_latin1_utf8 (hne : needle ≠ []) (cs : List Char) : needle <:+: latin1 (utf8 cs) ↔ needle <:+: cs := by
  induction cs with
  | nil => rfl
  | cons c cs ih =>
    rw [List.infix_cons_iff, ← prefix_latin1_utf8 hn, utf8_cons, latin1_append]
    by_cases ha : IsAscii c
    · rw [latin1_ascii ha, List.singleton_append, List.infix_cons_iff, ih]
    · rw [infix_high hn hne (latin1_high ha), ih]
      refine (or_iff_right_of_imp fun h => ?_).symm
      rw [← latin1_append, ← utf8_cons, prefix_latin1_utf8 hn] at h
      cases needle with
      | nil => exact absurd rfl hne
      | cons y needle => exact absurd ((List.cons_prefix_cons.1 h).1 ▸ hn y List.mem_cons_self) ha

end

end NekoEcat.Utf8
