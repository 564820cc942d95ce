import Mathlib.Data.List.Basic
import NekoEcat.Core.QNumber

/-!
# The places an argument is put in

* `replace_pieces`: what `arg` leaves is the text cut at the places of a marker,
  with the argument in each.
* `suffixed_injective`: a name with a number tells different numbers apart, also
  after a map of the characters that leaves digits alone.
* `suffixed_plain`: what a name without `%` becomes.
* `suffixed_head`, `suffixed_last`: how a name with a number starts and ends.
-/
namespace NekoEcat.QString

variable {α β : Type}

/-- The pieces with `a` between them. -/
def glue (first : List α) (rest : List (List α)) (a : List α) : List α := first ++ rest.flatMap (a ++ ·)

theorem length_pieces (rest : List (List α)) (a : List α) :
    (rest.flatMap (a ++ ·)).length = rest.length * a.length + (rest.map List.length).sum := by
  induction rest with
  | nil => simp
  | cons p rest ih =>
    rw [List.flatMap_cons, List.length_append, List.length_append, ih, List.length_cons, Nat.succ_mul, List.map_cons,
      List.sum_cons]
    omega

theorem glue_injective {first : List α} {rest : List (List α)} (h : rest ≠ []) {a b : List α}
    (heq : glue first rest a = glue first rest b) : a = b := by
  have hrest : rest.flatMap (a ++ ·) = rest.flatMap (b ++ ·) := List.append_cancel_left heq
  have hlength : a.length = b.length := by
    have hboth := congrArg List.length hrest
    rw [length_pieces, length_pieces] at hboth
    exact Nat.eq_of_mul_eq_mul_left (List.length_pos_iff.2 h) (by omega)
  cases rest with
  | nil => exact absurd rfl h
  | cons p rest =>
    simp only [List.flatMap_cons, List.append_assoc] at hrest
    exact (List.append_inj hrest hlength).1

theorem glue_flatMap (f : α → List β) (first : List α) (rest : List (List α)) (a : List α) :
    (glue first rest a).flatMap f = glue (first.flatMap f) (rest.map (·.flatMap f)) (a.flatMap f) := by
  simp only [glue, List.flatMap_append, List.flatMap_assoc, List.flatMap_map]

theorem replace_pieces (n : Nat) (cs : List Char) (skip : Nat) :
    ∃ first rest, (∀ a, replace n a skip cs = glue first rest a) ∧ (n ∈ markers (cs.drop skip) → rest ≠ []) := by
  induction cs generalizing skip with
  | nil =>
    refine ⟨[], [], fun a => ?_, fun h => ?_⟩
    · cases skip <;> rfl
    · simp [markers] at h
  | cons c cs ih =>
    cases skip with
    | succ skip =>
      obtain ⟨first, rest, heq, hne⟩ := ih skip
      exact ⟨first, rest, heq, hne⟩
    | zero =>
      cases hm : (if c = '%' then marker cs else none) with
      | none =>
        obtain ⟨first, rest, heq, hne⟩ := ih 0
        refine ⟨c :: first, rest, fun a => ?_, fun h => hne ?_⟩
        · simp [replace, hm, heq, glue]
        · simpa [markers, hm] using h
      | some m =>
        obtain ⟨n', len⟩ := m
        by_cases hn : n' = n
        · obtain ⟨first, rest, heq, -⟩ := ih len
          refine ⟨[], first :: rest, fun a => ?_, fun _ => List.cons_ne_nil _ _⟩
          simp [replace, hm, hn, heq, glue]
        · obtain ⟨first, rest, heq, hne⟩ := ih 0
          refine ⟨c :: first, rest, fun a => ?_, fun h => hne ?_⟩
          · simp [replace, hm, hn, heq, glue]
          · have hnot : n ≠ n' := Ne.symm hn
            simpa [markers, hm, hnot] using h

theorem arg_pieces {s : String} (h : markers s.toList ≠ []) :
    ∃ first rest, rest ≠ [] ∧ ∀ a : String, (arg s a).toList = glue first rest a.toList := by
  obtain ⟨n, hn⟩ : ∃ n, (markers s.toList).min? = some n := by
    cases hmin : (markers s.toList).min? with
    | none => exact absurd (List.min?_eq_none_iff.1 hmin) h
    | some n => exact ⟨n, rfl⟩
  obtain ⟨first, rest, heq, hne⟩ := replace_pieces n s.toList 0
  refine ⟨first, rest, hne (List.min?_mem hn), fun a => ?_⟩
  rw [arg, hn]
  simp [heq]

/-! ## Texts without `%` -/

section
variable {xs : List Char} (hxs : '%' ∉ xs) (ys : List Char)

include hxs

theorem markers_append : markers (xs ++ ys) = markers ys := by
  induction xs with
  | nil => rfl
  | cons c xs ih =>
    have hc : c ≠ '%' := fun h => hxs (h ▸ List.mem_cons_self)
    rw [List.cons_append, markers, if_neg hc]
    exact ih fun h => hxs (List.mem_cons_of_mem c h)

theorem replace_append (n : Nat) (a : List Char) : replace n a 0 (xs ++ ys) = xs ++ replace n a 0 ys := by
  induction xs with
  | nil => rfl
  | cons c xs ih =>
    have hc : c ≠ '%' := fun h => hxs (h ▸ List.mem_cons_self)
    rw [List.cons_append, replace, if_neg hc, List.cons_append]
    exact congrArg (c :: ·) (ih fun h => hxs (List.mem_cons_of_mem c h))

end

/-! ## A name and a number -/

/-- `QString("%1_%2").arg(base).arg(n)` -/
def suffixed (base : String) (n : Nat) : String := arg (arg "%1_%2" base) (number n)

theorem arg_base (base : String) : (arg "%1_%2" base).toList = base.toList ++ "_%2".toList := by
  simp [arg, markers, marker, digit, replace]

theorem two_mem_markers (cs : List Char) : 2 ∈ markers (cs ++ "_%2".toList) := by
  induction cs with
  | nil => simp [markers, marker, digit]
  | cons c cs ih =>
    rw [List.cons_append, markers]
    split
    · exact List.mem_cons_of_mem _ ih
    · exact ih

theorem number_injective {m n : Int} (h : number m = number n) : m = n := by
  have hread := congrArg (QNumber.integer 10) (String.ofList_injective h)
  rw [QNumber.integer_intText, QNumber.integer_intText] at hread
  exact Option.some.inj hread

theorem number_toList (n : Nat) : (number n).toList = Nat.toDigits 10 n := by
  simp [number, QJson.intText]

/-- **Numbers are told apart**, whatever the base, also after a map of the
characters that leaves digits alone. -/
theorem suffixed_injective {f : Char → List Char} (hf : ∀ c, c.isDigit = true → f c = [c]) {base : String} {m n : Nat}
    (h : (suffixed base m).toList.flatMap f = (suffixed base n).toList.flatMap f) : m = n := by
  have hmarkers : markers (arg "%1_%2" base).toList ≠ [] := by
    rw [arg_base]
    exact List.ne_nil_of_mem (two_mem_markers base.toList)
  obtain ⟨first, rest, hne, heq⟩ := arg_pieces hmarkers
  have hdigits : ∀ n, (Nat.toDigits 10 n).flatMap f = Nat.toDigits 10 n := by
    intro n
    have hone : (Nat.toDigits 10 n).flatMap f = (Nat.toDigits 10 n).flatMap fun c => [c] :=
      List.flatMap_congr fun c hc => hf c (CScan.isDigit_toDigits hc)
    rw [hone, List.flatMap_singleton']
  rw [suffixed, suffixed, heq, heq, glue_flatMap, glue_flatMap] at h
  have hnum := glue_injective (by simpa using hne) h
  rw [number_toList, number_toList, hdigits, hdigits] at hnum
  have hvalue := @QNumber.ofDigits_toDigits 10 (by decide) (by decide) n
  rw [← hnum, QNumber.ofDigits_toDigits (by decide) (by decide)] at hvalue
  exact hvalue

/-- A base without `%`. -/
theorem suffixed_plain {base : String} (h : '%' ∉ base.toList) (n : Nat) :
    (suffixed base n).toList = base.toList ++ '_' :: Nat.toDigits 10 n := by
  have hbase : '%' ∉ base.toList ++ ['_'] := by simp [h]
  have hsplit : (arg "%1_%2" base).toList = (base.toList ++ ['_']) ++ "%2".toList := by
    rw [arg_base]
    simp
  have hmarkers : markers (arg "%1_%2" base).toList = [2] := by
    rw [hsplit, markers_append hbase]
    simp [markers, marker, digit]
  rw [suffixed, arg, hmarkers]
  simp only [List.min?_singleton, String.toList_ofList]
  rw [hsplit, replace_append hbase, number_toList]
  simp [replace, marker, digit]

/-! ## The ends of a name with a number -/

theorem marker_cons {c : Char} (hc : c ≠ 'L') (cs : List Char) : marker (c :: cs) = (digit c).map fun d =>
    match cs.head?.bind digit with
    | some d' => (10 * d + d', 2)
    | none => (d, 1) := by
  unfold marker
  split
  rename_i heq
  split at heq
  · rename_i h
    simp only [List.cons.injEq] at h
    exact absurd h.1 hc
  · cases heq
    rfl

/-- A marker does not reach over a character that no marker has. -/
theorem marker_le {xs ys : List Char} {n len : Nat} (h : marker (xs ++ '_' :: ys) = some (n, len)) : len ≤ xs.length := by
  have hno : digit '_' = none := by decide
  cases xs with
  | nil => simp [marker, hno] at h
  | cons c xs =>
    by_cases hc : c = 'L'
    · subst hc
      cases xs with
      | nil => simp [marker, hno] at h
      | cons d xs =>
        cases xs with
        | nil =>
          simp only [marker, List.cons_append, List.nil_append, List.head?_cons, Option.bind_some, hno] at h
          cases hd : digit d <;> simp [hd] at h
          simp [← h.2]
        | cons e xs =>
          simp only [marker, List.cons_append, List.head?_cons, Option.bind_some] at h
          cases hd : digit d <;> cases he : digit e <;> simp [hd, he] at h <;> simp [← h.2]
    · rw [List.cons_append, marker_cons hc] at h
      cases xs with
      | nil =>
        cases hd : digit c with
        | none => simp [hd] at h
        | some d =>
          simp [hd, hno] at h
          simp [← h.2]
      | cons e xs => cases hd : digit c <;> cases he : digit e <;> simp [hd, he] at h <;> simp [← h.2]

theorem replace_front (n : Nat) (a xs ys : List Char) (skip : Nat) (h : skip ≤ xs.length) :
    ∃ front, replace n a skip (xs ++ '_' :: ys) = front ++ replace n a 0 ('_' :: ys) := by
  induction xs generalizing skip with
  | nil =>
    have hzero : skip = 0 := by simpa using h
    exact ⟨[], by simp [hzero]⟩
  | cons c xs ih =>
    cases skip with
    | succ skip => exact ih skip (by simpa using h)
    | zero =>
      rw [List.cons_append, replace]
      split
      · rename_i n' len hm
        split at hm
        · obtain ⟨front, hfront⟩ := ih len (marker_le hm)
          obtain ⟨front', hfront'⟩ := ih 0 (Nat.zero_le _)
          split
          · exact ⟨a ++ front, by rw [hfront, List.append_assoc]⟩
          · exact ⟨c :: front', by rw [hfront']; rfl⟩
        · cases hm
      · obtain ⟨front', hfront'⟩ := ih 0 (Nat.zero_le _)
        exact ⟨c :: front', by rw [hfront']; rfl⟩

theorem suffixed_eq (base : String) (n : Nat) :
    ∃ k, (suffixed base n).toList = replace k (Nat.toDigits 10 n) 0 (base.toList ++ ['_', '%', '2']) := by
  have hmarkers : markers (arg "%1_%2" base).toList ≠ [] := by
    rw [arg_base]
    exact List.ne_nil_of_mem (two_mem_markers base.toList)
  obtain ⟨k, hk⟩ : ∃ k, (markers (arg "%1_%2" base).toList).min? = some k := by
    cases hmin : (markers (arg "%1_%2" base).toList).min? with
    | none => exact absurd (List.min?_eq_none_iff.1 hmin) hmarkers
    | some k => exact ⟨k, rfl⟩
  refine ⟨k, ?_⟩
  rw [suffixed, arg, hk, number_toList]
  simp [arg_base]

/-- It starts as the base does. -/
theorem suffixed_head {base : String} {c : Char} (hc : base.toList.head? = some c) (hne : c ≠ '%') (n : Nat) :
    (suffixed base n).toList.head? = some c := by
  obtain ⟨k, hk⟩ := suffixed_eq base n
  obtain ⟨cs, hcs⟩ := List.head?_eq_some_iff.1 hc
  rw [hk, hcs, List.cons_append, replace, if_neg hne, List.head?_cons]

/-- It ends in a digit, whatever the base. -/
theorem suffixed_last (base : String) (n : Nat) : ∃ c, (suffixed base n).toList.getLast? = some c ∧ c.isDigit = true := by
  obtain ⟨k, hk⟩ := suffixed_eq base n
  obtain ⟨front, hfront⟩ := replace_front k (Nat.toDigits 10 n) base.toList ['%', '2'] 0 (Nat.zero_le _)
  have hback : ∃ c, (replace k (Nat.toDigits 10 n) 0 ['_', '%', '2']).getLast? = some c ∧ c.isDigit = true := by
    by_cases htwo : k = 2
    · have hne : Nat.toDigits 10 n ≠ [] := Nat.toDigits_ne_nil
      refine ⟨(Nat.toDigits 10 n).getLast hne, ?_, CScan.isDigit_toDigits (List.getLast_mem hne)⟩
      simp [replace, marker, digit, htwo, List.getLast?_cons, List.getLast?_eq_some_getLast hne]
    · refine ⟨'2', ?_, by decide⟩
      have hnot : 2 ≠ k := Ne.symm htwo
      simp [replace, marker, digit, hnot]
  obtain ⟨c, hc, hdigit⟩ := hback
  exact ⟨c, by rw [hk, hfront, List.getLast?_append, hc]; rfl, hdigit⟩

end NekoEcat.QString
