import NekoEcat.L4Gui.SdoAgreement
import NekoEcat.L4Gui.SdoWrites

/-!
# The object of an acknowledgement

The acknowledgement of a write is a log message, and the object is read off it
by an expression. Its words end at white space, so a text with white space in
the wrong place names another object or none, and then the editor's object is
taken.

* `completed_plain`: the message names the object of its download, white space
  before the index and behind the subindex aside.
* `completed_named`: the same, or the editor shows the object.
-/
namespace NekoEcat.L4.SdoWrites
open NekoEcat.QJson NekoEcat.QNumber NekoEcat.QString NekoEcat.Regex NekoEcat.L4.EcatClient

/-- `"SDO download complete #%1: %2:%3"` -/
def completeMessage (position : Int) (index subIndex : String) : String :=
  "SDO download complete #" ++ toString position ++ ": " ++ index ++ ":" ++ subIndex

/-- No white space in the index but at its start, none in the subindex but at
its end. -/
def Plain (index subIndex : String) : Prop :=
  (∀ c ∈ index.toList.dropWhile isBlank, isBlank c = false) ∧
    ∀ c ∈ subIndex.toList.rdropWhile isBlank, isBlank c = false

/-- The object that the acknowledgement is attributed to is that of the
download: by the message, or where that does not match, by the editor. -/
def Named (editor : Editor) (position : Int) (index subIndex : String) : Prop :=
  Plain index subIndex ∨
    firstMatch completeRe (completeMessage position index subIndex).toList = none ∧
      sdoEvidenceKey editor.selectedPosition.toInt editor.sdoIndex editor.sdoSubIndex =
        sdoEvidenceKey position index subIndex

instance (index subIndex : String) : Decidable (Plain index subIndex) :=
  @instDecidableAnd _ _ (List.decidableBAll _ _) (List.decidableBAll _ _)

instance (editor : Editor) (position : Int) (index subIndex : String) : Decidable (Named editor position index subIndex) :=
  inferInstanceAs (Decidable (Plain _ _ ∨ _ ∧ _))

/-! ## Numbers -/

theorem toInt_number {n : Int} (h : -2 ^ 31 ≤ n) (h' : n < 2 ^ 31) : toInt 10 (QString.number n).toList = some n := by
  rw [QString.number, String.toList_ofList]
  cases n with
  | ofNat m =>
    have hd := toSigned_digits (w := 32) (by decide) (Nat.toDigits_ne_nil (n := m) (b := 10))
      (isDigitOf_toDigits (by decide) (by decide))
    rw [ofDigits_toDigits (by decide) (by decide)] at hd
    exact hd.trans (if_pos (by simp only [Int.ofNat_eq_natCast] at h'; omega))
  | negSucc m =>
    have hdigits : ∀ c ∈ Nat.toDigits 10 (m + 1), isDigitOf 10 c = true := isDigitOf_toDigits (by decide) (by decide)
    have htrim : trim ('-' :: Nat.toDigits 10 (m + 1)) = '-' :: Nat.toDigits 10 (m + 1) := by
      refine trim_of_not_space fun c hc => ?_
      obtain rfl | hc := List.mem_cons.1 hc
      · decide
      · have hlt := isDigitOf_iff.1 (hdigits c hc)
        exact not_isSpace_of_digitVal (by omega)
    have hle : m + 1 ≤ 2 ^ 31 := by
      rw [Int.negSucc_eq] at h
      omega
    have hmag := magnitude_digits (by decide : 10 ≤ 16) Nat.toDigits_ne_nil hdigits
    rw [ofDigits_toDigits (by decide) (by decide)] at hmag
    rw [QJson.intText, SdoAgreement.toInt_minus htrim, hmag]
    simp only [Option.filter, decide_eq_true hle, if_true, Option.map_some]
    rw [Int.negSucc_eq]
    rfl

theorem mem_trim {c : Char} {cs : List Char} (h : c ∈ cs) (hc : isSpace c = false) : c ∈ trim cs := by
  have hdrop : ∀ l : List Char, c ∈ l → c ∈ l.dropWhile isSpace := by
    intro l hl
    rw [← List.takeWhile_append_dropWhile (p := isSpace) (l := l), List.mem_append] at hl
    refine hl.resolve_left fun ht => ?_
    rw [List.mem_takeWhile_imp ht] at hc
    cases hc
  exact List.mem_reverse.2 (hdrop _ (List.mem_reverse.2 (hdrop _ h)))

/-- A number has no other characters than digits, a sign, white space and the
letter of its prefix. -/
theorem mem_of_toUnsigned {w base n : Nat} {cs : List Char} (hb : base ≤ 16) (h : toUnsigned w base cs = some n) {c : Char}
    (hc : c ∈ cs) (hs : isSpace c = false) : c = '+' ∨ c = 'x' ∨ c = 'X' ∨ isDigitOf 16 c = true := by
  have hmag := magnitude_eq_some.1 (Option.filter_eq_some_iff.1 h).1
  have hct := mem_trim hc hs
  have hplus : c = '+' ∨ c ∈ skipPlus (trim cs) := by
    obtain he | he := SdoReadBack.skipPlus_cases (trim cs)
    · exact .inr (he ▸ hct)
    · rw [he, List.mem_cons] at hct
      exact hct
  refine hplus.imp_right fun hc => ?_
  have hpre : ∀ l : List Char, c ∈ l → c = 'x' ∨ c = 'X' ∨ c = '0' ∨ c ∈ skipPrefix base l := by
    intro l hl
    unfold skipPrefix
    split
    · split
      · rename_i hx
        simp only [List.mem_cons] at hl
        grind
      · exact .inr (.inr (.inr hl))
    · exact .inr (.inr (.inr hl))
  obtain h | h | rfl | h := hpre _ hc
  · exact .inl h
  · exact .inr (.inl h)
  · exact .inr (.inr (by decide))
  · exact .inr (.inr (isDigitOf_mono hb (hmag.2.1 c h)))

/-- What passes as an address has no colon and is not blank. -/
theorem colon_not_mem {text : List Char} {n : Nat} (h : SdoValidation.parseNumber text = some n) : ':' ∉ text := by
  have hcolon : ∀ {w base : Nat} {cs : List Char}, base ≤ 16 → toUnsigned w base cs = some n → ':' ∉ cs := by
    intro w base cs hb hn hc
    obtain h | h | h | h := mem_of_toUnsigned hb hn hc (by decide)
    · exact absurd h (by decide)
    · exact absurd h (by decide)
    · exact absurd h (by decide)
    · exact absurd h (by decide)
  intro hc
  have hct := mem_trim hc (by decide)
  unfold SdoValidation.parseNumber toULongLong at h
  dsimp only at h
  split at h
  · rename_i h0
    refine hcolon (by decide) h ?_
    unfold startsWith0x at h0
    split at h0
    · rename_i c cs hcs
      rw [hcs] at hct ⊢
      rw [Bool.or_eq_true, beq_iff_eq, beq_iff_eq] at h0
      simp only [List.mem_cons] at hct
      obtain hct | hct | hct := hct
      · exact absurd hct (by decide)
      · obtain rfl | rfl := h0
        · exact absurd hct (by decide)
        · exact absurd hct (by decide)
      · exact hct
    · cases h0
  · exact hcolon (by decide) h hct

theorem trim_ne_nil {text : List Char} {n : Nat} (h : SdoValidation.parseNumber text = some n) : trim text ≠ [] := by
  intro ht
  have hnone : SdoValidation.parseNumber [] = none := by decide
  have htt : SdoValidation.parseNumber text = SdoValidation.parseNumber [] := by
    unfold SdoValidation.parseNumber
    rw [ht]
    rfl
  rw [htt, hnone] at h
  cases h

/-! ## The message -/

theorem not_isInk {c : Char} (h : isBlank c = true) : isInk c = false := by rw [isInk, h]; rfl

/-- `\s*(\S+):(\S+)` -/
def wordsRe : Re :=
  .cat (.many isBlank) (.cat (.group (.plus isInk)) (.cat (.lit [':']) (.cat (.group (.plus isInk)) (.lit []))))

section
variable {ws i t rest : List Char} (hws : ∀ c ∈ ws, isBlank c = true) (hi : i ≠ []) (hink : ∀ c ∈ i, isInk c = true)
  (ht : t ≠ []) (htink : ∀ c ∈ t, isInk c = true) (hrest : ∀ c ∈ rest, isBlank c = true) (hcolon : ':' ∉ t)
include hws hi hink ht htink hrest hcolon

/-- The two words: the first gives back as far as the only colon. -/
theorem run_words (g : Groups) :
    run wordsRe (ws ++ (i ++ ':' :: (t ++ rest))) g (fun s' g' => some (g', s')) = some (g ++ [some i, some t], rest) := by
  have hsecond : run (.cat (.group (.plus isInk)) (.lit [])) (t ++ rest) (g ++ [some i]) (fun s' g' => some (g', s')) =
      some (g ++ [some i, some t], rest) := by
    have hstop : Stops isInk rest := fun c hc => not_isInk (hrest c (List.mem_of_mem_head? hc))
    rw [run_cat]
    refine run_group_greedy ht htink hstop ?_
    rw [run_nil]
    simp
  have hnone : ∀ s : List Char, ∀ g' : Groups, s <:+ t ++ rest →
      run (.cat (.lit [':']) (.cat (.group (.plus isInk)) (.lit []))) s g' (fun s' g' => some (g', s')) = none := by
    intro s g' hs
    cases s with
    | nil => rfl
    | cons c s =>
      refine run_rejects ?_ s g' _
      have hc : c ∈ t ++ rest := hs.subset List.mem_cons_self
      simp only [Re.rejects, bne_iff_ne]
      rintro rfl
      obtain hc | hc := List.mem_append.1 hc
      · exact hcolon hc
      · exact absurd (hrest _ hc) (by decide)
  have hstop : Stops isBlank (i ++ ':' :: (t ++ rest)) :=
    stops_append hi (fun c hc => by simpa [isInk] using hink c hc) _
  refine many_greedy hws hstop ?_
  refine run_group_last hi hink hnone ?_
  rw [run_lit_same, run_nil_cat, hsecond]

/-- **The words of the message**: number, index and subindex. -/
theorem firstMatch_complete {ds : List Char} (hds : ds ≠ []) (hd : ∀ c ∈ ds, isDigitOf 10 c = true) :
    firstMatch completeRe ("SDO download complete".toList ++ ([' '] ++ '#' :: (ds ++ ':' ::
        (' ' :: (ws ++ (i ++ ':' :: (t ++ rest))))))) = some [some ds, some i, some t] := by
  have hblanks : ∀ c ∈ ' ' :: ws, isBlank c = true := by
    intro c hc
    obtain rfl | hc := List.mem_cons.1 hc
    · decide
    · exact hws c hc
  have hwords := run_words hblanks hi hink ht htink hrest hcolon [some ds]
  have hre : completeRe = .cat (.lit "SDO download complete".toList) (.cat
      (.alt (.cat (.plus isBlank) (.cat (.lit ['#']) (.cat (.group (.plus (isDigitOf 10))) (.lit [])))) (.lit []))
      (.cat (.lit [':']) wordsRe)) := rfl
  rw [List.cons_append] at hwords
  generalize ' ' :: (ws ++ (i ++ ':' :: (t ++ rest))) = tail at hwords ⊢
  have hnumber : run (.cat (.plus isBlank) (.cat (.lit ['#']) (.cat (.group (.plus (isDigitOf 10))) (.lit []))))
      ([' '] ++ '#' :: (ds ++ ':' :: tail)) []
      (fun s' g' => run (.cat (.lit [':']) wordsRe) s' (g' ++ List.replicate 0 none) fun s' g' => some (g', s')) =
        some ([some ds, some i, some t], rest) := by
    rw [run_plus_cat (List.all_eq_true.1 (by decide)) (stops_cons (by decide) _) ?_ (List.cons_ne_nil _ _), run_lit_same, run_nil_cat]
    · have hstop : Stops (isDigitOf 10) (':' :: tail) := stops_cons (by decide) _
      rw [run_cat]
      refine run_group_greedy hds hd hstop ?_
      rw [run_nil, List.replicate_zero, List.append_nil, List.nil_append, run_lit_same, run_nil_cat, hwords]
      rfl
    · intro c hc
      simp only [Re.rejects, bne_iff_ne]
      rintro rfl
      exact absurd hc (by decide)
  have hmatch : matchStart completeRe ("SDO download complete".toList ++ ([' '] ++ '#' :: (ds ++ ':' :: tail))) =
      some ([some ds, some i, some t], rest) := by
    rw [matchStart, hre, run_lit_cat, run_cat, run, show Re.groups (.lit []) = 0 from rfl, hnumber]
    rfl
  exact firstMatch_start (List.append_ne_nil_of_right_ne_nil _ (by simp)) hmatch

end

/-! ## The object -/

theorem isSpace_of_isBlank {c : Char} (h : isBlank c = true) : isSpace c = true := by
  simp only [isBlank, isSpace, Bool.or_eq_true, beq_iff_eq, Bool.and_eq_true, decide_eq_true_eq] at h ⊢
  omega

theorem trim_append_left {a b : List Char} (h : ∀ c ∈ a, isSpace c = true) : trim (a ++ b) = trim b := by
  rw [trim, List.dropWhile_append_of_pos h]
  rfl

theorem trim_append_right {a b : List Char} (h : ∀ c ∈ b, isSpace c = true) : trim (a ++ b) = trim a := by
  have hb : b.dropWhile isSpace = [] := List.dropWhile_eq_nil_iff.2 h
  unfold trim
  rw [List.dropWhile_append]
  split
  · rename_i he
    rw [hb, List.isEmpty_iff.1 he]
  · rw [List.reverse_append, List.dropWhile_append_of_pos fun c hc => h c (List.mem_reverse.1 hc)]

theorem normalizeHexText_congr {a b : List Char} (h : trim a = trim b) (minimumDigits : Nat) :
    normalizeHexText a minimumDigits = normalizeHexText b minimumDigits := by
  unfold normalizeHexText
  rw [h]

theorem sdoEvidenceKey_congr {position : Int} {index subIndex index' subIndex' : String}
    (hi : trim index.toList = trim index'.toList) (hs : trim subIndex.toList = trim subIndex'.toList) :
    sdoEvidenceKey position index subIndex = sdoEvidenceKey position index' subIndex' := by
  unfold sdoEvidenceKey
  rw [normalizeHexText_congr hi, normalizeHexText_congr hs]

theorem toString_natCast (n : Nat) : (toString (n : Int)).toList = Nat.toDigits 10 n := by
  show (Nat.repr n).toList = _
  rw [Nat.repr, String.toList_ofList]

theorem completeMessage_toList (n : Nat) (index subIndex : String) :
    (completeMessage n index subIndex).toList =
      "SDO download complete".toList ++ ([' '] ++ '#' :: (Nat.toDigits 10 n ++ ':' ::
        (' ' :: (index.toList ++ ':' :: subIndex.toList)))) := by
  have hlabel : "SDO download complete #" = "SDO download complete" ++ " #" := by decide +kernel
  have hhash : " #".toList = [' ', '#'] := by decide
  have hcolon : ": ".toList = [':', ' '] := by decide
  have hcolon' : ":".toList = [':'] := by decide
  unfold completeMessage
  simp only [hlabel]
  generalize "SDO download complete" = label
  simp only [String.toList_append, toString_natCast, hhash, hcolon, hcolon', List.append_assoc, List.cons_append,
    List.nil_append]

/-- **The message names the object of its download.** -/
theorem completed_plain (editor : Editor) {p : Int32} (hp : 0 ≤ p.toInt) {index subIndex : String}
    (hplain : Plain index subIndex) (hi : trim index.toList ≠ []) (hs : trim subIndex.toList ≠ [])
    (hcolon : ':' ∉ subIndex.toList) :
    (toInt 10 (completedObject editor (completeMessage p.toInt index subIndex)).1.toList).getD 0 = p.toInt ∧
      trim (completedObject editor (completeMessage p.toInt index subIndex)).2.1.toList = trim index.toList ∧
      trim (completedObject editor (completeMessage p.toInt index subIndex)).2.2.toList = trim subIndex.toList := by
  obtain ⟨n, hn⟩ := Int.eq_ofNat_of_zero_le hp
  have hlt := Int32.toInt_lt p
  -- the white space and the words of the two texts
  have hidx := List.takeWhile_append_dropWhile (p := isBlank) (l := index.toList)
  have hsub : subIndex.toList.rdropWhile isBlank ++ (subIndex.toList.reverse.takeWhile isBlank).reverse = subIndex.toList := by
    have hr := congrArg List.reverse (List.takeWhile_append_dropWhile (p := isBlank) (l := subIndex.toList.reverse))
    rwa [List.reverse_append, List.reverse_reverse] at hr
  have hws : ∀ c ∈ index.toList.takeWhile isBlank, isBlank c = true := fun c hc => List.mem_takeWhile_imp hc
  have hrest : ∀ c ∈ (subIndex.toList.reverse.takeWhile isBlank).reverse, isBlank c = true := fun c hc =>
    List.mem_takeWhile_imp (List.mem_reverse.1 hc)
  have htrimi : trim (index.toList.dropWhile isBlank) = trim index.toList := by
    conv_rhs => rw [← hidx]
    rw [trim_append_left fun c hc => isSpace_of_isBlank (hws c hc)]
  have htrims : trim (subIndex.toList.rdropWhile isBlank) = trim subIndex.toList := by
    conv_rhs => rw [← hsub]
    rw [trim_append_right fun c hc => isSpace_of_isBlank (hrest c hc)]
  have hne : index.toList.dropWhile isBlank ≠ [] := fun h => hi (by rw [← htrimi, h]; rfl)
  have hne' : subIndex.toList.rdropWhile isBlank ≠ [] := fun h => hs (by rw [← htrims, h]; rfl)
  have hcolon' : ':' ∉ subIndex.toList.rdropWhile isBlank := fun h => hcolon (by
    rw [← hsub]
    exact List.mem_append_left _ h)
  have hmatch := firstMatch_complete hws hne (fun c hc => by rw [isInk, hplain.1 c hc]; rfl) hne'
    (fun c hc => by rw [isInk, hplain.2 c hc]; rfl) hrest hcolon' (Nat.toDigits_ne_nil (n := n) (b := 10))
    (isDigitOf_toDigits (by decide) (by decide))
  have hsplit : index.toList ++ ':' :: subIndex.toList =
      index.toList.takeWhile isBlank ++ (index.toList.dropWhile isBlank ++ ':' ::
        (subIndex.toList.rdropWhile isBlank ++ (subIndex.toList.reverse.takeWhile isBlank).reverse)) := by
    rw [hsub, ← List.append_assoc, hidx]
  have hobject : completedObject editor (completeMessage p.toInt index subIndex) =
      (String.ofList (Nat.toDigits 10 n), String.ofList (index.toList.dropWhile isBlank),
        String.ofList (subIndex.toList.rdropWhile isBlank)) := by
    unfold completedObject
    rw [hn, completeMessage_toList, hsplit, hmatch]
    have hdigits : captured [some (Nat.toDigits 10 n), some (index.toList.dropWhile isBlank),
        some (subIndex.toList.rdropWhile isBlank)] 0 ≠ "" := by
      intro h
      have h := congrArg String.toList h
      simp only [captured, List.getD_cons_zero, Option.getD_some, String.toList_ofList] at h
      exact absurd h Nat.toDigits_ne_nil
    dsimp only
    rw [if_neg hdigits]
    rfl
  rw [hobject]
  refine ⟨?_, ?_, ?_⟩
  · have hnum : String.ofList (Nat.toDigits 10 n) = QString.number p.toInt := by
      rw [hn]
      rfl
    dsimp only
    rw [hnum, toInt_number (Int32.le_toInt p) hlt]
    rfl
  · dsimp only
    rw [String.toList_ofList, htrimi]
  · dsimp only
    rw [String.toList_ofList, htrims]

/-- The key of the object that an acknowledgement is attributed to. -/
def completedKey (editor : Editor) (message : String) : String :=
  sdoEvidenceKey ((toInt 10 (completedObject editor message).1.toList).getD 0) (completedObject editor message).2.1
    (completedObject editor message).2.2

/-- **The key of the acknowledgement is that of the download.** -/
theorem completed_named {editor : Editor} {p : Int32} (hp : 0 ≤ p.toInt) {index subIndex : String}
    (h : Named editor p.toInt index subIndex) (hi : trim index.toList ≠ []) (hs : trim subIndex.toList ≠ [])
    (hcolon : ':' ∉ subIndex.toList) :
    completedKey editor (completeMessage p.toInt index subIndex) = sdoEvidenceKey p.toInt index subIndex := by
  unfold completedKey
  obtain hplain | ⟨hnone, hkey⟩ := h
  · obtain ⟨h1, h2, h3⟩ := completed_plain editor hp hplain hi hs hcolon
    rw [h1]
    exact sdoEvidenceKey_congr h2 h3
  · unfold completedObject
    rw [hnone, ← hkey]
    dsimp only
    rw [toInt_number (Int32.le_toInt _) (Int32.toInt_lt _)]
    rfl

end NekoEcat.L4.SdoWrites
