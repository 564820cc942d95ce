import NekoEcat.Core.Strip
import NekoEcat.L2Daemon.DcStatus

/-!
# Jitter statistics

The least and the greatest jitter of a record are 0 as long as there is none. They
are taken for that also when all values so far were 0, so zeros in front are lost.

* `jitter_foldl`: the statistics of a block are those of its values, without the
  zeros in front.
* `statistics_iff`: when they are those of all values.
* `listed_iff`: when they are, for every slave of a listing.
-/
namespace NekoEcat.L2.DcJitter
open NekoEcat.QNumber NekoEcat.Regex NekoEcat.L2.CliBackend NekoEcat.L2.DcStatus

/-! ## What a listing says -/

/-- The jitter that a line prints. -/
def printed (line : Text) : Option Int := (firstMatch jitterRe line).bind fun g => integer 10 (captured g 1)

/-- The lines from the DC marker on. -/
def blockLines (body : List Text) : List Text :=
  (body.dropWhile fun line => !hasMatch dcCapableRe line).filter fun line => !hasMatch dcCapableRe line

def printedValues (sec : Section) : List Int := (blockLines sec.body).filterMap printed

/-- The statistics of a record are those of the values. -/
structure Statistics (vs : List Int) (info : DcSyncSlaveInfo) : Prop where
  least : info.jitterMinNs ∈ vs ∧ ∀ v ∈ vs, info.jitterMinNs ≤ v
  greatest : info.jitterMaxNs ∈ vs ∧ ∀ v ∈ vs, v ≤ info.jitterMaxNs
  average : info.jitterMinNs ≤ info.jitterAvgNs ∧ info.jitterAvgNs ≤ info.jitterMaxNs

/-- A record is that of the section. -/
structure Recorded (sec : Section) (info : DcSyncSlaveInfo) : Prop where
  position : info.position = sec.info.position
  jitter : printedValues sec ≠ [] → Statistics (printedValues sec) info

/-- A number of `int64_t` -/
def InRange (n : Int) : Prop := -2 ^ 63 ≤ n ∧ n < 2 ^ 63

instance (n : Int) : Decidable (InRange n) := inferInstanceAs (Decidable (_ ∧ _))

/-- The values without the zeros in front. -/
def afterZeros (vs : List Int) : List Int := vs.dropWhile (· = 0)

/-- The values can be put into a record. -/
structure Tallied (vs : List Int) : Prop where
  range : ∀ v ∈ vs, InRange v
  /-- Zeros in front are the only values, or others are on both sides of them. -/
  zeros : vs.head? = some 0 → afterZeros vs = [] ∨ (∃ v ∈ afterZeros vs, v ≤ 0) ∧ ∃ v ∈ afterZeros vs, 0 ≤ v
  /-- The sum of the least and the greatest is no overflow. -/
  sum : ∀ a ∈ vs, ∀ b ∈ vs, (∀ v ∈ vs, a ≤ v ∧ v ≤ b) → InRange (a + b)

/-! ## The values of a block -/

/-- What the parser makes of a value. -/
def parsed (v : Int) : Int := if InRange v then v else 0

theorem inRange_parsed (v : Int) : InRange (parsed v) := by
  unfold parsed
  split
  · assumption
  · exact ⟨by decide, by decide⟩

theorem toLongLong_eq {cs : Text} {v : Int} (h : integer 10 cs = some v) : toLongLong cs = parsed v := by
  unfold toLongLong parsed
  split
  · rename_i hrange
    rw [(@toSigned_eq_some 64 10 cs v).2 ⟨h, hrange⟩]
    rfl
  · rename_i hrange
    cases hs : toSigned 64 10 cs with
    | none => rfl
    | some n =>
      obtain ⟨hn, hboth⟩ := toSigned_eq_some.1 hs
      rw [h] at hn
      cases hn
      exact absurd hboth hrange

/-- Two records of the same jitter. -/
def SameJitter (a b : DcSyncSlaveInfo) : Prop :=
  a.jitterMinNs = b.jitterMinNs ∧ a.jitterMaxNs = b.jitterMaxNs ∧ a.jitterAvgNs = b.jitterAvgNs

theorem SameJitter.addJitter {a b : DcSyncSlaveInfo} (h : SameJitter a b) (v : Int) :
    SameJitter (addJitter a v) (addJitter b v) := by
  obtain ⟨hmin, hmax, -⟩ := h
  simp only [DcStatus.addJitter, SameJitter, hmin, hmax, and_self]

theorem addJitterOf_printed (info : DcSyncSlaveInfo) (line : Text) :
    addJitterOf info line = match printed line with
      | some v => addJitter info (parsed v)
      | none => info := by
  unfold addJitterOf printed
  cases hm : firstMatch jitterRe line with
  | none => rfl
  | some g =>
    obtain ⟨v, hv⟩ := integer_captured (by rfl) hm
    simp only [Option.bind_some, hv, toLongLong_eq hv]

section
variable {a b : DcSyncSlaveInfo}

/-- Inside of a block. -/
theorem foldl_inside (body : List Text) (h : SameJitter a b) :
    SameJitter (body.foldl detail (a, true)).1
      (((body.filter fun line => !hasMatch dcCapableRe line).filterMap printed).foldl (fun info v => addJitter info (parsed v)) b) := by
  induction body generalizing a b with
  | nil => exact h
  | cons line body ih =>
    rw [List.foldl_cons]
    cases hm : hasMatch dcCapableRe line with
    | true =>
      rw [List.filter_cons_of_neg (by simp [hm])]
      simp only [detail, hm, if_true]
      exact ih h
    | false =>
      rw [List.filter_cons_of_pos (by simp [hm])]
      simp only [detail, hm, Bool.false_eq_true, if_false, if_true]
      obtain ⟨driftNs, syncing, heq⟩ := addValues_eq a line
      rw [heq, addJitterOf_printed]
      cases hp : printed line with
      | none =>
        rw [List.filterMap_cons_none hp]
        exact ih h
      | some v =>
        rw [List.filterMap_cons_some hp, List.foldl_cons]
        exact ih (h.addJitter (parsed v))

/-- From a header on. -/
theorem foldl_outside (body : List Text) (h : SameJitter a b) :
    SameJitter (body.foldl detail (a, false)).1
      (((blockLines body).filterMap printed).foldl (fun info v => addJitter info (parsed v)) b) := by
  induction body generalizing a b with
  | nil => exact h
  | cons line body ih =>
    rw [List.foldl_cons, blockLines]
    cases hm : hasMatch dcCapableRe line with
    | true =>
      rw [List.dropWhile_cons_of_neg (by simp [hm]), List.filter_cons_of_neg (by simp [hm])]
      simp only [detail, hm, if_true]
      exact foldl_inside body h
    | false =>
      rw [List.dropWhile_cons_of_pos (by simp [hm])]
      simp only [detail, hm, Bool.false_eq_true, if_false]
      exact ih h

end

/-! ## The statistics -/

/-- The average that is computed of the ends. -/
def middle (a b : Int) : Int := (wrap64 (a + b)).tdiv 2

theorem middle_between_iff {a b : Int} (hle : a ≤ b) (ha : InRange a) (hb : InRange b) :
    a ≤ middle a b ∧ middle a b ≤ b ↔ InRange (a + b) := by
  unfold InRange at *
  unfold middle wrap64
  rw [Int.tdiv_eq_ediv]
  generalize hw : (a + b + 2 ^ 63) % 2 ^ 64 - 2 ^ 63 = w
  have hsign : Int.sign 2 = 1 := rfl
  rw [hsign]
  split <;> omega

/-- The statistics of some values. -/
structure Ends (vs : List Int) (info : DcSyncSlaveInfo) : Prop where
  least : info.jitterMinNs ∈ vs ∧ ∀ v ∈ vs, info.jitterMinNs ≤ v
  greatest : info.jitterMaxNs ∈ vs ∧ ∀ v ∈ vs, v ≤ info.jitterMaxNs
  average : info.jitterAvgNs = middle info.jitterMinNs info.jitterMaxNs

theorem Ends.le {vs : List Int} {info : DcSyncSlaveInfo} (h : Ends vs info) : info.jitterMinNs ≤ info.jitterMaxNs :=
  h.least.2 _ h.greatest.1

/-- Once there is a value that is not 0. -/
theorem Ends.addJitter {vs : List Int} {info : DcSyncSlaveInfo} (h : Ends vs info) (hne : ∃ v ∈ vs, v ≠ 0) (val : Int) :
    Ends (vs ++ [val]) (addJitter info val) := by
  obtain ⟨v, hv, hv0⟩ := hne
  have hset : ¬ (info.jitterMinNs = 0 ∧ info.jitterMaxNs = 0) := by
    rintro ⟨hmin, hmax⟩
    have hlow := h.least.2 v hv
    have hhigh := h.greatest.2 v hv
    omega
  have heq : DcStatus.addJitter info val = { info with
      jitterMinNs := min info.jitterMinNs val, jitterMaxNs := max info.jitterMaxNs val,
      jitterAvgNs := middle (min info.jitterMinNs val) (max info.jitterMaxNs val) } := by
    simp only [DcStatus.addJitter]
    rw [if_neg hset]
    rfl
  rw [heq]
  refine ⟨⟨?_, ?_⟩, ⟨?_, ?_⟩, rfl⟩
  · rcases Int.le_total info.jitterMinNs val with hle | hle
    · simp only [Int.min_eq_left hle]
      exact List.mem_append_left _ h.least.1
    · simp only [Int.min_eq_right hle]
      exact List.mem_append_right _ List.mem_cons_self
  · intro w hw
    rcases List.mem_append.1 hw with hw | hw
    · exact Int.le_trans (Int.min_le_left _ _) (h.least.2 w hw)
    · rw [List.mem_singleton.1 hw]
      exact Int.min_le_right _ _
  · rcases Int.le_total info.jitterMaxNs val with hle | hle
    · simp only [Int.max_eq_right hle]
      exact List.mem_append_right _ List.mem_cons_self
    · simp only [Int.max_eq_left hle]
      exact List.mem_append_left _ h.greatest.1
  · intro w hw
    rcases List.mem_append.1 hw with hw | hw
    · exact Int.le_trans (h.greatest.2 w hw) (Int.le_max_left _ _)
    · rw [List.mem_singleton.1 hw]
      exact Int.le_max_right _ _

theorem Ends.foldl {vs : List Int} {info : DcSyncSlaveInfo} (h : Ends vs info) (hne : ∃ v ∈ vs, v ≠ 0) (ws : List Int) :
    Ends (vs ++ ws) (ws.foldl DcStatus.addJitter info) := by
  induction ws generalizing vs info with
  | nil => rwa [List.append_nil]
  | cons w ws ih =>
    obtain ⟨v, hv, hv0⟩ := hne
    have hstep := ih (h.addJitter ⟨v, hv, hv0⟩ w) ⟨v, List.mem_append_left _ hv, hv0⟩
    rwa [List.append_assoc, List.singleton_append] at hstep

/-- No jitter yet. -/
def NoJitter (info : DcSyncSlaveInfo) : Prop := info.jitterMinNs = 0 ∧ info.jitterMaxNs = 0 ∧ info.jitterAvgNs = 0

/-- **The values without the zeros in front** make the statistics. -/
theorem jitter_foldl (vs : List Int) {info : DcSyncSlaveInfo} (h : NoJitter info) :
    (afterZeros vs = [] → NoJitter (vs.foldl DcStatus.addJitter info)) ∧
      (afterZeros vs ≠ [] → Ends (afterZeros vs) (vs.foldl DcStatus.addJitter info)) := by
  induction vs generalizing info with
  | nil => exact ⟨fun _ => h, fun hne => absurd rfl hne⟩
  | cons v vs ih =>
    have hfirst : DcStatus.addJitter info v = { info with jitterMinNs := v, jitterMaxNs := v, jitterAvgNs := middle v v } := by
      simp only [DcStatus.addJitter]
      rw [if_pos ⟨h.1, h.2.1⟩]
      rfl
    rw [List.foldl_cons]
    by_cases hv : v = 0
    · have hafter : afterZeros (v :: vs) = afterZeros vs := List.dropWhile_cons_of_pos (by simp [hv])
      have hzero : NoJitter (DcStatus.addJitter info v) := by
        rw [hfirst, hv]
        exact ⟨rfl, rfl, rfl⟩
      rw [hafter]
      exact ih hzero
    · have hafter : afterZeros (v :: vs) = v :: vs := List.dropWhile_cons_of_neg (by simp [hv])
      rw [hafter]
      refine ⟨fun hnil => absurd hnil (List.cons_ne_nil _ _), fun _ => ?_⟩
      have hone : Ends [v] (DcStatus.addJitter info v) := by
        rw [hfirst]
        exact ⟨⟨List.mem_cons_self, fun w hw => Int.le_of_eq (List.mem_singleton.1 hw).symm⟩,
          ⟨List.mem_cons_self, fun w hw => Int.le_of_eq (List.mem_singleton.1 hw)⟩, rfl⟩
      exact hone.foldl ⟨v, List.mem_cons_self, hv⟩ vs

section
variable {vs : List Int} {info : DcSyncSlaveInfo}

theorem mem_of_afterZeros {v : Int} (h : v ∈ afterZeros vs) : v ∈ vs := (List.dropWhile_sublist _).subset h

/-- A value is a zero in front, or behind the zeros. -/
theorem zero_or_after {v : Int} (h : v ∈ vs) : v ∈ afterZeros vs ∨ v = 0 ∧ vs.head? = some 0 := by
  cases vs with
  | nil => cases h
  | cons w vs =>
    by_cases hw : w = 0
    · subst hw
      by_cases hv : v = 0
      · exact Or.inr ⟨hv, rfl⟩
      · exact Or.inl (Strip.mem_dropWhile _ h (by simpa using hv))
    · have hafter : afterZeros (w :: vs) = w :: vs := List.dropWhile_cons_of_neg (by simp [hw])
      exact Or.inl (by rw [hafter]; exact h)

theorem eq_zero_of_afterZeros {v : Int} (h : afterZeros vs = []) (hv : v ∈ vs) : v = 0 := by
  rcases zero_or_after hv with hafter | hzero
  · rw [h] at hafter
    cases hafter
  · exact hzero.1

theorem map_parsed (h : ∀ v ∈ vs, InRange v) : vs.map parsed = vs := by
  have hid : vs.map parsed = vs.map id := List.map_congr_left fun v hv => if_pos (h v hv)
  rw [hid, List.map_id]

theorem inRange_of_ends {ws : List Int} (hws : ∀ v ∈ ws, InRange v) (hinfo : NoJitter info ∨ Ends ws info) :
    InRange info.jitterMinNs ∧ InRange info.jitterMaxNs := by
  rcases hinfo with ⟨hmin, hmax, -⟩ | hends
  · rw [hmin, hmax]
    exact ⟨by decide, by decide⟩
  · exact ⟨hws _ hends.least.1, hws _ hends.greatest.1⟩

/-- **When the statistics of a record are those of all values.** -/
theorem statistics_iff (hne : vs ≠ []) (hinfo : NoJitter info) :
    Statistics vs ((vs.map parsed).foldl addJitter info) ↔ Tallied vs := by
  obtain ⟨hnone, hends⟩ := jitter_foldl (vs.map parsed) hinfo
  have hparsed : ∀ v ∈ afterZeros (vs.map parsed), InRange v := by
    intro v hv
    obtain ⟨w, -, rfl⟩ := List.mem_map.1 (mem_of_afterZeros hv)
    exact inRange_parsed w
  generalize (vs.map parsed).foldl addJitter info = r at hnone hends ⊢
  have hcases : NoJitter r ∨ Ends (afterZeros (vs.map parsed)) r := by
    by_cases hafter : afterZeros (vs.map parsed) = []
    · exact Or.inl (hnone hafter)
    · exact Or.inr (hends hafter)
  obtain ⟨hmin, hmax⟩ := inRange_of_ends hparsed hcases
  -- the parser loses no value: the ends would not reach it
  have hrange : Statistics vs r → ∀ v ∈ vs, InRange v := fun h v hv =>
    ⟨Int.le_trans hmin.1 (h.least.2 v hv), Int.lt_of_le_of_lt (h.greatest.2 v hv) hmax.2⟩
  have hiff : (∀ v ∈ vs, InRange v) → (Statistics vs r ↔ Tallied vs) := by
    intro hin
    rw [map_parsed hin] at hnone hends
    have havg : Ends (afterZeros vs) r → (r.jitterMinNs ≤ r.jitterAvgNs ∧ r.jitterAvgNs ≤ r.jitterMaxNs ↔
        InRange (r.jitterMinNs + r.jitterMaxNs)) := fun h => h.average ▸ middle_between_iff h.le hmin hmax
    by_cases hafter : afterZeros vs = []
    · obtain ⟨hmin0, hmax0, havg0⟩ := hnone hafter
      obtain ⟨v, hv⟩ := List.exists_mem_of_ne_nil vs hne
      have hzero : (0 : Int) ∈ vs := eq_zero_of_afterZeros hafter hv ▸ hv
      refine iff_of_true ⟨?_, ?_, ?_⟩ ⟨hin, fun _ => Or.inl hafter, ?_⟩
      · rw [hmin0]
        exact ⟨hzero, fun w hw => Int.le_of_eq (eq_zero_of_afterZeros hafter hw).symm⟩
      · rw [hmax0]
        exact ⟨hzero, fun w hw => Int.le_of_eq (eq_zero_of_afterZeros hafter hw)⟩
      · rw [hmin0, hmax0, havg0]
        exact ⟨Int.le_refl 0, Int.le_refl 0⟩
      · intro a ha b hb _
        rw [eq_zero_of_afterZeros hafter ha, eq_zero_of_afterZeros hafter hb]
        exact ⟨by decide, by decide⟩
    · have hr := hends hafter
      constructor
      · intro h
        refine ⟨hin, fun hhead => Or.inr ?_, fun a ha b hb hbetween => ?_⟩
        · have hzero : (0 : Int) ∈ vs := List.mem_of_mem_head? hhead
          exact ⟨⟨_, hr.least.1, h.least.2 0 hzero⟩, _, hr.greatest.1, h.greatest.2 0 hzero⟩
        · have ha' : a = r.jitterMinNs := Int.le_antisymm (hbetween _ h.least.1).1 (h.least.2 a ha)
          have hb' : b = r.jitterMaxNs := Int.le_antisymm (h.greatest.2 b hb) (hbetween _ h.greatest.1).2
          rw [ha', hb']
          exact (havg hr).1 h.average
      · intro h
        have hleast : ∀ v ∈ vs, r.jitterMinNs ≤ v := by
          intro v hv
          rcases zero_or_after hv with hv | ⟨rfl, hhead⟩
          · exact hr.least.2 v hv
          · obtain ⟨⟨w, hw, hle⟩, -⟩ := (h.zeros hhead).resolve_left hafter
            exact Int.le_trans (hr.least.2 w hw) hle
        have hgreatest : ∀ v ∈ vs, v ≤ r.jitterMaxNs := by
          intro v hv
          rcases zero_or_after hv with hv | ⟨rfl, hhead⟩
          · exact hr.greatest.2 v hv
          · obtain ⟨-, w, hw, hle⟩ := (h.zeros hhead).resolve_left hafter
            exact Int.le_trans hle (hr.greatest.2 w hw)
        have hmem := mem_of_afterZeros hr.least.1
        have hmem' := mem_of_afterZeros hr.greatest.1
        exact ⟨⟨hmem, hleast⟩, ⟨hmem', hgreatest⟩,
          (havg hr).2 (h.sum _ hmem _ hmem' fun v hv => ⟨hleast v hv, hgreatest v hv⟩)⟩
  exact ⟨fun h => (hiff (hrange h)).1 h, fun h => (hiff h.range).2 h⟩

end

theorem header_noJitter {line : Text} {info : DcSyncSlaveInfo} (h : header line = some info) : NoJitter info := by
  unfold header at h
  split at h
  · cases h
    exact ⟨rfl, rfl, rfl⟩
  · obtain ⟨m, hm, rfl⟩ := Option.map_eq_some_iff.1 h
    exact ⟨rfl, rfl, rfl⟩

theorem sections_noJitter (ls : List Text) : ∀ sec ∈ (sections ls).2, NoJitter sec.info := by
  induction ls with
  | nil => exact fun sec h => absurd h List.not_mem_nil
  | cons line ls ih =>
    cases hheader : header line with
    | none =>
      rw [sections_detail ls hheader]
      exact ih
    | some info =>
      rw [sections_header ls hheader]
      intro sec hsec
      rcases List.mem_cons.1 hsec with rfl | hsec
      · exact header_noJitter hheader
      · exact ih sec hsec

theorem Statistics.of_same {vs : List Int} {a b : DcSyncSlaveInfo} (h : SameJitter a b) (hs : Statistics vs b) :
    Statistics vs a := by
  obtain ⟨hmin, hmax, havg⟩ := h
  obtain ⟨hleast, hgreatest, haverage⟩ := hs
  rw [← hmin] at hleast haverage
  rw [← hmax] at hgreatest haverage
  rw [← havg] at haverage
  exact ⟨hleast, hgreatest, haverage⟩

theorem recorded_iff {sec : Section} (h : NoJitter sec.info) : Recorded sec (record sec) ↔ Tallied (printedValues sec) := by
  have hsame : SameJitter (record sec) (((printedValues sec).map parsed).foldl addJitter sec.info) := by
    rw [List.foldl_map]
    exact foldl_outside sec.body ⟨rfl, rfl, rfl⟩
  have hsame' : SameJitter (((printedValues sec).map parsed).foldl addJitter sec.info) (record sec) :=
    ⟨hsame.1.symm, hsame.2.1.symm, hsame.2.2.symm⟩
  by_cases hne : printedValues sec = []
  · refine iff_of_true ⟨record_position sec, fun h => absurd hne h⟩ ?_
    rw [hne]
    exact ⟨fun _ hv => absurd hv List.not_mem_nil, fun hhead => (nomatch hhead), fun _ ha => absurd ha List.not_mem_nil⟩
  · rw [← statistics_iff hne h]
    exact ⟨fun hr => (hr.jitter hne).of_same hsame', fun hs => ⟨record_position sec, fun _ => hs.of_same hsame⟩⟩

/-- **The records of a listing**, one for each header and in their order, have the
statistics of all values that their blocks print, iff the values of each block can
be put into a record. -/
theorem listed_iff (slaveVerboseOutput : Text) :
    List.Forall₂ Recorded (sections (lines slaveVerboseOutput)).2 (queryDcStatus slaveVerboseOutput) ↔
      ∀ sec ∈ (sections (lines slaveVerboseOutput)).2, Tallied (printedValues sec) := by
  rw [queryDcStatus_eq, List.forall₂_map_right_iff, List.forall₂_same]
  exact forall₂_congr fun sec hsec => recorded_iff (sections_noJitter _ sec hsec)

/-- A block that prints 0 and 5. -/
def zeroFirst : Text :=
  "Alias 0x0000, Position 0x0000
  Distributed Clocks:
    Jitter: 0 ns
    Jitter: 5 ns".toList

theorem zero_lost : ¬ ∀ slaveVerboseOutput : Text,
    List.Forall₂ Recorded (sections (lines slaveVerboseOutput)).2 (queryDcStatus slaveVerboseOutput) := by
  intro h
  have hprinted : (sections (lines zeroFirst)).2.map printedValues = [[0, 5]] := by decide
  have hrecords : (queryDcStatus zeroFirst).map (·.jitterMinNs) = [5] := by decide
  obtain ⟨sec, secs, hsecs, hvalues, hnil⟩ := List.map_eq_cons_iff.1 hprinted
  obtain ⟨info, infos, hinfos, hmin, -⟩ := List.map_eq_cons_iff.1 hrecords
  have hlisted := h zeroFirst
  rw [hsecs, hinfos, List.forall₂_cons] at hlisted
  have hstatistics := hlisted.1.jitter (by rw [hvalues]; exact List.cons_ne_nil _ _)
  have hleast := hstatistics.least.2 0 (by rw [hvalues]; exact List.mem_cons_self)
  rw [hmin] at hleast
  exact absurd hleast (by decide)

end NekoEcat.L2.DcJitter
