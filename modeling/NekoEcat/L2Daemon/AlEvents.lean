import NekoEcat.Core.Newest
import NekoEcat.Core.Trace
import NekoEcat.L2Daemon.CliBackend

/-!
# Application layer events (`AlEventHandler`)

`poll` goes through the lines of `ethercat slaves` and takes a line with four fields
for the slave of its number, counted from the first line that is not empty. A new
status that is no healthy one becomes an event. `parseSlaves` takes the number that
is printed on the line.

* `slaveOf_fields`: a line of a slave, field by field.
* `observations_eq`: when both number the slaves alike.
* `events_attributed`: the events of runs with such output.
-/
namespace NekoEcat.L2.AlEvents
open NekoEcat.Newest NekoEcat.QNumber NekoEcat.QString NekoEcat.Regex NekoEcat.Trace NekoEcat.L2.CliBackend

/-! ## The code -/

/-- mirrors apps/ecatd/handlers/AlEventHandler.h:11-18 -/
structure AlEventEntry where
  timestampMs : Int
  slave : Int
  slaveName : String
  alStatusCode : String
  description : String
  severity : String
  deriving DecidableEq

structure AlEventHandler where
  events : List AlEventEntry
  previousAlStatus : List String

def started : AlEventHandler := ⟨[], []⟩

def kMaxEvents : Nat := 1000

/-- `split(QRegularExpression("\\s+"), Qt::SkipEmptyParts)` -/
def fields (line : List Char) : List String := ((line.splitOnP isBlank).filter (· ≠ [])).map String.ofList

/-- `split('\n', Qt::SkipEmptyParts)` -/
def lines (output : String) : List (List Char) := (output.toList.splitOn '\n').filter (· ≠ [])

/-- `resize(pos + 1)` if there are fewer. -/
def resized (statuses : List String) (pos : Nat) : List String :=
  statuses ++ List.replicate (pos + 1 - statuses.length) ""

def healthy (state : String) : Bool := state == "OP" || state == "SAFEOP" || state == "PREOP"

/-- A line and its number, at the time `clock` gives for it.
mirrors apps/ecatd/handlers/AlEventHandler.cpp:29-60 -/
def pollLine (clock : Nat → Int) (acc : List String × List AlEventEntry) (numbered : List Char × Nat) :
    List String × List AlEventEntry :=
  let parts := fields numbered.1
  let pos := numbered.2
  if parts.length < 4 then acc
  else
    let state := parts.getD 2 ""
    let statuses := resized acc.1 pos
    let changed := statuses.getD pos "" != state
    let entry : AlEventEntry :=
      { timestampMs := clock pos
        slave := pos
        slaveName := parts.getD 4 ""
        alStatusCode := state
        severity := if state = "INIT" then "Error" else "Warning"
        description := "Slave " ++ number pos ++ " in " ++ state ++ " state" }
    (statuses.set pos state, if changed && !healthy state then acc.2 ++ [entry] else acc.2)

/-- mirrors apps/ecatd/handlers/AlEventHandler.cpp:15-63 -/
def pollSlaveAlStatus (clock : Nat → Int) (output : String) (previous : List String) :
    List String × List AlEventEntry :=
  if output = "" then (previous, []) else (lines output).zipIdx.foldl (pollLine clock) (previous, [])

/-- mirrors apps/ecatd/handlers/AlEventHandler.cpp:6-13 -/
def poll (clock : Nat → Int) (output : String) (h : AlEventHandler) : AlEventHandler :=
  let r := pollSlaveAlStatus clock output h.previousAlStatus
  ⟨r.2.foldl (keep kMaxEvents) h.events, r.1⟩

/-- mirrors apps/ecatd/handlers/AlEventHandler.cpp:96-100 -/
def addEvent (entry : AlEventEntry) (h : AlEventHandler) : AlEventHandler :=
  { h with events := keep kMaxEvents h.events entry }

/-- What is done with a handler. -/
inductive Call where
  | poll (clock : Nat → Int) (output : String)
  | addEvent (entry : AlEventEntry)
  | clear

def step (h : AlEventHandler) : Call → AlEventHandler
  | .poll clock output => poll clock output h
  | .addEvent entry => addEvent entry h
  | .clear => started

/-! ## Observations -/

/-- The last status of each slave, and the events. -/
structure Observed where
  statuses : Int → String
  history : List (Int × String)

def unobserved : Observed := ⟨fun _ => "", []⟩

/-- A slave and its status. -/
def observe (s : Observed) (slave : Int × String) : Observed :=
  ⟨Function.update s.statuses slave.1 slave.2,
    if s.statuses slave.1 != slave.2 && !healthy slave.2 then s.history ++ [slave] else s.history⟩

/-- The handler as it is meant: slaves have the positions that are printed. -/
def stepMeant (s : Observed) : Call → Observed
  | .poll _ output => ((parseSlaves output).map fun slave => (slave.position, slave.state)).foldl observe s
  | .addEvent entry => { s with history := s.history ++ [(entry.slave, entry.alStatusCode)] }
  | .clear => unobserved

/-! ## Lines of slaves -/

/-- What `parseSlaves` makes of a line. -/
def slaveOf (line : List Char) : Option SlaveInfo :=
  (matchStart slaveRe line).map fun m =>
    { position := (toInt 10 (captured m.1 1)).getD 0
      state := String.ofList (captured m.1 2)
      flags := String.ofList (captured m.1 3)
      name := trimmed (String.ofList (captured m.1 4))
      rawLine := String.ofList line }

theorem parseSlaves_eq (output : String) : parseSlaves output = (lines output).filterMap slaveOf := rfl

theorem fields_blank {c : Char} (hc : isBlank c = true) (s : List Char) : fields (c :: s) = fields s := by
  simp [fields, List.splitOnP_cons_eq_if_modifyHead, hc]

theorem fields_blanks {b : List Char} (hb : ∀ c ∈ b, isBlank c = true) (s : List Char) : fields (b ++ s) = fields s := by
  induction b with
  | nil => rfl
  | cons c b ih =>
    obtain ⟨hc, hb⟩ := List.forall_mem_cons.1 hb
    rw [List.cons_append, fields_blank hc, ih hb]

/-- A word that ends before a blank. -/
theorem fields_word {w : List Char} (hne : w ≠ []) (hw : ∀ c ∈ w, isBlank c = false) {b : List Char} (hbne : b ≠ [])
    (hb : ∀ c ∈ b, isBlank c = true) (s : List Char) : fields (w ++ (b ++ s)) = String.ofList w :: fields s := by
  cases b with
  | nil => exact absurd rfl hbne
  | cons c b =>
    obtain ⟨hc, hb⟩ := List.forall_mem_cons.1 hb
    have hsplit : (w ++ c :: (b ++ s)).splitOnP isBlank = w :: (b ++ s).splitOnP isBlank :=
      List.splitOnP_append_cons_of_forall_mem hw c hc _
    rw [← fields_blanks hb s, List.cons_append, fields, fields, hsplit, List.filter_cons_of_pos (by simpa using hne),
      List.map_cons]

theorem not_isBlank_of_isDigitOf {c : Char} (h : isDigitOf 10 c = true) : isBlank c = false := by
  have hval := of_decide_eq_true h
  have hrange := range_of_digitVal (show digitVal c < 36 by omega)
  simp only [isBlank, Bool.or_eq_false_iff, beq_eq_false_iff_ne, Bool.and_eq_false_iff, decide_eq_false_iff_not]
  omega

/-- **A line of a slave** has four fields at least; the first is its position, the
third its state. -/
theorem slaveOf_fields {line : List Char} {slave : SlaveInfo} (h : slaveOf line = some slave) :
    ∃ first second fourth rest, fields line = first :: second :: slave.state :: fourth :: rest ∧
      slave.position = (toInt 10 first.toList).getD 0 := by
  obtain ⟨m, hm, rfl⟩ := Option.map_eq_some_iff.1 h
  obtain ⟨text, s', caps, rfl, hreads, hk⟩ := run_reads hm
  have hcaps : m.1 = caps := by rw [← Option.some.inj hk]; rfl
  obtain ⟨b0, r0, rfl, ⟨hb0, -⟩, h0⟩ := reads_cat_plain rfl hreads
  obtain ⟨w1, r1, _, _, rfl, rfl, ⟨_, hg1, rfl⟩, h1⟩ := h0
  obtain ⟨hw1ne, hw1, rfl⟩ := reads_plus hg1
  obtain ⟨b1, r2, rfl, hb1, h2⟩ := reads_cat_plain rfl h1
  obtain ⟨hb1ne, hb1, -⟩ := reads_plus hb1
  obtain ⟨w2, r3, rfl, hw2, h3⟩ := reads_cat_plain rfl h2
  obtain ⟨hw2ne, hw2, -⟩ := reads_plus hw2
  obtain ⟨b2, r4, rfl, hb2, h4⟩ := reads_cat_plain rfl h3
  obtain ⟨hb2ne, hb2, -⟩ := reads_plus hb2
  obtain ⟨w3, r5, _, _, rfl, rfl, ⟨_, hg3, rfl⟩, h5⟩ := h4
  obtain ⟨hw3ne, hw3, rfl⟩ := reads_plus hg3
  obtain ⟨b3, r6, rfl, hb3, h6⟩ := reads_cat_plain rfl h5
  obtain ⟨hb3ne, hb3, -⟩ := reads_plus hb3
  obtain ⟨w4, r7, _, _, rfl, rfl, ⟨_, hg4, rfl⟩, h7⟩ := h6
  obtain ⟨hw4ne, hw4, rfl⟩ := reads_plus hg4
  obtain ⟨b4, r8, rfl, hb4, -⟩ := reads_cat_plain rfl h7
  obtain ⟨hb4ne, hb4, -⟩ := reads_plus hb4
  have hword : ∀ {w : List Char}, (∀ c ∈ w, (!isBlank c) = true) → ∀ c ∈ w, isBlank c = false :=
    fun hw c hc => by simpa using hw c hc
  refine ⟨String.ofList w1, String.ofList w2, String.ofList w4, fields (r8 ++ s'), ?_, ?_⟩
  · have hstate : captured m.1 2 = w3 := by rw [hcaps]; rfl
    simp only [List.append_assoc, hstate]
    rw [fields_blanks hb0, fields_word hw1ne (fun c hc => not_isBlank_of_isDigitOf (hw1 c hc)) hb1ne hb1,
      fields_word hw2ne (hword hw2) hb2ne hb2, fields_word hw3ne (hword hw3) hb3ne hb3,
      fields_word hw4ne (hword hw4) hb4ne hb4]
  · have hposition : captured m.1 1 = w1 := by rw [hcaps]; rfl
    simp only [hposition, String.toList_ofList]

/-! ## Numbering -/

/-- Both number the slaves alike: each line that is not empty and has four fields is
that of a slave, whose printed position is the number of the line. -/
def Aligned (output : String) : Prop :=
  ∀ (i : Nat) line, (lines output)[i]? = some line → 4 ≤ (fields line).length →
    ∃ slave, slaveOf line = some slave ∧ slave.position = i

/-- What the handler sees on a line. -/
def observation (numbered : List Char × Nat) : Option (Int × String) :=
  if (fields numbered.1).length < 4 then none else some (numbered.2, (fields numbered.1).getD 2 "")

/-- **What the handler sees** is what is printed. -/
theorem observations_eq {output : String} (h : Aligned output) :
    (lines output).zipIdx.filterMap observation =
      (parseSlaves output).map fun slave => (slave.position, slave.state) := by
  have hline : ∀ numbered ∈ (lines output).zipIdx,
      observation numbered = (slaveOf numbered.1).map fun slave => (slave.position, slave.state) := by
    rintro ⟨line, i⟩ hmem
    have hget : (lines output)[i]? = some line := by simpa [List.mem_zipIdx_iff_getElem?] using hmem
    unfold observation
    by_cases hfew : (fields line).length < 4
    · rw [if_pos hfew]
      cases hslave : slaveOf line with
      | none => rfl
      | some slave =>
        obtain ⟨_, _, _, _, hfields, -⟩ := slaveOf_fields hslave
        rw [hfields] at hfew
        exact absurd hfew (by simp)
    · rw [if_neg hfew]
      obtain ⟨slave, hslave, hposition⟩ := h i line hget (not_lt.1 hfew)
      obtain ⟨_, _, _, _, hfields, -⟩ := slaveOf_fields hslave
      rw [hslave, hfields, Option.map_some, hposition]
      rfl
  rw [List.filterMap_congr hline, parseSlaves_eq, List.map_filterMap]
  have hfst : (lines output).zipIdx.map Prod.fst = lines output := List.zipIdx_map_fst 0 _
  conv_rhs => rw [← hfst, List.filterMap_map]
  rfl

/-! ## Runs -/

/-- The texts of the slaves, and of all other positions. -/
def Agree (previous : List String) (statuses : Int → String) : Prop :=
  ∀ k : Int, statuses k = if 0 ≤ k then previous.getD k.toNat "" else ""

theorem getD_resized (previous : List String) (pos k : Nat) : (resized previous pos).getD k "" = previous.getD k "" := by
  unfold resized
  simp only [List.getD_eq_getElem?_getD, List.getElem?_append, List.getElem?_replicate]
  split
  · rfl
  · rename_i h
    rw [List.getElem?_eq_none (not_lt.1 h)]
    split <;> rfl

theorem agree_set {previous : List String} {statuses : Int → String} (h : Agree previous statuses) (pos : Nat)
    (state : String) : Agree ((resized previous pos).set pos state) (Function.update statuses pos state) := by
  intro k
  by_cases hk : k = pos
  · subst hk
    have hlt : pos < (resized previous pos).length := by
      rw [resized, List.length_append, List.length_replicate]
      omega
    rw [Function.update_self, if_pos (Int.natCast_nonneg pos), Int.toNat_natCast, List.getD_eq_getElem?_getD,
      List.getElem?_set_self hlt, Option.getD_some]
  · rw [Function.update_of_ne hk, h k]
    by_cases hpos : 0 ≤ k
    · have hne : pos ≠ k.toNat := by omega
      rw [if_pos hpos, if_pos hpos, ← getD_resized previous pos, List.getD_eq_getElem?_getD, List.getD_eq_getElem?_getD,
        List.getElem?_set_ne hne]
    · rw [if_neg hpos, if_neg hpos]

/-- What an event says of whom. -/
def attribution (entry : AlEventEntry) : Int × String := (entry.slave, entry.alStatusCode)

/-- A poll so far, beside the observations so far; `old` are the events before it. -/
structure Along (old : List (Int × String)) (acc : List String × List AlEventEntry) (s : Observed) : Prop where
  statuses : Agree acc.1 s.statuses
  history : s.history = old ++ acc.2.map attribution

theorem along_pollLine {old : List (Int × String)} {acc : List String × List AlEventEntry} {s : Observed}
    (h : Along old acc s) (clock : Nat → Int) (numbered : List Char × Nat) :
    Along old (pollLine clock acc numbered) ((observation numbered).toList.foldl observe s) := by
  unfold pollLine observation
  dsimp only
  by_cases hfew : (fields numbered.1).length < 4
  · rw [if_pos hfew, if_pos hfew]
    exact h
  · rw [if_neg hfew, if_neg hfew, Option.toList_some, List.foldl_cons, List.foldl_nil]
    generalize (fields numbered.1).getD 2 "" = state
    have hprevious : s.statuses numbered.2 = (resized acc.1 numbered.2).getD numbered.2 "" := by
      rw [h.statuses, if_pos (Int.natCast_nonneg _), Int.toNat_natCast, getD_resized]
    refine ⟨agree_set h.statuses numbered.2 state, ?_⟩
    dsimp only [observe]
    rw [hprevious, h.history]
    split
    · rw [List.map_append, List.append_assoc]
      rfl
    · rfl

theorem along_foldl (clock : Nat → Int) {old : List (Int × String)} (numbered : List (List Char × Nat)) :
    ∀ {acc : List String × List AlEventEntry} {s : Observed}, Along old acc s →
      Along old (numbered.foldl (pollLine clock) acc) ((numbered.filterMap observation).foldl observe s) := by
  induction numbered with
  | nil => exact fun h => h
  | cons l ls ih =>
    intro acc s h
    have hnext := ih (along_pollLine h clock l)
    rw [List.foldl_cons, List.filterMap_cons]
    cases hl : observation l with
    | none =>
      rw [hl] at hnext
      exact hnext
    | some o =>
      rw [hl] at hnext
      exact hnext

/-- The handler, beside the one that is meant. -/
structure Meant (h : AlEventHandler) (s : Observed) : Prop where
  statuses : Agree h.previousAlStatus s.statuses
  events : h.events.map attribution = s.history.rtake kMaxEvents

/-- A poll with output in which both number the slaves alike. -/
def Call.Aligned : Call → Prop
  | .poll _ output => AlEvents.Aligned output
  | _ => True

theorem map_foldl_keep (k : Nat) (old new : List AlEventEntry) :
    (new.foldl (keep k) old).map attribution = (new.map attribution).foldl (keep k) (old.map attribution) := by
  induction new generalizing old with
  | nil => rfl
  | cons a new ih =>
    have hkeep : (keep k old a).map attribution = keep k (old.map attribution) (attribution a) := by
      unfold keep
      rw [← List.map_singleton, ← List.map_append, List.length_map, ← List.map_tail]
      split <;> rfl
    rw [List.foldl_cons, ih, hkeep, List.map_cons, List.foldl_cons]

theorem meant_step {h : AlEventHandler} {s : Observed} (hmeant : Meant h s) {call : Call} (hcall : call.Aligned) :
    Meant (step h call) (stepMeant s call) := by
  cases call with
  | poll clock output =>
    have hpoll : Along s.history (pollSlaveAlStatus clock output h.previousAlStatus)
        (stepMeant s (.poll clock output)) := by
      have hstart : Along s.history (h.previousAlStatus, []) s := ⟨hmeant.statuses, (List.append_nil _).symm⟩
      have hfold := along_foldl clock (lines output).zipIdx hstart
      rw [observations_eq hcall] at hfold
      unfold pollSlaveAlStatus
      by_cases hempty : output = ""
      · rw [if_pos hempty, hempty]
        exact hstart
      · rw [if_neg hempty]
        exact hfold
    refine ⟨hpoll.statuses, ?_⟩
    change ((pollSlaveAlStatus clock output h.previousAlStatus).2.foldl (keep kMaxEvents) h.events).map attribution = _
    rw [map_foldl_keep, hmeant.events, foldl_keep, hpoll.history]
  | addEvent entry =>
    refine ⟨hmeant.statuses, ?_⟩
    have hkeep := map_foldl_keep kMaxEvents h.events [entry]
    rw [hmeant.events, foldl_keep] at hkeep
    exact hkeep
  | clear => exact ⟨fun k => by simp [step, stepMeant, started, unobserved], (List.rtake_nil _).symm⟩

/-- **The events are attributed to the slaves they come from**, and are those of the
changes of status, in every run whose polls have output in which the number of each
line with four fields is the position that `parseSlaves` reads there. -/
theorem events_attributed (calls : List Call) (hcalls : ∀ call ∈ calls, call.Aligned) :
    (exec step started calls).events.map attribution =
        ((exec stepMeant unobserved calls).history).rtake kMaxEvents ∧
      ∀ k : Nat,
        (exec step started calls).previousAlStatus.getD k "" = (exec stepMeant unobserved calls).statuses k := by
  have hrun : ∀ calls h s, Meant h s → (∀ call ∈ calls, Call.Aligned call) →
      Meant (exec step h calls) (exec stepMeant s calls) := by
    intro calls
    induction calls with
    | nil => exact fun _ _ hmeant _ => hmeant
    | cons call calls ih =>
      intro h s hmeant hcalls
      obtain ⟨hcall, hcalls⟩ := List.forall_mem_cons.1 hcalls
      exact ih _ _ (meant_step hmeant hcall) hcalls
  have hmeant := hrun calls started unobserved
    ⟨fun k => by simp [started, unobserved], by simp [started, unobserved]⟩ hcalls
  exact ⟨hmeant.events, fun k => by simpa using (hmeant.statuses k).symm⟩

/-- Two slaves, the first of which is not ready. -/
def twoSlaves : String := "0  0:0  INIT  +  EL1008\n1  0:1  OP  +  EL2004\n"

theorem aligned_twoSlaves : Aligned twoSlaves := by
  have hlines : lines twoSlaves = ["0  0:0  INIT  +  EL1008".toList, "1  0:1  OP  +  EL2004".toList] := by decide +kernel
  intro i line hline _
  rw [hlines] at hline
  match i, hline with
  | 0, hline =>
    obtain rfl := Option.some.inj hline
    exact ⟨⟨0, "INIT", "+", "EL1008", "0  0:0  INIT  +  EL1008"⟩, by decide +kernel, rfl⟩
  | 1, hline =>
    obtain rfl := Option.some.inj hline
    exact ⟨⟨1, "OP", "+", "EL2004", "1  0:1  OP  +  EL2004"⟩, by decide +kernel, rfl⟩

theorem twoSlaves_attributed :
    (exec step started [.poll (fun _ => 0) twoSlaves]).events.map attribution =
      ((exec stepMeant unobserved [.poll (fun _ => 0) twoSlaves]).history).rtake kMaxEvents :=
  (events_attributed [.poll (fun _ => 0) twoSlaves] fun _ hcall => List.mem_singleton.1 hcall ▸ aligned_twoSlaves).1

/-- A line in front of the slaves, as there is one with several masters: the event of
the slave 0 goes to the slave 1. -/
theorem header_shifts :
    ¬ ∀ output, (exec step started [.poll (fun _ => 0) output]).events.map attribution =
      ((exec stepMeant unobserved [.poll (fun _ => 0) output]).history).rtake kMaxEvents := by
  intro h
  have hcode : (exec step started [.poll (fun _ => 0) "Master0\n0  0:0  INIT  +  EL1008\n"]).events.map attribution =
      [(1, "INIT")] := by decide +kernel
  have hmeant : ((exec stepMeant unobserved
      [.poll (fun _ => 0) "Master0\n0  0:0  INIT  +  EL1008\n"]).history).rtake kMaxEvents = [(0, "INIT")] := by
    decide +kernel
  have heq := hcode.symm.trans ((h _).trans hmeant)
  exact absurd heq (by decide)

end NekoEcat.L2.AlEvents
