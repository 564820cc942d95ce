import NekoEcat.L4Gui.Consistency

/-!
# The next command of a CiA 402 drive

`decodeCia402Value` writes the state of a statusword as text, and
`recommendedCia402ControlwordFromStatus` finds the state again by looking for one name
after the other inside that text. Two names contain another one: "Not ready to switch
on" contains "ready to switch on", and "Fault reaction active" contains "fault".

* `contains_statusText`: nothing behind the name is found.
* `recommended_statusText`: what each state is taken for.
* `command_fits_iff`: the statuswords whose command fits.
* `switchOn_notReady`: a command for a drive that takes none.
-/
namespace NekoEcat.L4.Cia402Drive
open NekoEcat.QNumber NekoEcat.L4.Consistency NekoEcat.L4.SdoWrites

/-! ## The value as text -/

/-- The low 64 bits of a number, as `qint64` -/
def qint64 (n : Int) : Int := Int.bmod n (2 ^ 64)

/-- `static_cast<quint16>(number)` -/
def quint16 (n : Int) : Nat := (n % 2 ^ 16).toNat

/-- mirrors apps/ecat-studio/models/Cia402DriveModel.cpp:10-31 -/
def parseInteger (text : List Char) : Option Int :=
  let text := trim text
  if text.isEmpty then none
  else
    let negative := text.head? == some '-'
    let text := if negative then text.drop 1 else text
    let parsed := if startsWith0x text then toULongLong 16 (text.drop 2) else toULongLong 10 text
    parsed.map fun n => if negative then qint64 (-qint64 n) else qint64 n

/-- mirrors apps/ecat-studio/models/Cia402DriveModel.cpp:34-36 -/
def hex16 (number : Int) : List Char := lower (hexText 4 (quint16 number))

/-- The states that a statusword is decoded to. -/
inductive DriveState where
  | notReadyToSwitchOn | switchOnDisabled | readyToSwitchOn | switchedOn | operationEnabled | quickStopActive
  | faultReactionActive | fault | unknown
  deriving DecidableEq, Repr

def DriveState.name : DriveState → String
  | .notReadyToSwitchOn => "Not ready to switch on"
  | .switchOnDisabled => "Switch on disabled"
  | .readyToSwitchOn => "Ready to switch on"
  | .switchedOn => "Switched on"
  | .operationEnabled => "Operation enabled"
  | .quickStopActive => "Quick stop active"
  | .faultReactionActive => "Fault reaction active"
  | .fault => "Fault"
  | .unknown => "Unknown state"

def flagNames : List (Nat × String) :=
  [(0x0010, "voltage"), (0x0080, "warning"), (0x0200, "remote"), (0x0400, "target reached"), (0x0800, "internal limit")]

section
variable (sw : Nat)

/-- mirrors apps/ecat-studio/models/Cia402DriveModel.cpp:88-106 -/
def driveState : DriveState :=
  if sw &&& 0x004f = 0x0000 then .notReadyToSwitchOn
  else if sw &&& 0x004f = 0x0040 then .switchOnDisabled
  else if sw &&& 0x006f = 0x0021 then .readyToSwitchOn
  else if sw &&& 0x006f = 0x0023 then .switchedOn
  else if sw &&& 0x006f = 0x0027 then .operationEnabled
  else if sw &&& 0x006f = 0x0007 then .quickStopActive
  else if sw &&& 0x004f = 0x000f then .faultReactionActive
  else if sw &&& 0x004f = 0x0008 then .fault
  else .unknown

/-- mirrors apps/ecat-studio/models/Cia402DriveModel.cpp:107-122 -/
def flags : List String := flagNames.filterMap fun e => if sw &&& e.1 ≠ 0 then some e.2 else none

/-- mirrors apps/ecat-studio/models/Cia402DriveModel.cpp:123-124 -/
def statusText : List Char :=
  if (flags sw).isEmpty then (driveState sw).name.toList ++ " (".toList ++ hex16 sw ++ ")".toList
  else
    (driveState sw).name.toList ++ " (".toList ++ hex16 sw ++ ", ".toList ++
      ", ".toList.intercalate ((flags sw).map String.toList) ++ ")".toList

/-- mirrors apps/ecat-studio/models/Cia402DriveModel.cpp:127-145 -/
def commandNames : List String :=
  (if sw &&& 0x0080 ≠ 0 then ["fault reset"] else []) ++
    if sw &&& 0x000f = 0x0006 then ["shutdown"]
    else if sw &&& 0x000f = 0x0007 then ["switch on"]
    else if sw &&& 0x000f = 0x000f then ["enable operation"]
    else if sw &&& 0x000f = 0x0002 then ["quick stop"]
    else if sw &&& 0x000f = 0x0000 then ["disable voltage"]
    else []

def controlText : List Char :=
  if (commandNames sw).isEmpty then "Controlword ".toList ++ hex16 sw
  else ", ".toList.intercalate ((commandNames sw).map String.toList) ++ " (".toList ++ hex16 sw ++ ")".toList

end

def modes : List (Int × String) :=
  [(1, "Profile position"), (3, "Profile velocity"), (4, "Profile torque"), (6, "Homing"), (7, "Interpolated position"),
    (8, "Cyclic sync position"), (9, "Cyclic sync velocity"), (10, "Cyclic sync torque")]

/-- `modes.value(static_cast<int>(numeric), …)` -/
def modeText (numeric : Int) : List Char :=
  match modes.find? fun e => e.1 == Int.bmod numeric (2 ^ 32) with
  | some e => e.2.toList
  | none => "Mode ".toList ++ QJson.intText numeric

/-- The objects whose text does not depend on the value. -/
def fixedTexts : List (String × String) :=
  [("0x6064", "Actual position"), ("0x606c", "Actual velocity"), ("0x6077", "Actual torque"), ("0x607a", "Target position"),
    ("0x60ff", "Target velocity"), ("0x6071", "Target torque")]

def normalizedIndex (index : String) : String := String.ofList (lower (trim index.toList))

/-- mirrors apps/ecat-studio/models/Cia402DriveModel.cpp:78-183 -/
def decodeCia402Value (index value : String) : List Char :=
  match parseInteger value.toList with
  | none => []
  | some numeric =>
    if normalizedIndex index = "0x6041" then statusText (quint16 numeric)
    else if normalizedIndex index = "0x6040" then controlText (quint16 numeric)
    else if normalizedIndex index = "0x6060" ∨ normalizedIndex index = "0x6061" then modeText numeric
    else if normalizedIndex index = "0x603f" then
      if numeric = 0 then "No error".toList else "Error code ".toList ++ hex16 numeric
    else ((fixedTexts.find? fun e => e.1 == normalizedIndex index).map (·.2.toList)).getD []

/-! ## The recommendation -/

structure Recommendation where
  label : String := ""
  value : String := ""
  reason : List Char
  deriving DecidableEq, Repr

/-- mirrors apps/ecat-studio/models/Cia402DriveModel.cpp:41-64 -/
def recommendedCia402ControlwordFromStatus (decodedStatusword : List Char) : Recommendation :=
  let normalized := lower decodedStatusword
  if contains normalized "fault" then { label := "Fault Reset", value := "0x0080", reason := decodedStatusword }
  else if contains normalized "switch on disabled" then
    { label := "Shutdown", value := "0x0006", reason := decodedStatusword }
  else if contains normalized "ready to switch on" then
    { label := "Switch On", value := "0x0007", reason := decodedStatusword }
  else if contains normalized "switched on" then
    { label := "Enable Operation", value := "0x000f", reason := decodedStatusword }
  else if contains normalized "quick stop active" then
    { label := "Shutdown", value := "0x0006", reason := decodedStatusword }
  else { reason := decodedStatusword }

/-! ## What a command is for -/

inductive Command where
  | shutdown | switchOn | enableOperation | disableVoltage | quickStop | faultReset
  deriving DecidableEq, Repr

def Command.label : Command → String
  | .shutdown => "Shutdown"
  | .switchOn => "Switch On"
  | .enableOperation => "Enable Operation"
  | .disableVoltage => "Disable Voltage"
  | .quickStop => "Quick Stop"
  | .faultReset => "Fault Reset"

def Command.controlword : Command → String
  | .shutdown => "0x0006"
  | .switchOn => "0x0007"
  | .enableOperation => "0x000f"
  | .disableVoltage => "0x0000"
  | .quickStop => "0x0002"
  | .faultReset => "0x0080"

/-- The command that is proposed for a text. -/
def propose (reason : List Char) : Option Command → Recommendation
  | some c => { label := c.label, value := c.controlword, reason }
  | none => { reason }

/-- The commands that lead out of a state. `stopped` are those of a drive that made a
quick stop, which the profile lets the drive choose in part. -/
def Fits (stopped : Command → Prop) (r : Recommendation) : DriveState → Prop
  | .fault => r = propose r.reason (some .faultReset)
  | .switchOnDisabled => r = propose r.reason (some .shutdown)
  | .readyToSwitchOn => r = propose r.reason (some .switchOn)
  | .switchedOn => r = propose r.reason (some .enableOperation)
  | .quickStopActive => ∃ c, stopped c ∧ r = propose r.reason (some c)
  | .notReadyToSwitchOn | .operationEnabled | .faultReactionActive | .unknown => r = propose r.reason none

/-! ## The name inside the text -/

/-- What stands behind the opening parenthesis. -/
def tail (sw : Nat) : List Char :=
  hex16 sw ++
    if (flags sw).isEmpty then ")".toList
    else ", ".toList ++ ", ".toList.intercalate ((flags sw).map String.toList) ++ ")".toList

theorem statusText_eq (sw : Nat) : statusText sw = (driveState sw).name.toList ++ [' '] ++ '(' :: tail sw := by
  unfold statusText tail
  split <;> simp

/-- Every name that is looked for has one of these letters, and the tail has none. -/
def isNameLetter (c : Char) : Bool := c.toLower == 's' || c.toLower == 'u'

theorem isNameLetter_toLower (c : Char) : isNameLetter c.toLower = isNameLetter c := by
  rw [isNameLetter, toLower_toLower]
  rfl

theorem isNameLetter_hex16 {n : Int} {c : Char} (h : c ∈ hex16 n) : isNameLetter c = false := by
  obtain ⟨d, hd, rfl⟩ := List.mem_map.1 h
  have hval : digitVal d < 16 ∨ d = 'x' := by
    simp only [hexText, List.mem_append, List.mem_replicate] at hd
    rcases hd with hd | ⟨-, rfl⟩ | hd
    · have hx : "0x".toList.all (fun d => decide (digitVal d < 16) || d == 'x') = true := by decide +kernel
      simpa using List.all_eq_true.1 hx d hd
    · exact .inl (by decide)
    · exact .inl (isDigitOf_iff.1 (isDigitOf_toDigits (by decide) (by decide) d hd))
  rw [isNameLetter_toLower]
  rcases hval with hval | rfl
  · rw [← digitVal_toLower] at hval
    refine Bool.eq_false_iff.2 fun hletter => ?_
    rcases Bool.or_eq_true_iff.1 hletter with hs | hu
    · rw [beq_iff_eq.1 hs] at hval
      exact absurd hval (by decide)
    · rw [beq_iff_eq.1 hu] at hval
      exact absurd hval (by decide)
  · rfl

theorem forall_mem_intercalate {P : Char → Prop} {sep : List Char} {l : List (List Char)} (hsep : ∀ c ∈ sep, P c)
    (hl : ∀ cs ∈ l, ∀ c ∈ cs, P c) : ∀ c ∈ sep.intercalate l, P c := by
  match l with
  | [] => simp
  | [cs] => simpa using hl
  | cs :: cs' :: l =>
    have hrest := forall_mem_intercalate (l := cs' :: l) hsep fun cs hcs => hl cs (List.mem_cons_of_mem _ hcs)
    intro c hc
    rw [List.intercalate_cons_cons, List.mem_append, List.mem_append] at hc
    rcases hc with (hc | hc) | hc
    · exact hl cs List.mem_cons_self c hc
    · exact hsep c hc
    · exact hrest c hc

theorem isNameLetter_of_all {cs : List Char} (h : (cs.all fun c => !isNameLetter c) = true) :
    ∀ c ∈ cs, isNameLetter c = false := by
  intro c hc
  simpa using List.all_eq_true.1 h c hc

theorem isNameLetter_tail {sw : Nat} : ∀ c ∈ tail sw, isNameLetter c = false := by
  have hclose : ∀ c ∈ ")".toList, isNameLetter c = false := isNameLetter_of_all (by decide +kernel)
  have hsep : ∀ c ∈ ", ".toList, isNameLetter c = false := isNameLetter_of_all (by decide +kernel)
  intro c hc
  rcases List.mem_append.1 hc with hhex | hrest
  · exact isNameLetter_hex16 hhex
  · split at hrest
    · exact hclose c hrest
    · simp only [List.mem_append] at hrest
      rcases hrest with (hc | hc) | hc
      · exact hsep c hc
      · refine forall_mem_intercalate hsep (fun cs hcs c hc => ?_) c hc
        obtain ⟨name, hname, rfl⟩ := List.mem_map.1 hcs
        obtain ⟨e, he, hsome⟩ := List.mem_filterMap.1 hname
        have hnames : flagNames.all (fun e => e.2.toList.all fun c => !isNameLetter c) = true := by decide +kernel
        split at hsome
        · obtain rfl := Option.some.inj hsome
          exact isNameLetter_of_all (List.all_eq_true.1 hnames e he) c hc
        · exact absurd hsome (by simp)
      · exact hclose c hc

theorem lower_append (a b : List Char) : lower (a ++ b) = lower a ++ lower b := List.map_append

/-- **Nothing behind the name** is found. -/
theorem contains_statusText {pattern : String} (hparen : pattern.toList.all (· != '(') = true)
    (hletter : pattern.toList.any isNameLetter = true) (sw : Nat) :
    contains (lower (statusText sw)) pattern = contains (lower ((driveState sw).name.toList ++ [' '])) pattern := by
  refine decide_eq_decide.2 ?_
  rw [statusText_eq, lower_append, List.infix_append_iff]
  constructor
  · rintro (hname | htail | ⟨front, back, heq, hfront, hback⟩)
    · exact hname
    · obtain ⟨c, hc, hcletter⟩ := List.any_eq_true.1 hletter
      obtain ⟨d, hd, rfl⟩ := List.mem_map.1 (htail.subset hc)
      rw [isNameLetter_toLower] at hcletter
      rcases List.mem_cons.1 hd with rfl | hd
      · exact absurd hcletter (by decide)
      · rw [isNameLetter_tail d hd] at hcletter
        exact absurd hcletter (by decide)
    · cases back with
      | nil =>
        rw [heq, List.append_nil]
        exact hfront.isInfix
      | cons c back =>
        obtain ⟨rfl, -⟩ := List.cons_prefix_cons.1 hback
        have hmem : '(' ∈ pattern.toList := heq ▸ List.mem_append_right front List.mem_cons_self
        exact absurd (List.all_eq_true.1 hparen _ hmem) (by decide)
  · exact .inl

/-! ## The state that is found -/

/-- The command for the first name that a text contains. -/
def lookFor (normalized : List Char) : Option Command :=
  if contains normalized "fault" then some .faultReset
  else if contains normalized "switch on disabled" then some .shutdown
  else if contains normalized "ready to switch on" then some .switchOn
  else if contains normalized "switched on" then some .enableOperation
  else if contains normalized "quick stop active" then some .shutdown
  else none

theorem recommended_eq (text : List Char) :
    recommendedCia402ControlwordFromStatus text = propose text (lookFor (lower text)) := by
  simp only [recommendedCia402ControlwordFromStatus, lookFor, apply_ite (propose text)]
  rfl

/-- What a state is taken for. -/
def takenFor : DriveState → Option Command
  | .notReadyToSwitchOn | .readyToSwitchOn => some .switchOn
  | .switchOnDisabled | .quickStopActive => some .shutdown
  | .switchedOn => some .enableOperation
  | .faultReactionActive | .fault => some .faultReset
  | .operationEnabled | .unknown => none

theorem lookFor_name (s : DriveState) : lookFor (lower (s.name.toList ++ [' '])) = takenFor s := by
  cases s <;> decide +kernel

/-- **What is found** in the text of a statusword. -/
theorem recommended_statusText (sw : Nat) :
    recommendedCia402ControlwordFromStatus (statusText sw) = propose (statusText sw) (takenFor (driveState sw)) := by
  rw [recommended_eq, ← lookFor_name, lookFor, lookFor]
  rw [contains_statusText (by decide +kernel) (by decide +kernel),
    contains_statusText (by decide +kernel) (by decide +kernel),
    contains_statusText (by decide +kernel) (by decide +kernel),
    contains_statusText (by decide +kernel) (by decide +kernel),
    contains_statusText (by decide +kernel) (by decide +kernel)]

/-! ## The statuswords whose command fits -/

/-- The command proposed for a statusword fits its state. -/
def FitsText (stopped : Command → Prop) (index text : String) : Prop :=
  normalizedIndex index = "0x6041" → ∀ numeric ∈ parseInteger text.toList,
    Fits stopped (recommendedCia402ControlwordFromStatus (decodeCia402Value index text)) (driveState (quint16 numeric))

/-- The state is not taken for another one, and a drive that made a quick stop may be
shut down. -/
def Told (stopped : Command → Prop) (s : DriveState) : Prop :=
  s ≠ .notReadyToSwitchOn ∧ s ≠ .faultReactionActive ∧ (s = .quickStopActive → stopped .shutdown)

theorem label_ne_empty (c : Command) : c.label ≠ "" := by
  cases c <;> decide

theorem propose_inj {reason : List Char} {a b : Option Command} (h : propose reason a = propose reason b) : a = b := by
  cases a with
  | none =>
    cases b with
    | none => rfl
    | some c => exact absurd (congrArg Recommendation.label h).symm (label_ne_empty c)
  | some c =>
    cases b with
    | none => exact absurd (congrArg Recommendation.label h) (label_ne_empty c)
    | some d =>
      have hlabel : c.label = d.label := congrArg Recommendation.label h
      revert hlabel
      cases c <;> cases d <;> decide

theorem fits_takenFor_iff (stopped : Command → Prop) (reason : List Char) (s : DriveState) :
    Fits stopped (propose reason (takenFor s)) s ↔ Told stopped s := by
  have hreason : ∀ o, (propose reason o).reason = reason := by
    intro o
    cases o <;> rfl
  have hinj : ∀ a b, propose reason a = propose (propose reason a).reason b ↔ a = b := by
    intro a b
    rw [hreason]
    exact ⟨propose_inj, congrArg (propose reason)⟩
  cases s <;> simp [Fits, Told, takenFor, hinj]

theorem fits_decode_iff (stopped : Command → Prop) {index text : String} {numeric : Int}
    (hindex : normalizedIndex index = "0x6041") (hnumeric : parseInteger text.toList = some numeric) :
    Fits stopped (recommendedCia402ControlwordFromStatus (decodeCia402Value index text)) (driveState (quint16 numeric)) ↔
      Told stopped (driveState (quint16 numeric)) := by
  have hdecode : decodeCia402Value index text = statusText (quint16 numeric) := by
    rw [decodeCia402Value, hnumeric]
    exact if_pos hindex
  rw [hdecode, recommended_statusText, fits_takenFor_iff]

/-- **The command fits exactly if** the state is told from the others. -/
theorem command_fits_iff (stopped : Command → Prop) (index text : String) :
    FitsText stopped index text ↔
      (normalizedIndex index = "0x6041" →
        ∀ numeric ∈ parseInteger text.toList, Told stopped (driveState (quint16 numeric))) :=
  forall_congr' fun hindex => forall₂_congr fun _ hnumeric => fits_decode_iff stopped hindex hnumeric

/-- "0x0000" is not ready to switch on, and the command to switch on is proposed. -/
theorem switchOn_notReady : ¬∀ (stopped : Command → Prop) (index text : String), FitsText stopped index text := by
  intro h
  have hindex : normalizedIndex "0x6041" = "0x6041" := by decide +kernel
  have hnumeric : parseInteger "0x0000".toList = some 0 := by decide +kernel
  have htold := (fits_decode_iff (fun _ => True) hindex hnumeric).1 (h _ _ _ hindex 0 hnumeric)
  exact htold.1 (by decide)

end NekoEcat.L4.Cia402Drive
