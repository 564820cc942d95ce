import NekoEcat.Core.Getopt
import NekoEcat.L2Daemon.Handlers

/-!
# Texts from the network on the command line

The builders put their texts behind the options without a `--`. A text with a
`0x` in front, a number or an accepted IDN is never an option, and a value of an
option is never looked at. The value of a write is put last as it is.

* `read_scoped`: the option that `run` puts in front.
* `not_optionLike_idn`: an accepted IDN is an operand.
* `read_uploadArgs`, `read_downloadArgs`, `read_soeWrite`: how the three lines are read.
* `read_back_iff`: which requests are read as they were meant.
-/
namespace NekoEcat.L2.CliOptions
open NekoEcat.Commands NekoEcat.Getopt NekoEcat.QJson NekoEcat.QString NekoEcat.QNumber NekoEcat.L2.CliBackend
open NekoEcat.L2.Handlers

/-- The options of the `ethercat` command that take a value. -/
def valued : Valued := ⟨['m', 'p', 't'], ["--type"]⟩

/-- An option that is given unless its value is empty. -/
def given (option text : String) : List (String × Option String) := if text = "" then [] else [(option, some text)]

/-! ## Arguments -/

section
variable {v : String} {rest : Line}

theorem read_m : read valued ("-m" :: v :: rest) = (read valued rest).addOptions [("-m", some v)] :=
  @read_short valued v rest 'm' (by decide) (by decide)

theorem read_p : read valued ("-p" :: v :: rest) = (read valued rest).addOptions [("-p", some v)] :=
  @read_short valued v rest 'p' (by decide) (by decide)

theorem read_t : read valued ("-t" :: v :: rest) = (read valued rest).addOptions [("-t", some v)] :=
  @read_short valued v rest 't' (by decide) (by decide)

theorem read_type : read valued ("--type" :: v :: rest) = (read valued rest).addOptions [("--type", some v)] :=
  read_waiting (by decide) (by decide) rfl

/-- The option that `run` puts in front. -/
theorem read_scoped (master : String) (arguments : Line) :
    read valued (scopedArguments master arguments) = (read valued arguments).addOptions (given "-m" (trimmed master)) := by
  unfold scopedArguments given
  split
  · rfl
  · exact read_m

/-- A type that is given, and what follows it. -/
theorem read_t_given (type : String) :
    read valued ((if type = "" then [] else ["-t", type]) ++ rest) = (read valued rest).addOptions (given "-t" type) := by
  unfold given
  split
  · rfl
  · exact read_t

theorem read_typeArgs (type : String) :
    read valued (typeArgs type ++ rest) = (read valued rest).addOptions (given "--type" type) := by
  unfold typeArgs given
  split
  · rfl
  · exact read_type

end

/-! ## Operands -/

theorem not_optionLike {a : String} {c : Char} (h : a.toList.head? = some c) (hc : c ≠ '-') : ¬ OptionLike a := by
  rintro ⟨hpre, -⟩
  obtain ⟨t, ht⟩ := hpre
  rw [← ht] at h
  exact hc (Option.some.inj h).symm

theorem not_optionLike_hex (text : String) : ¬ OptionLike (withHexPrefix text) := by
  refine @not_optionLike _ '0' ?_ (by decide)
  unfold withHexPrefix
  split
  · rename_i h
    cases ht : text.toList with
    | nil => rw [ht] at h; cases h
    | cons c cs =>
      rw [ht] at h
      unfold startsWith0x at h
      split at h
      · rename_i he
        cases he
        rfl
      · cases h
  · simp

theorem digits_ne_minus {ds : List Char} {base : Nat} (hb : base ≤ 16) (h : ds.all (isDigitOf base) = true) :
    ds.head? ≠ some '-' := by
  intro hhead
  have hmem : '-' ∈ ds := List.mem_of_mem_head? hhead
  have hdigit := isDigitOf_iff.1 (List.all_eq_true.1 h _ hmem)
  have : digitVal '-' = 36 := by decide
  omega

/-- A `-` in front stays there. -/
theorem head_trim {cs : List Char} (h : cs.head? = some '-') : (trim cs).head? = some '-' := by
  obtain ⟨t, rfl⟩ : ∃ t, cs = '-' :: t := by
    cases cs with
    | nil => cases h
    | cons c t => exact ⟨t, by rw [Option.some.inj h]⟩
  have hdrop : ('-' :: t).dropWhile isSpace = '-' :: t := List.dropWhile_cons_of_neg (by decide)
  unfold trim
  rw [hdrop, List.reverse_cons]
  by_cases hall : t.reverse.dropWhile isSpace = []
  · rw [List.dropWhile_append, hall]
    simp [show isSpace '-' = false by decide]
  · rw [List.dropWhile_append, if_neg (by simpa using hall)]
    simp

theorem toUIntAuto_minus {cs : List Char} (h : cs.head? = some '-') : toUIntAuto cs = none := by
  have htrim := head_trim h
  obtain ⟨t, ht⟩ : ∃ t, trim cs = '-' :: t := by
    cases hcs : trim cs with
    | nil => rw [hcs] at htrim; cases htrim
    | cons c t => rw [hcs] at htrim; exact ⟨t, by rw [Option.some.inj htrim]⟩
  have hdigits : ¬ (('-' :: t).all (isDigitOf 10) = true) := fun hall => digits_ne_minus (by omega) hall rfl
  unfold toUIntAuto
  rw [ht]
  exact if_neg fun hall => hdigits hall.2.1

/-- **An accepted IDN is an operand.** -/
theorem not_optionLike_idn {idn : String} (h : validateIdn idn = none) : ¬ OptionLike idn := by
  intro hlike
  have hhead : idn.toList.head? = some '-' := by
    obtain ⟨t, ht⟩ := hlike.1
    rw [← ht]
    rfl
  obtain ⟨t, ht⟩ : ∃ t, idn.toList = '-' :: t := by
    cases hcs : idn.toList with
    | nil => rw [hcs] at hhead; cases hhead
    | cons c t => rw [hcs] at hhead; exact ⟨t, by rw [Option.some.inj hhead]⟩
  have hname : isIdnName idn.toList = false := by
    rw [ht]
    unfold isIdnName
    split
    · rename_i he
      cases he
      rfl
    · rfl
  have hauto := toUIntAuto_minus hhead
  have h0x : startsWith0x idn.toList = false := by
    rw [ht]
    rfl
  unfold validateIdn at h
  rw [hname, h0x, hauto] at h
  simp at h
  split at h <;> cases h

theorem not_optionLike_drive {drive : Int} (h : 0 ≤ drive ∧ drive ≤ 7) : ¬ OptionLike (number drive) := by
  obtain ⟨h0, h7⟩ := h
  obtain ⟨n, rfl⟩ := Int.eq_ofNat_of_zero_le h0
  have hall : ∀ n < 8, ¬ OptionLike (number (Int.ofNat n)) := by decide
  exact hall n (by omega)

/-! ## The three lines -/

section
variable (position : Int) (index subIndex value type : String)

theorem read_uploadArgs :
    read valued (uploadArgs position index subIndex type) =
      ⟨[("-p", some (number position))] ++ given "-t" type,
        ["upload", withHexPrefix index, withHexPrefix subIndex]⟩ := by
  have hlast : read valued [withHexPrefix index, withHexPrefix subIndex] =
      ⟨[], [withHexPrefix index, withHexPrefix subIndex]⟩ := by
    rw [read_operand (not_optionLike_hex index), read_operand (not_optionLike_hex subIndex)]
    rfl
  rw [uploadArgs, List.append_assoc, List.cons_append, read_operand (by decide), List.cons_append,
    List.cons_append, List.nil_append, read_p, read_t_given, hlast]
  simp [Parsed.addOptions, Parsed.addOperand]

/-- The value is read by itself. -/
theorem read_downloadArgs :
    read valued (downloadArgs position index subIndex value type) =
      ⟨[("-p", some (number position))] ++ given "-t" (trimmed type) ++ (read valued [value]).options,
        ["download", withHexPrefix index, withHexPrefix subIndex] ++ (read valued [value]).operands⟩ := by
  have hlast : read valued [withHexPrefix index, withHexPrefix subIndex, value] =
      ((read valued [value]).addOperand (withHexPrefix subIndex)).addOperand (withHexPrefix index) := by
    rw [read_operand (not_optionLike_hex index), read_operand (not_optionLike_hex subIndex)]
  rw [downloadArgs, List.append_assoc, List.cons_append, read_operand (by decide), List.cons_append,
    List.cons_append, List.nil_append, read_p, read_t_given, hlast]
  simp [Parsed.addOptions, Parsed.addOperand]

end

theorem accepted {params : QJsonObject} (h : soeWriteRefusal params = none) :
    validateIdn (trimmed (text params "idn")) = none ∧ 0 ≤ toIntD (QJson.value params "drive") 0 ∧
      toIntD (QJson.value params "drive") 0 ≤ 7 := by
  unfold soeWriteRefusal at h
  simp only at h
  split at h
  · cases h
  · split at h
    · cases h
    · rename_i hidn
      split at h
      · cases h
      · split at h
        · cases h
        · rename_i hdrive
          exact ⟨hidn, by omega, by omega⟩

theorem read_soeWrite {params : QJsonObject} (h : soeWriteRefusal params = none) :
    read valued (soeWriteArgs params) =
      ⟨[("-p", some (number (soePosition params)))] ++ given "--type" (trimmed (text params "type")) ++
          (read valued [text params "value"]).options,
        ["soe_write", number (toIntD (QJson.value params "drive") 0), trimmed (text params "idn")] ++
          (read valued [text params "value"]).operands⟩ := by
  obtain ⟨hidn, hdrive⟩ := accepted h
  have hlast : read valued [number (toIntD (QJson.value params "drive") 0), trimmed (text params "idn"), text params "value"] =
      ((read valued [text params "value"]).addOperand (trimmed (text params "idn"))).addOperand
        (number (toIntD (QJson.value params "drive") 0)) := by
    rw [read_operand (not_optionLike_drive hdrive), read_operand (not_optionLike_idn hidn)]
  rw [soeWriteArgs, List.append_assoc, List.cons_append, read_operand (by decide), List.cons_append,
    List.cons_append, List.nil_append, read_p, read_typeArgs, hlast]
  simp [Parsed.addOptions, Parsed.addOperand]

/-! ## Requests -/

/-- What is handed to a builder. -/
inductive Request where
  | upload (master : String) (position : Int) (index subIndex type : String)
  | download (master : String) (position : Int) (index subIndex value type : String)
  | soeWrite (id : String) (params : QJsonObject)

/-- The lines that are run. -/
def Request.lines (env : List Line → Line → Outcome) (h : List Line) : Request → List Line
  | .upload master position index subIndex type =>
    ((CliBackend.upload master position index subIndex type).run env h).2
  | .download master position index subIndex value type =>
    ((CliBackend.download master position index subIndex value type).run env h).2
  | .soeWrite id params => ((handleSoeWrite id params).run env h).2

/-- What a request means. -/
def Request.meant : Request → Parsed
  | .upload master position index subIndex type =>
    ⟨given "-m" (trimmed master) ++ [("-p", some (number position))] ++ given "-t" type,
      ["upload", withHexPrefix index, withHexPrefix subIndex]⟩
  | .download master position index subIndex value type =>
    ⟨given "-m" (trimmed master) ++ [("-p", some (number position))] ++ given "-t" (trimmed type),
      ["download", withHexPrefix index, withHexPrefix subIndex, value]⟩
  | .soeWrite _ params =>
    ⟨given "-m" (trimmed (text params "master")) ++ [("-p", some (number (soePosition params)))] ++
        given "--type" (trimmed (text params "type")),
      ["soe_write", number (toIntD (QJson.value params "drive") 0), trimmed (text params "idn"), text params "value"]⟩

/-- No text of the request is taken for an option, and no master is left out. -/
def Request.Plain : Request → Prop
  | .upload .. => True
  | .download _ _ _ _ value _ => ¬ OptionLike value
  | .soeWrite _ params => ¬ OptionLike (text params "value") ∧ trimmed (text params "master") = ""

/-- A value put last is read as itself exactly if it is no option. -/
theorem last_iff {value : String} {options : List (String × Option String)} {operands : List String} :
    (⟨options ++ (read valued [value]).options, operands ++ (read valued [value]).operands⟩ : Parsed) =
      ⟨options, operands ++ [value]⟩ ↔ ¬ OptionLike value := by
  constructor
  · intro he hlike
    have hoperands := congrArg (fun p => p.operands.length) he
    simp [read_last, hlike] at hoperands
  · intro hlike
    have hread : read valued [value] = ⟨[], [value]⟩ := by
      rw [read_operand hlike]
      rfl
    rw [hread, List.append_nil]

/-- **A request is read back as it was meant exactly if its value is no option**
and, for `soeWrite`, no master was named. -/
theorem read_back_iff (env : List Line → Line → Outcome) (h : List Line) (r : Request) {line : Line}
    (hl : line ∈ r.lines env h) : read valued line = r.meant ↔ r.Plain := by
  cases r with
  | upload master position index subIndex type =>
    obtain rfl := List.mem_singleton.1 hl
    refine iff_true_intro ?_
    rw [read_scoped, read_uploadArgs]
    simp [Request.meant, Parsed.addOptions]
  | download master position index subIndex value type =>
    obtain rfl := List.mem_singleton.1 hl
    rw [read_scoped, read_downloadArgs, Parsed.addOptions, ← List.append_assoc, ← List.append_assoc]
    exact last_iff
  | soeWrite id params =>
    simp only [Request.lines, handleSoeWrite] at hl
    split at hl
    · cases hl
    · rename_i hrefusal
      obtain rfl := List.mem_singleton.1 hl
      rw [read_soeWrite hrefusal, Request.meant, Request.Plain]
      by_cases hmaster : trimmed (text params "master") = ""
      · have hgiven : given "-m" (trimmed (text params "master")) = [] := if_pos hmaster
        rw [hgiven, List.nil_append, and_iff_left hmaster]
        exact last_iff
      · refine iff_of_false ?_ fun h => hmaster h.2
        intro he
        have hoptions := congrArg (fun p => p.options.head?) he
        simp [given, hmaster] at hoptions

/-- A negative number, which is read as an option. -/
theorem negative_value :
    ∃ line ∈ (Request.download "0" 1 "6060" "0" "-1" "int8").lines (fun _ _ => .exited 0 "" "") [],
      read valued line ≠ (Request.download "0" 1 "6060" "0" "-1" "int8").meant :=
  ⟨_, List.mem_singleton.2 rfl, by decide +kernel⟩

theorem read_back_profile :
    read valued (scopedArguments "0" (downloadArgs 1 "6060" "0" "8" "int8")) =
        (Request.download "0" 1 "6060" "0" "8" "int8").meant ↔
      (Request.download "0" 1 "6060" "0" "8" "int8").Plain :=
  read_back_iff (fun _ _ => .exited 0 "" "") [] (.download "0" 1 "6060" "0" "8" "int8") (List.mem_singleton.2 rfl)

end NekoEcat.L2.CliOptions
