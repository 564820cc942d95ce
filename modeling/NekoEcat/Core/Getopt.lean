import Mathlib.Data.List.TakeWhile

/-!
# Command lines as `getopt_long` reads them

The arguments are permuted: up to `--` every argument that starts with `-` and
is longer is an option wherever it stands, the others are the operands. One
letter options may be run together; an option with a value takes the rest of its
argument or, if there is none, the next argument. Abbreviated long options are
not looked for.

* `read_operand`, `read_waiting`: one argument at a time.
* `read_last`: an argument put last is read as an operand only if it is no option.
-/
namespace NekoEcat.Getopt

/-- The options that take a value. -/
structure Valued where
  short : List Char
  long : List String

structure Parsed where
  /-- each with its value, if it has one -/
  options : List (String × Option String)
  operands : List String
  deriving DecidableEq, Repr

/-- An argument that is not taken for an operand. -/
def OptionLike (a : String) : Prop := ['-'] <+: a.toList ∧ 1 < a.toList.length

instance (a : String) : Decidable (OptionLike a) := inferInstanceAs (Decidable (_ ∧ _))

/-- The options an argument names, and one that takes the next argument. -/
structure Named where
  options : List (String × Option String)
  waiting : Option String

def short (c : Char) : String := String.ofList ['-', c]

/-- `-abc` -/
def named1 (valued : Valued) (letters : List Char) : Named :=
  let flags := (letters.takeWhile (· ∉ valued.short)).map fun c => (short c, none)
  match letters.dropWhile (· ∉ valued.short) with
  | [] => ⟨flags, none⟩
  | [c] => ⟨flags, some (short c)⟩
  | c :: value => ⟨flags ++ [(short c, some (String.ofList value))], none⟩

/-- `--name`, `--name=value` -/
def named2 (valued : Valued) (a : List Char) : Named :=
  let name := String.ofList (a.takeWhile (· != '='))
  match a.dropWhile (· != '=') with
  | _ :: value => ⟨[(name, some (String.ofList value))], none⟩
  | [] => if name ∈ valued.long then ⟨[], some name⟩ else ⟨[(name, none)], none⟩

def named (valued : Valued) (a : String) : Named :=
  if ['-', '-'] <+: a.toList then named2 valued a.toList else named1 valued a.toList.tail

def Parsed.addOptions (p : Parsed) (os : List (String × Option String)) : Parsed := { p with options := os ++ p.options }

def Parsed.addOperand (p : Parsed) (a : String) : Parsed := { p with operands := a :: p.operands }

/-- What is read from the arguments. -/
def read (valued : Valued) : List String → Parsed
  | [] => ⟨[], []⟩
  | a :: rest =>
    if a = "--" then ⟨[], rest⟩
    else if ¬ OptionLike a then (read valued rest).addOperand a
    else
      match (named valued a).waiting, rest with
      | none, rest => (read valued rest).addOptions (named valued a).options
      | some o, [] => ⟨(named valued a).options ++ [(o, none)], []⟩
      | some o, v :: rest => (read valued rest).addOptions ((named valued a).options ++ [(o, some v)])

/-- The values given to an option. -/
def Parsed.values (p : Parsed) (option : String) : List (Option String) :=
  (p.options.filter fun o => o.1 == option).map (·.2)

/-! ## One argument at a time -/

section
variable {valued : Valued} {a v : String} {rest : List String}

@[simp] theorem addOptions_operands (p : Parsed) (os : List (String × Option String)) :
    (p.addOptions os).operands = p.operands := rfl

@[simp] theorem addOptions_options (p : Parsed) (os : List (String × Option String)) :
    (p.addOptions os).options = os ++ p.options := rfl

@[simp] theorem addOperand_operands (p : Parsed) (b : String) : (p.addOperand b).operands = b :: p.operands := rfl

@[simp] theorem addOperand_options (p : Parsed) (b : String) : (p.addOperand b).options = p.options := rfl

theorem optionLike_stop : OptionLike "--" := by decide

theorem read_operand (h : ¬ OptionLike a) : read valued (a :: rest) = (read valued rest).addOperand a := by
  have hstop : a ≠ "--" := fun he => h (he ▸ optionLike_stop)
  rw [read.eq_def]
  simp only
  rw [if_neg hstop, if_pos h]

/-- An option with its value in the next argument. -/
theorem read_waiting {o : String} (h : OptionLike a) (hstop : a ≠ "--") (ho : named valued a = ⟨[], some o⟩) :
    read valued (a :: v :: rest) = (read valued rest).addOptions [(o, some v)] := by
  rw [read.eq_def]
  simp only
  rw [if_neg hstop, if_neg (not_not.2 h), ho]
  rfl

theorem read_short {c : Char} (hc : c ∈ valued.short) (hd : c ≠ '-') :
    read valued (short c :: v :: rest) = (read valued rest).addOptions [(short c, some v)] := by
  have hlist : (short c).toList = ['-', c] := by simp [short]
  refine read_waiting ?_ ?_ ?_
  · simp [OptionLike, hlist]
  · intro h
    have := congrArg String.toList h
    rw [hlist] at this
    simp at this
    exact hd this
  · have hpre : ¬ ['-', '-'] <+: ['-', c] := by
      simp only [List.cons_prefix_cons, not_and, true_and]
      exact fun h => absurd h.symm hd
    rw [named, hlist, if_neg hpre]
    simp [named1, hc]

/-- The options of an argument that nothing follows. -/
def Named.all (n : Named) : List (String × Option String) := n.options ++ (n.waiting.map fun o => (o, none)).toList

theorem read_only (h : OptionLike a) (hstop : a ≠ "--") : read valued [a] = ⟨(named valued a).all, []⟩ := by
  rw [read.eq_def]
  simp only
  rw [if_neg hstop, if_neg (not_not.2 h), Named.all]
  cases (named valued a).waiting with
  | none => rfl
  | some o => rfl

/-- **An operand put last** is read as one only if it is no option. -/
theorem read_last : (read valued [a]).operands = if OptionLike a then [] else [a] := by
  split
  · rename_i hlike
    by_cases hstop : a = "--"
    · rw [hstop, read.eq_def]
      rfl
    · rw [read_only hlike hstop]
  · rename_i hlike
    rw [read_operand hlike]
    rfl

/-! ## Options run together -/

end

end NekoEcat.Getopt
