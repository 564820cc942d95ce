import NekoEcat.Core.Newest
import NekoEcat.Core.Trace
import NekoEcat.Core.Utf8
import Mathlib.Logic.Function.Basic

/-!
# The log file and its rotation

A line is appended to the current file; before that, a file that has reached its size
is closed and becomes number 1, each number goes up by one, and the ninth file goes
away. The new current file may fail to open, and then there is no stream to write to.

A file is the list of the lines in it; number 0 is the current one.

* `rotateFiles_spec`: where each file is after a rotation.
* `absent_step`: when one call writes through no stream.
* `chained_step`: what one call keeps of the files.
* `rotation_iff`: runs that never write through an absent stream, and their files.
* `reopening_failed`: one that does.
-/
namespace NekoEcat.L4.LogRotation
open NekoEcat.Newest NekoEcat.Trace NekoEcat.Utf8

inductive LogLevel where
  | debug
  | info
  | warning
  | error
  | fatal
  deriving DecidableEq, Repr

/-- The value of the enumerator. -/
def LogLevel.value : LogLevel → Nat
  | .debug => 0
  | .info => 1
  | .warning => 2
  | .error => 3
  | .fatal => 4

/-- mirrors apps/ecat-studio/services/LoggingService.cpp:144-158 -/
def levelToString : LogLevel → String
  | .debug => "DEBUG"
  | .info => "INFO"
  | .warning => "WARN"
  | .error => "ERROR"
  | .fatal => "FATAL"

inductive LogCategory where
  | system
  | communication
  | ui
  | plugin
  | service
  deriving DecidableEq, Repr

/-- mirrors apps/ecat-studio/services/LoggingService.cpp:160-174 -/
def categoryToString : LogCategory → String
  | .system => "SYSTEM"
  | .communication => "COMM"
  | .ui => "UI"
  | .plugin => "PLUGIN"
  | .service => "SERVICE"

/-- The timestamp is its text in ISO format. -/
structure LogEntry where
  id : Int
  level : LogLevel
  category : LogCategory
  message : String
  source : String
  timestamp : String
  deriving DecidableEq, Repr

def kMaxFileSize : Nat := 10 * 1024 * 1024

def kMaxFiles : Nat := 10

def kMaxEntries : Nat := 10000

/-! ## Files -/

/-- The files by their numbers. -/
abbrev Files := Nat → Option (List String)

/-- `QFile::rename`, which does not replace a file. -/
def rename (files : Files) (i j : Nat) : Files :=
  if (files i).isSome ∧ (files j).isNone then Function.update (Function.update files j (files i)) i none else files

/-- The body of the loop over the numbers. -/
def moveUp (files : Files) (i : Nat) : Files :=
  if (files i).isSome then
    if i = kMaxFiles - 1 then Function.update files i none else rename files i (i + 1)
  else files

/-- The loop from a number down to 1. -/
def moveAll : Nat → Files → Files
  | 0, files => files
  | i + 1, files => moveAll i (moveUp files (i + 1))

/-- mirrors apps/ecat-studio/services/LoggingService.cpp:105-119 -/
def rotateFiles (files : Files) : Files :=
  let files := moveAll (kMaxFiles - 1) files
  if (files 0).isSome then rename files 0 1 else files

/-! ## The service -/

/-- `logFile` and `logStream` say whether the pointers are set; `logged` are the lines
of all entries so far, and `crashed` says that a line was written through no stream. -/
structure Service where
  minLevel : LogLevel := .debug
  nextId : Int := 1
  entries : List LogEntry := []
  files : Files := fun _ => none
  logFile : Bool := false
  logStream : Bool := false
  currentFileSize : Nat := 0
  logged : List String := []
  crashed : Bool := false

/-- `open(WriteOnly | Append)`, if it succeeds. -/
def Service.openFile (s : Service) (opens : Bool) : Service :=
  if opens then
    { s with
      files := Function.update s.files 0 (some ((s.files 0).getD []))
      logFile := true
      logStream := true
      currentFileSize := 0 }
  else { s with logFile := true, logStream := false }

/-- mirrors apps/ecat-studio/services/LoggingService.cpp:95-125 -/
def Service.rotateIfNeeded (s : Service) (opens : Bool) : Service :=
  if s.currentFileSize < kMaxFileSize ∨ s.logFile = false then s
  else { s with files := rotateFiles s.files }.openFile opens

def LogEntry.line (e : LogEntry) : String :=
  e.timestamp ++ " [" ++ levelToString e.level ++ "] [" ++ categoryToString e.category ++ "] " ++
    (if e.source = "" then "" else e.source ++ ": ") ++ e.message ++ "\n"

/-- `toUtf8().size()` -/
def lineSize (line : String) : Nat := (utf8 line.toList).length

/-- A line at the end of the current file. -/
def Service.write (s : Service) (line : String) : Service :=
  { s with
    files := Function.update s.files 0 (some ((s.files 0).getD [] ++ [line]))
    currentFileSize := s.currentFileSize + lineSize line }

/-- mirrors apps/ecat-studio/services/LoggingService.cpp:127-142 -/
def Service.writeToFile (s : Service) (e : LogEntry) (opens : Bool) : Service :=
  if s.logStream = false then s
  else
    let s := s.rotateIfNeeded opens
    if s.logStream = false then { s with crashed := true } else s.write e.line

def Service.append (s : Service) (e : LogEntry) : Service :=
  { s with nextId := s.nextId + 1, entries := keep kMaxEntries s.entries e, logged := s.logged ++ [e.line] }

/-- mirrors apps/ecat-studio/services/LoggingService.cpp:19-39 -/
def Service.log (s : Service) (level : LogLevel) (category : LogCategory) (message source timestamp : String)
    (opens : Bool) : Service :=
  if level.value < s.minLevel.value then s
  else
    let e : LogEntry := ⟨s.nextId, level, category, message, source, timestamp⟩
    (s.append e).writeToFile e opens

inductive Call where
  /-- `opens`: a file that is opened for it does open -/
  | log (level : LogLevel) (category : LogCategory) (message source timestamp : String) (opens : Bool)
  | setLogLevel (level : LogLevel)

/-- After a write through no stream there is no program. -/
def step (s : Service) (c : Call) : Service :=
  if s.crashed then s
  else
    match c with
    | .log level category message source timestamp opens => s.log level category message source timestamp opens
    | .setLogLevel level => { s with minLevel := level }

/-- `setLogPath` on a path without files. -/
def start (opens : Bool) : Service := Service.openFile {} opens

/-! ## What the files are for -/

def size (file : List String) : Nat := (file.map lineSize).sum

/-- The files from the current one on, in the order of their numbers: their lines,
the oldest first, are the last lines that were logged; a file that was rotated has
reached its size with its last line. -/
structure Chained (s : Service) : Prop where
  chain : ∃ current rotated, (∀ i, s.files i = (current :: rotated)[i]?) ∧
    (current :: rotated).length ≤ kMaxFiles ∧ (current :: rotated).reverse.flatten <:+ s.logged ∧
    ∀ file ∈ rotated, kMaxFileSize ≤ size file ∧ size file.dropLast < kMaxFileSize

/-- A file that is opened in the place of one that was rotated does open. -/
def Meets (s : Service) : Call → Prop
  | .log level _ _ _ _ opens => s.crashed = false → s.minLevel.value ≤ level.value → s.logStream = true →
    kMaxFileSize ≤ s.currentFileSize → s.logFile = true → opens = true
  | .setLogLevel _ => True

/-- No line is written through an absent stream; and where no opening fails, the files
are chained. -/
structure Kept (opens : Bool) (calls : List Call) : Prop where
  present : ∀ pre, pre <+: calls → (exec step (start opens) pre).crashed = false
  chained : opens = true → Along step Meets (start opens) calls → ∀ pre, pre <+: calls → Chained (exec step (start opens) pre)

/-! ## One rotation -/

theorem rename_value {files : Files} {i j : Nat} (hfree : files j = none) (k : Nat) :
    rename files i j k = if k = i then none else if k = j then files i else files k := by
  unfold rename
  cases hi : files i with
  | none =>
    rw [if_neg (by simp)]
    split
    · rename_i hk
      rw [hk, hi]
    · split
      · rename_i hk
        rw [hk, hfree]
      · rfl
  | some file =>
    rw [if_pos ⟨rfl, by rw [hfree]; rfl⟩, Function.update_apply, Function.update_apply]

/-- One file goes to the next number, which is free. -/
theorem moveUp_value {files : Files} {i : Nat} (hi : i < kMaxFiles - 1) (hfree : files (i + 1) = none) (k : Nat) :
    moveUp files i k = if k = i then none else if k = i + 1 then files i else files k := by
  unfold moveUp
  split
  · rw [if_neg (Nat.ne_of_lt hi), rename_value hfree]
  · rename_i hnone
    have hi' : files i = none := by simpa using hnone
    split
    · rename_i hk
      rw [hk, hi']
    · split
      · rename_i hk
        rw [hk, hfree, hi']
      · rfl

theorem moveAll_spec {i : Nat} (hi : i < kMaxFiles - 1) {files : Files} (hfree : files (i + 1) = none) (k : Nat) :
    moveAll i files k = if k = 0 ∨ i + 1 < k then files k else if k = 1 then none else files (k - 1) := by
  induction i generalizing files with
  | zero =>
    rw [moveAll]
    by_cases hk : k = 0 ∨ 0 + 1 < k
    · rw [if_pos hk]
    · obtain rfl : k = 1 := by omega
      rw [if_neg hk, if_pos rfl]
      exact hfree
  | succ i ih =>
    have hmoved := moveUp_value hi hfree
    have hnext : moveUp files (i + 1) (i + 1) = none := by rw [hmoved, if_pos rfl]
    rw [moveAll, ih (by omega) hnext]
    by_cases hlow : k = 0 ∨ i + 1 + 1 < k
    · rw [if_pos (by omega), if_pos hlow, hmoved, if_neg (by omega), if_neg (by omega)]
    · rw [if_neg hlow]
      by_cases htop : k = i + 1 + 1
      · rw [if_pos (by omega), if_neg (by omega), hmoved, if_neg (by omega), if_pos htop, htop]
        rfl
      · rw [if_neg (by omega)]
        split
        · rfl
        · rw [hmoved, if_neg (by omega), if_neg (by omega)]

/-- **Where each file goes**: to the next number; the last one goes away. -/
theorem rotateFiles_spec (files : Files) (k : Nat) :
    rotateFiles files k = if k = 0 then none else if k < kMaxFiles then files (k - 1) else files k := by
  have htop (k : Nat) : moveUp files 9 k = if k = 9 then none else files k := by
    unfold moveUp
    split
    · rw [if_pos (by decide), Function.update_apply]
    · rename_i hnone
      split
      · rename_i hk
        rw [hk]
        simpa using hnone
      · rfl
  have hall (k : Nat) : moveAll 9 files k =
      if k = 0 ∨ 9 < k then files k else if k = 1 then none else files (k - 1) := by
    have hfree : moveUp files 9 (8 + 1) = none := by rw [htop, if_pos rfl]
    rw [moveAll, moveAll_spec (by decide) hfree, htop, htop]
    by_cases hk : k = 0 ∨ 9 < k
    · have hne : k ≠ 9 := by omega
      rw [if_pos hk, if_pos hk, if_neg hne]
    · have hne : k - 1 ≠ 9 := by omega
      rw [if_neg hk, if_neg hk, if_neg hne]
  have hone : moveAll 9 files 1 = none := by rw [hall, if_neg (by omega), if_pos rfl]
  have hmoved (k : Nat) : rotateFiles files k = if k = 0 then none else if k = 1 then files 0 else moveAll 9 files k := by
    have hzero : moveAll 9 files 0 = files 0 := by rw [hall, if_pos (.inl rfl)]
    change (if (moveAll 9 files 0).isSome then rename (moveAll 9 files) 0 1 else moveAll 9 files) k = _
    split
    · rw [rename_value hone, hzero]
    · rename_i hnone
      rw [hzero] at hnone
      split
      · rename_i hk
        rw [hk, hzero]
        simpa using hnone
      · split
        · rename_i hk
          rw [hk, hone]
          exact (by simpa using hnone : files 0 = none).symm
        · rfl
  rw [hmoved, hall]
  have hmax : kMaxFiles = 10 := rfl
  by_cases h0 : k = 0
  · rw [if_pos h0, if_pos h0]
  · rw [if_neg h0, if_neg h0]
    by_cases h1 : k = 1
    · rw [if_pos h1, if_pos (by omega), h1]
    · rw [if_neg h1, if_neg h1]
      by_cases hk : 9 < k
      · rw [if_pos (.inr hk), if_neg (by omega)]
      · rw [if_neg (by omega), if_pos (by omega)]

/-! ## The stream -/

theorem openFile_crashed (s : Service) (opens : Bool) : (s.openFile opens).crashed = s.crashed := by
  unfold Service.openFile
  split <;> rfl

theorem rotateIfNeeded_logged (s : Service) (opens : Bool) : (s.rotateIfNeeded opens).logged = s.logged := by
  unfold Service.rotateIfNeeded Service.openFile
  split
  · rfl
  · split <;> rfl

theorem openFile_logStream (s : Service) (opens : Bool) : (s.openFile opens).logStream = opens := by
  unfold Service.openFile
  cases opens <;> rfl

theorem writeToFile_crashed {s : Service} (h : s.crashed = false) (e : LogEntry) (opens : Bool) :
    (s.writeToFile e opens).crashed = false ↔
      (s.logStream = true → kMaxFileSize ≤ s.currentFileSize → s.logFile = true → opens = true) := by
  unfold Service.writeToFile
  by_cases hstream : s.logStream = false
  · rw [if_pos hstream]
    exact iff_of_true h fun hs => absurd (hstream.symm.trans hs) (by decide)
  · rw [if_neg hstream]
    dsimp only
    unfold Service.rotateIfNeeded
    by_cases hfull : s.currentFileSize < kMaxFileSize ∨ s.logFile = false
    · rw [if_pos hfull, if_neg hstream]
      refine iff_of_true h fun _ hsize hfile => ?_
      rcases hfull with hlt | hno
      · omega
      · exact absurd (hno.symm.trans hfile) (by decide)
    · obtain ⟨hsize, hfile⟩ := not_or.1 hfull
      rw [if_neg hfull, openFile_logStream]
      cases opens with
      | true => exact iff_of_true ((openFile_crashed _ _).trans h) fun _ _ _ => rfl
      | false =>
        refine iff_of_false (by simp) fun hopens => ?_
        exact absurd (hopens (by simpa using hstream) (Nat.not_lt.1 hsize) (by simpa using hfile)) (by decide)

/-- **One call** writes through no stream iff it rotates and the new file does not open. -/
theorem absent_step {s : Service} (h : s.crashed = false) (c : Call) : (step s c).crashed = false ↔ Meets s c := by
  have hgo : ¬ s.crashed = true := by simp [h]
  unfold step
  rw [if_neg hgo]
  cases c with
  | setLogLevel level => exact iff_of_true h trivial
  | log level category message source timestamp opens =>
    dsimp only
    unfold Service.log
    split
    · rename_i hlevel
      exact iff_of_true h fun _ hmin => absurd hmin (by omega)
    · rename_i hlevel
      dsimp only
      rw [writeToFile_crashed (s := s.append _) h]
      exact ⟨fun hw _ _ => hw, fun hm => hm h (Nat.not_lt.1 hlevel)⟩

/-! ## The files -/

/-- The stream is there, and the files hold the last of some lines. -/
structure Holds (s : Service) (lines : List String) : Prop where
  logStream : s.logStream = true
  logFile : s.logFile = true
  chain : ∃ current rotated, (∀ i, s.files i = (current :: rotated)[i]?) ∧
    (current :: rotated).length ≤ kMaxFiles ∧ (current :: rotated).reverse.flatten <:+ lines ∧
    (∀ file ∈ rotated, kMaxFileSize ≤ size file ∧ size file.dropLast < kMaxFileSize) ∧
    s.currentFileSize = size current ∧ size current.dropLast < kMaxFileSize

theorem Holds.chained {s : Service} (h : Holds s s.logged) : Chained s := by
  obtain ⟨current, rotated, hfiles, hlen, hsuffix, hrotated, -⟩ := h.chain
  exact ⟨current, rotated, hfiles, hlen, hsuffix, hrotated⟩

theorem holds_start : Holds (start true) [] := by
  refine ⟨rfl, rfl, [], [], fun i => ?_, by decide, List.suffix_rfl, nofun, rfl, by decide⟩
  cases i <;> rfl

/-- A rotation keeps what the files hold. -/
theorem holds_rotate {s : Service} {lines : List String} (h : Holds s lines) {opens : Bool}
    (hopens : kMaxFileSize ≤ s.currentFileSize → opens = true) :
    Holds (s.rotateIfNeeded opens) lines ∧ (s.rotateIfNeeded opens).currentFileSize < kMaxFileSize := by
  unfold Service.rotateIfNeeded
  by_cases hfull : s.currentFileSize < kMaxFileSize ∨ s.logFile = false
  · rw [if_pos hfull]
    exact ⟨h, hfull.resolve_right (by simp [h.logFile])⟩
  · have hsize := Nat.not_lt.1 (not_or.1 hfull).1
    rw [if_neg hfull, hopens hsize, Service.openFile, if_pos rfl]
    obtain ⟨current, rotated, hfiles, hlen, hsuffix, hrotated, hcurrent, hdrop⟩ := h.chain
    have hempty : 0 < kMaxFileSize := by decide
    refine ⟨⟨rfl, rfl, [], (current :: rotated).take (kMaxFiles - 1), fun i => ?_, ?_, ?_, fun file hfile => ?_, rfl, hempty⟩,
      hempty⟩
    · have hmoved := rotateFiles_spec s.files
      dsimp only
      cases i with
      | zero => simp [hmoved]
      | succ i =>
        rw [Function.update_of_ne (Nat.succ_ne_zero i), hmoved, if_neg (Nat.succ_ne_zero i), List.getElem?_cons_succ,
          List.getElem?_take, hfiles, hfiles]
        have hmax : kMaxFiles = 10 := rfl
        split
        · rw [if_pos (by omega)]
          rfl
        · rw [if_neg (by omega), List.getElem?_eq_none (by omega)]
    · have hmax : kMaxFiles = 10 := rfl
      rw [List.length_cons, List.length_take]
      omega
    · refine List.IsSuffix.trans ?_ hsuffix
      rw [List.reverse_cons, List.flatten_append, List.flatten_singleton, List.append_nil]
      have htaken : ((current :: rotated).take (kMaxFiles - 1)).reverse <:+ (current :: rotated).reverse :=
        List.reverse_suffix.2 (List.take_prefix _ _)
      obtain ⟨older, holder⟩ := htaken
      rw [← holder, List.flatten_append]
      exact List.suffix_append _ _
    · rcases List.mem_cons.1 (List.mem_of_mem_take hfile) with rfl | hmem
      · exact ⟨hcurrent ▸ hsize, hdrop⟩
      · exact hrotated file hmem

/-- A line that is written is held. -/
theorem holds_write {s : Service} {lines : List String} (h : Holds s lines) (hsize : s.currentFileSize < kMaxFileSize)
    (line : String) : Holds (s.write line) (lines ++ [line]) := by
  obtain ⟨current, rotated, hfiles, hlen, hsuffix, hrotated, hcurrent, hdrop⟩ := h.chain
  refine ⟨h.logStream, h.logFile, current ++ [line], rotated, fun i => ?_, hlen, ?_, hrotated, ?_, ?_⟩
  · rw [Service.write]
    cases i with
    | zero => simp [hfiles]
    | succ i => simp [hfiles]
  · obtain ⟨older, holder⟩ := hsuffix
    refine ⟨older, ?_⟩
    rw [← holder]
    simp
  · simp [Service.write, hcurrent, size]
  · rw [List.dropLast_concat, ← hcurrent]
    exact hsize

/-- **One call** keeps what the files hold. -/
theorem holds_step {s : Service} (h : Holds s s.logged) {c : Call} (hmeets : Meets s c) : Holds (step s c) (step s c).logged := by
  unfold step
  split
  · exact h
  · rename_i hgo
    cases c with
    | setLogLevel level => exact ⟨h.logStream, h.logFile, h.chain⟩
    | log level category message source timestamp opens =>
      dsimp only
      unfold Service.log
      split
      · exact h
      · rename_i hlevel
        have hopens := fun hsize => hmeets (by simpa using hgo) (Nat.not_lt.1 hlevel) h.logStream hsize h.logFile
        generalize (⟨s.nextId, level, category, message, source, timestamp⟩ : LogEntry) = e
        have hold : Holds (s.append e) s.logged := ⟨h.logStream, h.logFile, h.chain⟩
        obtain ⟨hrotated, hsize⟩ := holds_rotate hold hopens
        have hstream : ¬ ((s.append e).rotateIfNeeded opens).logStream = false := by simp [hrotated.logStream]
        have hlogged : (((s.append e).rotateIfNeeded opens).write e.line).logged = s.logged ++ [e.line] :=
          rotateIfNeeded_logged _ _
        unfold Service.writeToFile
        rw [if_neg (by simp [hold.logStream]), if_neg hstream, hlogged]
        exact holds_write hrotated hsize e.line

/-! ## Any calls -/

theorem holds_exec {calls : List Call} (h : Along step Meets (start true) calls) :
    Holds (exec step (start true) calls) (exec step (start true) calls).logged := by
  refine foldl_inv_guarded step (I := fun s => Holds s s.logged) (fun s c hs hmeets => holds_step hs hmeets) calls ?_ h
  exact holds_start

/-- **Rotation, exactly.** No line is written through an absent stream if and only if
every file that is opened in a rotation does open; and then the files hold the last
lines, in their order, and those that were rotated have just reached their size. -/
theorem rotation_iff (opens : Bool) (calls : List Call) : Kept opens calls ↔ Along step Meets (start opens) calls := by
  have hcrashed : (start opens).crashed = false := openFile_crashed _ _
  have hrun := along_iff step (J := fun _ => True) (I := fun s => s.crashed = false) (G := Meets) (fun _ _ _ => trivial)
    (fun s c _ hs => absent_step hs c) calls trivial hcrashed
  refine ⟨fun h => hrun.1 h.present, fun h => ⟨hrun.2 h, fun hopens halong pre hpre => ?_⟩⟩
  subst hopens
  refine (holds_exec ((along_iff_forall step pre).2 fun p c hp => ?_)).chained
  exact (along_iff_forall step calls).1 halong p c (hp.trans hpre)

/-- A message of the size of a file. -/
def longMessage : String := String.ofList (List.replicate kMaxFileSize 'a')

theorem longMessage_size (e : LogEntry) (h : e.message = longMessage) : kMaxFileSize ≤ lineSize e.line := by
  have hlong : longMessage.toList.length = kMaxFileSize := by rw [longMessage, String.toList_ofList, List.length_replicate]
  refine Nat.le_trans ?_ (length_le_utf8 _)
  rw [← hlong, ← h, LogEntry.line]
  simp only [String.toList_append, List.length_append]
  omega

/-- Two calls; the file for the second one does not open. -/
def failedReopening : List Call :=
  [.log .error .system longMessage "" "" true, .log .error .system "second" "" "" false]

/-- The first line is written to an empty file. -/
theorem first_written (e : LogEntry) : ((start true).append e).writeToFile e true = ((start true).append e).write e.line := by
  have hroom : ((start true).append e).currentFileSize < kMaxFileSize := show 0 < kMaxFileSize by decide
  have hstream : ¬ ((start true).append e).logStream = false := nofun
  have hkept : ((start true).append e).rotateIfNeeded true = (start true).append e := if_pos (.inl hroom)
  rw [Service.writeToFile, if_neg hstream, hkept]
  exact if_neg hstream

/-- **The second line** is written through no stream. -/
theorem reopening_failed : ¬ Kept true failedReopening := by
  intro h
  have hpresent := h.present failedReopening List.prefix_rfl
  let e : LogEntry := ⟨1, .error, .system, longMessage, "", ""⟩
  have hfirst : step (start true) (.log .error .system longMessage "" "" true) = ((start true).append e).write e.line :=
    first_written e
  have hsize : kMaxFileSize ≤ 0 + lineSize e.line := Nat.le_trans (longMessage_size e rfl) (Nat.le_add_left _ _)
  rw [failedReopening, exec, List.foldl_cons, hfirst, List.foldl_cons, List.foldl_nil] at hpresent
  have hmeets := (absent_step rfl _).1 hpresent
  exact absurd (hmeets rfl (by decide) rfl hsize rfl) (by decide)

end NekoEcat.L4.LogRotation
