import NekoEcat.Core.Trace
import NekoEcat.L2Daemon.OnlineChange
import NekoEcat.L2Daemon.Redundancy

/-!
# Switching the backend

The daemon owns one backend and hands its address to the handlers that use it. A
request to switch replaces the backend in some cases and keeps it in others. Where
it is replaced `dcSyncHandler_` is told the new address; `eoeHandler_`,
`redundancyHandler_` and `onlineChangeHandler_` are made anew, and with the second
of them the recorded history is gone.

* `setBackendMode_cases`: all that a switch can do.
* `current_step`, `current_run`: the handlers refer to the current backend, the only
  one that is not deleted.
* `kept_iff`: when a switch keeps what was recorded.
* `switch_iff`: the same for runs.
* `lost`: a run that loses an event.
* `kept_without_igh`: without IgH nothing is ever replaced.
-/
namespace NekoEcat.L2.BackendSwitch
open NekoEcat.Commands NekoEcat.QJson NekoEcat.Trace NekoEcat.L2.OnlineChange NekoEcat.L2.Redundancy
open NekoEcat.L2.FoE (success)

/-! ## The daemon -/

/-- No two backends have the same. -/
abbrev Pointer := Nat

/-- The part of `EcatDaemon` that a switch reads or writes.
mirrors apps/ecatd/EcatDaemon.h:46-86 -/
structure Daemon (Time : Type) where
  /-- the backends that are not deleted, with their `isNative()` -/
  objects : List (Pointer × Bool)
  /-- the number of backends created so far -/
  created : Nat
  backend : Pointer
  backendMode : String
  dcSyncBackend : Option Pointer
  eoeBackend : Option Pointer
  redundancy : RedundancyHandler Pointer Time
  onlineChangeBackend : Option Pointer
  onlineChange : OnlineChangeHandler

section
variable {Time : Type} (d : Daemon Time)

def isNative : Bool := (d.objects.lookup d.backend).getD false

/-- `new EthercatCliBackend(this)` or `new EthercatNativeBackend(this)`, at `created` -/
def create (native : Bool) : Daemon Time :=
  { d with objects := (d.created, native) :: d.objects, created := d.created + 1 }

def delete (p : Pointer) : Daemon Time := { d with objects := d.objects.filter fun o => o.1 ≠ p }

/-- `backend_ = p`, and the four lines that follow it everywhere. -/
def adopt (p : Pointer) : Daemon Time :=
  { d with
    backend := p
    dcSyncBackend := some p
    eoeBackend := some p
    redundancy := { backend := some p, history := [] }
    onlineChangeBackend := some p
    onlineChange := { backend := true } }

/-- `delete backend_; backend_ = new ..;` -/
def renew (native : Bool) : Daemon Time :=
  let d := delete d d.backend
  adopt (create d native) d.created

/-- `haveIgh`: it is compiled with `HAVE_IGH`. `error`: what the diagnostics of a new
native backend report.
mirrors apps/ecatd/EcatDaemon.cpp:454-503 -/
def setBackendMode (haveIgh : Bool) (mode error : String) : Daemon Time :=
  let d := { d with backendMode := mode }
  if mode = "cli" then
    if isNative d then renew d false else d
  else if mode = "native" then
    if ¬ isNative d then
      if haveIgh then renew d true else d
    else d
  else
    if haveIgh then
      let native := d.created
      let d := create d true
      if error = "" then adopt (delete d d.backend) native
      else delete d native
    else d

end

/-- mirrors apps/ecatd/EcatDaemon.cpp:47-53 -/
def initial (Time : Type) : Daemon Time :=
  adopt (create ⟨[], 0, 0, "auto", none, none, ⟨none, []⟩, none, { backend := false }⟩ false) 0

/-! ## Its requests -/

/-- A request, with what the calls it makes are answered. -/
inductive Rpc (Time : Type) where
  | redundancyStatus (id : String) (params : QJsonObject) (masterText : String → String × String)
  | redundancyCommand (c : Command) (id : String) (params : QJsonObject) (masterText : String → String × String)
      (now : Time)
  | redundancyHistory (id : String) (params : QJsonObject)
  | onlineChangeApply (id : String) (params : QJsonObject) (env : List Request → Request → Answer)
  | onlineChangeStatus (id : String)
  | setBackend (id : String) (params : QJsonObject) (error : String)
  | getBackend (id : String)

section
variable {Time : Type}

def requestedMode (params : QJsonObject) : String := toStringD (value params "mode") "auto"

/-- The answer to `setBackend` and `getBackend`. -/
def backendReport (d : Daemon Time) (id : String) : QJsonObject :=
  success id (ofList [("backend", .string (if isNative d then "native" else "cli")), ("mode", .string d.backendMode)])

/-- The handlers of the requests.
mirrors apps/ecatd/EcatDaemon.cpp:392-432 -/
def handle (haveIgh : Bool) (isoDate : Time → String) (d : Daemon Time) : Rpc Time → QJsonObject × Daemon Time
  | .redundancyStatus id params masterText => (Redundancy.handleStatus id params masterText, d)
  | .redundancyCommand c id params masterText now =>
    let (response, h) := Redundancy.handle d.redundancy id params masterText now c
    (response, { d with redundancy := h })
  | .redundancyHistory id params => (handleHistory d.redundancy id params isoDate, d)
  | .onlineChangeApply id params env =>
    let (response, h) := ((handleApply d.onlineChange id params).run env []).1
    (response, { d with onlineChange := h })
  | .onlineChangeStatus id => (OnlineChange.handleStatus d.onlineChange id, d)
  | .setBackend id params error =>
    let d := setBackendMode d haveIgh (requestedMode params) error
    (backendReport d id, d)
  | .getBackend id => (backendReport d id, d)

def step (haveIgh : Bool) (isoDate : Time → String) (d : Daemon Time) (r : Rpc Time) : Daemon Time :=
  (handle haveIgh isoDate d r).2

end

/-! ## What a switch is to keep -/

section
variable {Time : Type}

/-- The handlers refer to the backend of the daemon, and no other one is there. -/
structure Current (d : Daemon Time) : Prop where
  live : d.objects.map Prod.fst = [d.backend]
  fresh : d.backend < d.created
  dcSync : d.dcSyncBackend = some d.backend
  eoe : d.eoeBackend = some d.backend
  redundancy : d.redundancy.backend = some d.backend
  onlineChange : d.onlineChangeBackend = some d.backend
  notNull : d.onlineChange.backend = true

/-- What is recorded and reported is the same before and after. -/
structure Kept (isoDate : Time → String) (d d' : Daemon Time) : Prop where
  history : d'.redundancy.history = d.redundancy.history
  redundancyHistory : ∀ id params,
    handleHistory d'.redundancy id params isoDate = handleHistory d.redundancy id params isoDate
  onlineChangeStatus : ∀ id, OnlineChange.handleStatus d'.onlineChange id = OnlineChange.handleStatus d.onlineChange id

/-- The request replaces the backend: a CLI backend is asked for while it is native,
a native one while it is not, or another mode while the native backend reports no
error. -/
def Replaces (haveIgh : Bool) (d : Daemon Time) (mode error : String) : Prop :=
  if mode = "cli" then isNative d = true
  else if mode = "native" then haveIgh = true ∧ isNative d = false
  else haveIgh = true ∧ error = ""

/-- The request is no switch, or one that keeps all of it. -/
def Right (haveIgh : Bool) (isoDate : Time → String) (d : Daemon Time) (r : Rpc Time) : Prop :=
  Current (step haveIgh isoDate d r) ∧
    ∀ id params error, r = .setBackend id params error → Kept isoDate d (step haveIgh isoDate d r)

/-- A backend is not replaced once an event is recorded. -/
def Meets (haveIgh : Bool) (d : Daemon Time) (r : Rpc Time) : Prop :=
  ∀ id params error, r = .setBackend id params error →
    Replaces haveIgh d (requestedMode params) error → d.redundancy.history = []

/-! ## What a switch does -/

variable {d : Daemon Time}

/-- The daemon with a new backend in place of the old one. -/
def replaced (d : Daemon Time) (mode : String) (native : Bool) : Daemon Time :=
  adopt { d with objects := [(d.created, native)], created := d.created + 1, backendMode := mode } d.created

/-- The backend of the daemon is its only one. -/
theorem Current.objects (h : Current d) : d.objects = [(d.backend, isNative d)] := by
  obtain ⟨o, ho, hpointer⟩ := List.map_eq_singleton_iff.1 h.live
  obtain ⟨p, native⟩ := o
  obtain rfl : p = d.backend := hpointer
  simp [isNative, ho]

theorem renew_eq (h : Current d) (mode : String) (native : Bool) :
    renew { d with backendMode := mode } native = replaced d mode native := by
  simp [renew, delete, create, replaced, adopt, h.objects]

/-- In the other modes the native backend is created first, and one of the two deleted. -/
theorem other_eq (h : Current d) (mode : String) :
    adopt (delete (create { d with backendMode := mode } true) d.backend) d.created = replaced d mode true ∧
      delete (create { d with backendMode := mode } true) d.created =
        { d with backendMode := mode, created := d.created + 1 } := by
  have hne : d.created ≠ d.backend := Nat.ne_of_gt h.fresh
  constructor
  · simp [delete, create, replaced, adopt, h.objects, hne]
  · simp [delete, create, h.objects, hne.symm]

/-- **All that a switch can do**: the backend is replaced, or nothing but the mode changes. -/
theorem setBackendMode_cases (h : Current d) (haveIgh : Bool) (mode error : String) :
    (Replaces haveIgh d mode error ∧ ∃ native, setBackendMode d haveIgh mode error = replaced d mode native) ∨
      (¬ Replaces haveIgh d mode error ∧ ∃ created, d.created ≤ created ∧
        setBackendMode d haveIgh mode error = { d with backendMode := mode, created := created }) := by
  have hnative : isNative { d with backendMode := mode } = isNative d := rfl
  unfold setBackendMode Replaces
  simp only [hnative]
  by_cases hcli : mode = "cli"
  · simp only [if_pos hcli]
    by_cases hn : isNative d = true
    · rw [if_pos hn]
      exact Or.inl ⟨hn, false, renew_eq h mode false⟩
    · rw [if_neg hn]
      exact Or.inr ⟨hn, d.created, Nat.le_refl _, rfl⟩
  · simp only [if_neg hcli]
    by_cases hmode : mode = "native"
    · simp only [if_pos hmode]
      cases haveIgh with
      | false => exact Or.inr ⟨by simp, d.created, Nat.le_refl _, by simp⟩
      | true =>
        by_cases hn : isNative d = true
        · exact Or.inr ⟨by simp [hn], d.created, Nat.le_refl _, by simp [hn]⟩
        · rw [if_pos hn]
          exact Or.inl ⟨⟨rfl, Bool.eq_false_iff.2 hn⟩, true, renew_eq h mode true⟩
    · simp only [if_neg hmode]
      cases haveIgh with
      | false => exact Or.inr ⟨by simp, d.created, Nat.le_refl _, by simp⟩
      | true =>
        by_cases herror : error = ""
        · rw [if_pos rfl, if_pos herror]
          exact Or.inl ⟨⟨rfl, herror⟩, true, (other_eq h mode).1⟩
        · rw [if_pos rfl, if_neg herror]
          exact Or.inr ⟨fun hr => herror hr.2, d.created + 1, Nat.le_succ _, (other_eq h mode).2⟩

/-! ## The pointers -/

theorem current_replaced (d : Daemon Time) (mode : String) (native : Bool) : Current (replaced d mode native) where
  live := rfl
  fresh := Nat.lt_succ_self d.created
  dcSync := rfl
  eoe := rfl
  redundancy := rfl
  onlineChange := rfl
  notNull := rfl

theorem current_initial : Current (initial Time) where
  live := rfl
  fresh := Nat.lt_succ_self 0
  dcSync := rfl
  eoe := rfl
  redundancy := rfl
  onlineChange := rfl
  notNull := rfl

theorem current_setBackendMode (h : Current d) (haveIgh : Bool) (mode error : String) :
    Current (setBackendMode d haveIgh mode error) := by
  rcases setBackendMode_cases h haveIgh mode error with ⟨-, native, heq⟩ | ⟨-, created, hle, heq⟩
  · rw [heq]
    exact current_replaced d mode native
  · rw [heq]
    exact ⟨h.live, Nat.lt_of_lt_of_le h.fresh hle, h.dcSync, h.eoe, h.redundancy, h.onlineChange, h.notNull⟩

variable {haveIgh : Bool} {isoDate : Time → String}

/-- What every step keeps: the pointers, and no change is left in progress. -/
def Inv (d : Daemon Time) : Prop := Current d ∧ Idle d.onlineChange

theorem inv_initial : Inv (initial Time) := ⟨current_initial, rfl, rfl⟩

theorem idle_setBackendMode (h : Inv d) (haveIgh : Bool) (mode error : String) :
    Idle (setBackendMode d haveIgh mode error).onlineChange := by
  rcases setBackendMode_cases h.1 haveIgh mode error with ⟨-, native, heq⟩ | ⟨-, created, -, heq⟩
  · rw [heq]
    exact ⟨rfl, rfl⟩
  · rw [heq]
    exact h.2

/-- **The step.** -/
theorem inv_step (h : Inv d) (r : Rpc Time) : Inv (step haveIgh isoDate d r) := by
  obtain ⟨hcurrent, hidle⟩ := h
  cases r with
  | redundancyStatus id params masterText => exact ⟨hcurrent, hidle⟩
  | redundancyCommand c id params masterText now =>
    obtain ⟨hbackend, -⟩ := command_records d.redundancy id params masterText now c
    exact ⟨⟨hcurrent.live, hcurrent.fresh, hcurrent.dcSync, hcurrent.eoe, hbackend.trans hcurrent.redundancy,
      hcurrent.onlineChange, hcurrent.notNull⟩, hidle⟩
  | redundancyHistory id params => exact ⟨hcurrent, hidle⟩
  | onlineChangeApply id params env =>
    obtain ⟨hidle', hnull⟩ := idle_handleApply env id params hidle
    exact ⟨⟨hcurrent.live, hcurrent.fresh, hcurrent.dcSync, hcurrent.eoe, hcurrent.redundancy, hcurrent.onlineChange,
      hnull.trans hcurrent.notNull⟩, hidle'⟩
  | onlineChangeStatus id => exact ⟨hcurrent, hidle⟩
  | setBackend id params error =>
    exact ⟨current_setBackendMode hcurrent haveIgh _ error, idle_setBackendMode ⟨hcurrent, hidle⟩ haveIgh _ error⟩
  | getBackend id => exact ⟨hcurrent, hidle⟩

/-- **No handler ever refers to a deleted backend**, nor to another one than the daemon. -/
theorem current_run (rs : List (Rpc Time)) : Current (exec (step haveIgh isoDate) (initial Time) rs) := by
  have hinv : Inv (exec (step haveIgh isoDate) (initial Time) rs) := by
    unfold exec
    exact foldl_inv_guarded (step haveIgh isoDate) (I := Inv) (G := fun _ _ => True) (fun _ r h _ => inv_step h r) rs
      inv_initial (along_of_forall _ (fun _ _ => trivial) _ rs)
  exact hinv.1

/-! ## What is recorded -/

theorem idle_status {h h' : OnlineChangeHandler} (hidle : Idle h) (hidle' : Idle h') (id : String) :
    OnlineChange.handleStatus h' id = OnlineChange.handleStatus h id := by
  rw [OnlineChange.handleStatus, OnlineChange.handleStatus, hidle.1, hidle.2, hidle'.1, hidle'.2]

/-- **A switch keeps what was recorded** iff it keeps the backend, or nothing was. The
status of the online change it always keeps. -/
theorem kept_iff (h : Inv d) (isoDate : Time → String) (mode error : String) :
    Kept isoDate d (setBackendMode d haveIgh mode error) ↔
      (Replaces haveIgh d mode error → d.redundancy.history = []) := by
  have hidle := idle_setBackendMode h haveIgh mode error
  rcases setBackendMode_cases h.1 haveIgh mode error with ⟨hreplaces, native, heq⟩ | ⟨hkeeps, created, -, heq⟩
  · rw [heq] at hidle ⊢
    constructor
    · intro hkept _
      exact hkept.history.symm
    · intro hempty
      have hhistory : (replaced d mode native).redundancy.history = d.redundancy.history := (hempty hreplaces).symm
      exact ⟨hhistory, fun id params => by simp only [handleHistory, hhistory], idle_status h.2 hidle⟩
  · rw [heq]
    exact iff_of_true ⟨rfl, fun _ _ => rfl, fun _ => rfl⟩ fun hr => absurd hr hkeeps

theorem right_step_iff (h : Inv d) (r : Rpc Time) : Right haveIgh isoDate d r ↔ Meets haveIgh d r := by
  have hcurrent : Current (step haveIgh isoDate d r) := (inv_step h r).1
  constructor
  · rintro ⟨-, hkept⟩ id params error rfl
    exact (kept_iff h isoDate _ error).1 (hkept id params error rfl)
  · intro hmeets
    refine ⟨hcurrent, ?_⟩
    rintro id params error rfl
    exact (kept_iff h isoDate _ error).2 (hmeets id params error rfl)

/-- **The run**: each switch leaves what was recorded and reported as it is, and each
request the handlers at the current backend, iff no switch replaces the backend of
a daemon that has recorded an event. -/
theorem switch_iff (haveIgh : Bool) (isoDate : Time → String) (rs : List (Rpc Time)) :
    Along (step haveIgh isoDate) (Right haveIgh isoDate) (initial Time) rs ↔
      Along (step haveIgh isoDate) (Meets haveIgh) (initial Time) rs :=
  along_congr (step haveIgh isoDate) (I := Inv) (fun _ r h => right_step_iff h r) (fun _ r h _ => inv_step h r) rs
    inv_initial

/-- A request that is recorded, then a switch to the native backend: the event is gone. -/
theorem lost :
    ¬ Along (step true fun _ : Nat => "2024-05-01T12:00:00") (Right true fun _ : Nat => "2024-05-01T12:00:00")
      (initial Nat)
      [.redundancyCommand .redundancyDisable "1" [] (fun _ => ("", "")) 0,
        .setBackend "2" [("mode", .string "native")] ""] := by
  rintro ⟨-, ⟨-, hkept⟩, -⟩
  have hhistory := (hkept "2" [("mode", .string "native")] "" rfl).history
  have hlength := congrArg List.length hhistory
  exact absurd hlength (by decide)

/-! ## Without IgH -/

theorem not_replaces (hcli : isNative d = false) (mode error : String) : ¬ Replaces false d mode error := by
  unfold Replaces
  rw [hcli]
  split_ifs
  all_goals simp

theorem cli_step (h : Inv d) (hcli : isNative d = false) (r : Rpc Time) :
    isNative (step false isoDate d r) = false := by
  cases r with
  | setBackend id params error =>
    rcases setBackendMode_cases h.1 false (requestedMode params) error with ⟨hr, -⟩ | ⟨-, created, -, heq⟩
    · exact absurd hr (not_replaces hcli _ error)
    · simp only [step, handle, heq]
      exact hcli
  | redundancyStatus id params masterText => exact hcli
  | redundancyCommand c id params masterText now => exact hcli
  | redundancyHistory id params => exact hcli
  | onlineChangeApply id params env => exact hcli
  | onlineChangeStatus id => exact hcli
  | getBackend id => exact hcli

/-- Without IgH the backend stays the CLI one and is never replaced: every run is right. -/
theorem kept_without_igh (isoDate : Time → String) (rs : List (Rpc Time)) :
    Along (step false isoDate) (Right false isoDate) (initial Time) rs := by
  have hright : ∀ d r, Inv d ∧ isNative d = false → (Right false isoDate d r ↔ True) := by
    rintro d r ⟨h, hcli⟩
    refine iff_true_intro ((right_step_iff h r).2 ?_)
    exact fun _ _ error _ hr => absurd hr (not_replaces hcli _ error)
  exact (along_congr (step false isoDate) (I := fun d => Inv d ∧ isNative d = false) hright
    (fun _ r h _ => ⟨inv_step h.1 r, cli_step h.1 h.2 r⟩) rs ⟨inv_initial, rfl⟩).2
    (along_of_forall _ (fun _ _ => trivial) _ rs)

end

end NekoEcat.L2.BackendSwitch
