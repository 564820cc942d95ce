import Mathlib.Data.List.Perm.Subperm
import NekoEcat.L2Daemon.CliAnswers

/-!
# What becomes of a malformed target

Every handler reads its target by a conversion with a default. Where the default
of the position is -1, it is refused by the check that follows; where it is 0,
the request is carried out on slave 0. A master that is no string is master 0.

* `position_default`, `master_default`: what a malformed target is read as.
* `request_refused_iff`: a request is refused exactly by the handler's own checks.
* `strict_position`: which include the position in three handlers.
* `element_not_refused`: an element of a batch is carried out in any case.
* `malformed_iff`: when a malformed target touches nothing.
-/
namespace NekoEcat.L2.Targets
open NekoEcat.Commands NekoEcat.QJson NekoEcat.QString NekoEcat.L2.CliBackend NekoEcat.L2.Handlers NekoEcat.L2.CliAnswers
open NekoEcat.L2.FoE (failure)

/-- The position is no integer of the range of an `int`. -/
def BadPosition (obj : QJsonObject) : Prop := ∀ n : Int, -2 ^ 31 ≤ n → n < 2 ^ 31 → value obj "position" ≠ .int n

/-- There is a master, and it is no string. -/
def BadMaster (params : QJsonObject) : Prop :=
  contains params "master" = true ∧ ∀ s, value params "master" ≠ .string s

/-- The requests that write, or read, one slave. -/
inductive Writer where
  | download
  | setState
  | upload
  | eoeConfigureIp
  | soeWrite
  | foeWrite

def Writer.handler (host : Host) : Writer → Handler
  | .download => Handlers.download
  | .setState => Handlers.setState
  | .upload => Handlers.upload
  | .eoeConfigureIp => handleEoeConfigureIp
  | .soeWrite => handleSoeWrite
  | .foeWrite => Handlers.foeWrite host

/-- The handler's own checks. -/
def Writer.refusal (host : Host) (params : QJsonObject) : Writer → Option String
  | .download | .setState | .upload => none
  | .eoeConfigureIp => eoeConfigureIpRefusal params
  | .soeWrite => soeWriteRefusal params
  | .foeWrite => foeWriteRefusal host params

/-- The requests with an array of writes. -/
inductive Batch where
  | applyStartupSdos
  | onlineChangeApply

def Batch.handler : Batch → Handler
  | .applyStartupSdos => Handlers.applyStartupSdos
  | .onlineChangeApply => handleApply

def Batch.key : Batch → String
  | .applyStartupSdos => "items"
  | .onlineChangeApply => "changes"

def Batch.elements (b : Batch) (params : QJsonObject) : List QJsonValue := toArray (value params b.key)

/-- The same request without one element. -/
def Batch.without (b : Batch) (params : QJsonObject) (i : Nat) : QJsonObject :=
  insert b.key (.array ((b.elements params).eraseIdx i)) params

/-- The reports of the elements: those of the state changes have a phase of their own. -/
def reports (response : QJsonObject) : List QJsonObject :=
  ((toArray (value (result response) "results")).map toObject).filter fun r => toStringD (value r "phase") "" != "preop"

/-! ## Conversions -/

theorem position_default {obj : QJsonObject} (h : BadPosition obj) (dflt : Int) : toIntD (value obj "position") dflt = dflt := by
  cases hv : value obj "position" with
  | int n =>
    unfold toIntD
    simp only
    split
    · rename_i hrange
      exact absurd hv (h n hrange.1 hrange.2)
    · rfl
  | _ => rfl

theorem master_default {params : QJsonObject} (h : BadMaster params) : requestedMaster params = "0" := by
  have hzero : toStringD (value params "master") "0" = "0" := by
    cases hv : value params "master" with
    | string s => exact absurd hv (h.2 s)
    | _ => rfl
  rw [requestedMaster, hzero]
  decide +kernel

/-! ## Requests -/

/-- What is asked to be carried out. -/
inductive Attempt where
  | request (w : Writer) (params : QJsonObject)
  | element (b : Batch) (params : QJsonObject) (i : Nat)

def Attempt.Malformed : Attempt → Prop
  | .request _ params => BadPosition params ∨ BadMaster params
  | .element b params i =>
    ∃ item, (b.elements params)[i]? = some item ∧ (BadPosition (toObject item) ∨ BadMaster params)

section
variable (host : Host) (env : List Line → Line → Outcome) (h : List Line) (id : String)

/-- Reported as failed, and nothing is run because of it: for a request nothing
at all, for an element nothing that is not run without it. -/
def Attempt.Refused : Attempt → Prop
  | .request w params =>
    ¬ IsOk ((w.handler host id params).run env h).1 ∧ ((w.handler host id params).run env h).2 = []
  | .element b params i =>
    (∃ r, (reports ((b.handler id params).run env h).1)[i]? = some r ∧ QJson.toBool (value r "ok") = false) ∧
      ((b.handler id params).run env h).2 = ((b.handler id (b.without params i)).run env h).2

/-- The handler refuses it. -/
def Attempt.ByCheck : Attempt → Prop
  | .request w params => w.refusal host params ≠ none
  | .element .. => False

/-- A handler that checks first. -/
theorem checked_iff {refusal : Option String} {p : Cli QJsonObject}
    (hsome : ∀ message, refusal = some message → p = .done (failure id message))
    (hnone : refusal = none → ∃ line k, p = .call line k) :
    (¬ IsOk (p.run env h).1 ∧ (p.run env h).2 = []) ↔ refusal ≠ none := by
  cases hr : refusal with
  | some message =>
    rw [hsome message hr]
    exact iff_of_true ⟨isOk_failure, rfl⟩ (Option.some_ne_none message)
  | none =>
    obtain ⟨line, k, rfl⟩ := hnone hr
    refine iff_of_false (fun hboth => ?_) fun hne => hne rfl
    rw [Prog.run_call] at hboth
    exact List.cons_ne_nil _ _ hboth.2

theorem request_refused_iff (w : Writer) (params : QJsonObject) :
    (Attempt.request w params).Refused host env h id ↔ w.refusal host params ≠ none := by
  cases w with
  | download => exact checked_iff env h id (fun _ hm => nomatch hm) fun _ => ⟨_, _, rfl⟩
  | setState => exact checked_iff env h id (fun _ hm => nomatch hm) fun _ => ⟨_, _, rfl⟩
  | upload => exact checked_iff env h id (fun _ hm => nomatch hm) fun _ => ⟨_, _, rfl⟩
  | eoeConfigureIp =>
    refine checked_iff env h id (fun message hm => ?_) fun hn => ?_
    · simp only [Writer.refusal] at hm
      simp only [Writer.handler, handleEoeConfigureIp, hm]
    · simp only [Writer.refusal] at hn
      simp only [Writer.handler, handleEoeConfigureIp, hn]
      exact ⟨_, _, rfl⟩
  | soeWrite =>
    refine checked_iff env h id (fun message hm => ?_) fun hn => ?_
    · simp only [Writer.refusal] at hm
      simp only [Writer.handler, handleSoeWrite, hm]
    · simp only [Writer.refusal] at hn
      simp only [Writer.handler, handleSoeWrite, hn]
      exact ⟨_, _, rfl⟩
  | foeWrite =>
    refine checked_iff env h id (fun message hm => ?_) fun hn => ?_
    · simp only [Writer.refusal] at hm
      simp only [Writer.handler, Handlers.foeWrite, hm]
    · simp only [Writer.refusal] at hn
      simp only [Writer.handler, Handlers.foeWrite, hn]
      exact ⟨_, _, rfl⟩

/-- Three handlers refuse a malformed position. -/
theorem strict_position {w : Writer} (hw : w = .eoeConfigureIp ∨ w = .soeWrite ∨ w = .foeWrite) {params : QJsonObject}
    (hp : BadPosition params) : (Attempt.request w params).Refused host env h id := by
  refine (request_refused_iff host env h id w params).2 ?_
  have hneg : soePosition params < 0 := by
    rw [soePosition, position_default hp]
    decide
  obtain rfl | rfl | rfl := hw
  · rw [Writer.refusal, eoeConfigureIpRefusal]
    simp [hneg]
  · rw [Writer.refusal, soeWriteRefusal]
    simp [hneg]
  · rw [Writer.refusal, foeWriteRefusal]
    simp [hneg]

/-! ## Elements -/

theorem affected_length_le {xs ys : List QJsonValue} (hsub : xs.Sublist ys) :
    (affectedSlaves xs).length ≤ (affectedSlaves ys).length := by
  unfold affectedSlaves
  rw [List.length_mergeSort, List.length_mergeSort]
  refine (List.subperm_of_subset (List.nodup_dedup _) fun p hp => ?_).length_le
  rw [List.mem_dedup] at hp ⊢
  exact (((hsub.map toObject).filter _).map position).subset hp

/-- **An element of a batch is carried out in any case.** -/
theorem element_not_refused (b : Batch) {params : QJsonObject} {i : Nat} (hi : i < (b.elements params).length) :
    ¬ (Attempt.element b params i).Refused host env h id := by
  rintro ⟨-, hlines⟩
  have hlength := congrArg List.length hlines
  have herase : ((b.elements params).eraseIdx i).length + 1 = (b.elements params).length := by
    rw [List.length_eraseIdx_of_lt hi]
    omega
  have hwithout : toArray (value (b.without params i) b.key) = (b.elements params).eraseIdx i := by
    simp [Batch.without, value_insert, toArray]
  cases b with
  | applyStartupSdos =>
    simp only [Batch.handler, Batch.key] at hlength hwithout
    rw [lines_applyStartupSdos, lines_applyStartupSdos, hwithout] at hlength
    simp only [List.length_map, Batch.elements, Batch.key] at hlength herase
    omega
  | onlineChangeApply =>
    simp only [Batch.handler, Batch.key] at hlength hwithout
    rw [lines_handleApply, lines_handleApply, hwithout] at hlength
    have hle := affected_length_le (List.eraseIdx_sublist (Batch.onlineChangeApply.elements params) i)
    simp only [List.length_append, List.length_map, Batch.elements, Batch.key] at hlength herase hle
    omega

/-- **A malformed target touches nothing exactly if a check of the handler's own
refuses the request.** -/
theorem malformed_iff (a : Attempt) :
    (a.Malformed → a.Refused host env h id) ↔ (a.Malformed → a.ByCheck host) := by
  cases a with
  | request w params => exact imp_congr_right fun _ => request_refused_iff host env h id w params
  | element b params i =>
    refine imp_congr_right fun hm => iff_of_false ?_ fun hf => hf
    obtain ⟨item, hitem, -⟩ := hm
    exact element_not_refused host env h id b (List.getElem?_eq_some_iff.1 hitem).1

end

/-- A write without a position. -/
def unaddressed : QJsonObject := ofList [("index", .string "6060"), ("subIndex", .string "0"), ("value", .string "8")]

/-- It goes to slave 0. -/
theorem write_slave0 :
    (Attempt.request .download unaddressed).Malformed ∧
      ¬ (Attempt.request .download unaddressed).Refused bareHost (fun _ _ => .exited 0 "" "") [] "7" ∧
      ((Handlers.download "7" unaddressed).run (fun _ _ => .exited 0 "" "") []).2 =
        [["-m", "0", "download", "-p", "0", "0x6060", "0x0", "8"]] := by
  refine ⟨.inl fun n _ _ hn => ?_, ?_, by decide +kernel⟩
  · have hnull : value unaddressed "position" = .null := by
      simp only [unaddressed, ofList, List.foldl_cons, List.foldl_nil, value_insert]
      rfl
    rw [hnull] at hn
    cases hn
  · rintro ⟨-, hlines⟩
    exact List.cons_ne_nil _ _ hlines

end NekoEcat.L2.Targets
