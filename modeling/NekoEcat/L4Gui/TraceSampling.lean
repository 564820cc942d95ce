import NekoEcat.Core.Double
import NekoEcat.Core.Newest
import NekoEcat.Core.QHash
import NekoEcat.Core.Strip
import NekoEcat.Core.Trace
import NekoEcat.L2Daemon.NativeSdo
import Mathlib.Data.List.DropRight

/-!
# Sampling of trace channels

Each tick reads the object of every channel and remembers, under a key of the
object, the channel the value goes to. An answer says of which object it is, not
which read it answers: it goes to the channel that is remembered, once. Its text is
read as a decimal number.

A read that has no answer yet is known with who issued it. A read is due if the
latest tick issued it for a channel that is still there.

* `pending_step`: which channel is remembered for an object.
* `sampled_step`: when one step samples what is due and nothing else.
* `sampled_iff`: a run samples what is due iff each of its steps does; its data are
  always the newest points.
* `shared_object`: two channels of one object.
-/
namespace NekoEcat.L4.TraceSampling
open NekoEcat.Trace NekoEcat.QHash NekoEcat.QNumber
open NekoEcat.QString (arg)
open NekoEcat.L2.NativeSdo (ofLe)

/-! ## Texts and numbers -/

/-- The doubles, as far as texts are read as such. -/
structure Doubles (V : Type) where
  /-- an integer of 53 significant bits -/
  whole : Int → V
  whole_injective : Function.Injective whole
  /-- a text that is no integer and has no `x`, so that it may have a point or an exponent -/
  real : List Char → V

/-- The texts the backends answer for an object of an integer. -/
inductive Answer where
  /-- a number of the type that was asked for -/
  | decimal (n : Int)
  | hexadecimal (digits : List (Fin 16))
  /-- the `ethercat` tool: the digits and the number -/
  | both (digits : List (Fin 16)) (n : Int)
  /-- the bytes that were read, without a type -/
  | dump (data : Bytes)
  deriving DecidableEq

def hexDigits (digits : List (Fin 16)) : List Char := digits.map fun d => Nat.digitChar d

def Answer.text : Answer → List Char
  | .decimal n => QJson.intText n
  | .hexadecimal digits => '0' :: 'x' :: hexDigits digits
  | .both digits n => '0' :: 'x' :: (hexDigits digits ++ ' ' :: QJson.intText n)
  | .dump data => hexDump data

def Answer.number : Answer → Int
  | .decimal n => n
  | .hexadecimal digits => ofDigits 16 (hexDigits digits)
  | .both _ n => n
  | .dump data => ofLe data

section
variable {V : Type} (D : Doubles V)

/-- The double nearest to an integer. -/
def Doubles.ofInt (n : Int) : V := D.whole (Double.ofInt n)

/-- `QString::toDouble`: a text with an `x` is no number, and gives 0. -/
def Doubles.toDouble (text : List Char) : V :=
  match integer 10 text with
  | some n => D.ofInt n
  | none => if 'x' ∈ text then D.whole 0 else D.real text

end

/-! ## The service -/

structure Object where
  slave : Int
  index : String
  subIndex : String
  deriving DecidableEq

/-- mirrors apps/ecat-studio/services/TraceService.cpp:111, 121 -/
def key (o : Object) : String := arg (arg (arg "%1:%2:%3" (toString o.slave)) o.index) o.subIndex

structure TracePoint (V : Type) where
  timestamp : Int
  value : V
  channelId : Int
  quality : Int := 100
  deriving DecidableEq

structure TraceChannelConfig (V : Type) where
  id : Int
  object : Object
  name : String
  data : List (TracePoint V) := []
  deriving DecidableEq

def kMaxChannels : Nat := 16

def kDefaultBufferSize : Nat := 10000

/-- The service with a client, without its timer and trigger mode. -/
structure Service (V : Type) where
  channels : List (TraceChannelConfig V) := []
  nextId : Int := 1
  bufferSize : Nat := kDefaultBufferSize
  tracing : Bool := true
  pendingRequests : QHash String Int := .empty

section
variable {V : Type}

/-- mirrors apps/ecat-studio/services/TraceService.cpp:22-35 -/
def addChannel (s : Service V) (name : String) (o : Object) : Service V :=
  if s.channels.length ≥ kMaxChannels then s
  else
    let auto := arg (arg (arg (arg "CH%1 [%2:%3.%4]" (toString s.nextId)) (toString o.slave)) o.index) o.subIndex
    { s with
      channels := s.channels ++ [{ id := s.nextId, object := o, name := if name = "" then auto else name }]
      nextId := s.nextId + 1 }

/-- mirrors apps/ecat-studio/services/TraceService.cpp:37-45 -/
def removeChannel (s : Service V) (channelId : Int) : Service V :=
  { s with channels := s.channels.eraseP fun ch => decide (ch.id = channelId) }

/-- mirrors apps/ecat-studio/services/TraceService.cpp:82-84 -/
def setBufferSize (s : Service V) (size : Int) : Service V := { s with bufferSize := (max 100 (min size 1000000)).toNat }

/-- What `tick` remembers; it reads the object of each channel.
mirrors apps/ecat-studio/services/TraceService.cpp:105-115 -/
def Service.polled (s : Service V) : Service V :=
  { s with pendingRequests := insertEach (fun ch => some (key ch.object, ch.id)) empty s.channels }

/-- `while (data.size() > bufferSize_) data.removeFirst()` -/
def trimOldest (bufferSize : Nat) : List (TracePoint V) → List (TracePoint V)
  | [] => []
  | pt :: pts => if (pt :: pts).length > bufferSize then trimOldest bufferSize pts else pt :: pts

/-- The loop over the channels; `none` if no channel takes the point. -/
def appendPoint (bufferSize : Nat) (o : Object) (pt : TracePoint V) :
    List (TraceChannelConfig V) → Option (List (TraceChannelConfig V))
  | [] => none
  | ch :: channels =>
    if ch.id = pt.channelId ∧ ch.object = o then
      some ({ ch with data := trimOldest bufferSize (ch.data ++ [pt]) } :: channels)
    else (appendPoint bufferSize o pt channels).map (ch :: ·)

/-- The service after a value, and the point it has appended.
mirrors apps/ecat-studio/services/TraceService.cpp:117-152 -/
def onSdoValue (D : Doubles V) (s : Service V) (o : Object) (value : List Char) (now : Int) :
    Service V × Option (TracePoint V) :=
  if s.tracing = false then (s, none)
  else
    match s.pendingRequests.value (key o) with
    | none => (s, none)
    | some channelId =>
      let s := { s with pendingRequests := s.pendingRequests.erase (key o) }
      let pt := { timestamp := now, value := D.toDouble value, channelId }
      match appendPoint s.bufferSize o pt s.channels with
      | none => (s, none)
      | some channels => ({ s with channels }, some pt)

end

/-! ## Reads -/

inductive Issuer where
  /-- the tick of this number, for this channel -/
  | tick (n : Nat) (channelId : Int)
  | other
  deriving DecidableEq

structure Read where
  object : Object
  issuer : Issuer
  deriving DecidableEq

/-- The service and the reads without an answer. `appended` are the points so far;
`polled` and `answered` are the channels at the latest tick and the keys of the
values since then. -/
structure World (V : Type) where
  service : Service V := {}
  reads : List Read := []
  ticks : Nat := 0
  appended : List (TracePoint V) := []
  polled : List (TraceChannelConfig V) := []
  answered : List String := []

inductive Label where
  | tick
  | addChannel (name : String) (o : Object)
  | removeChannel (channelId : Int)
  | setBufferSize (size : Int)
  /-- Another part of the program reads an object. -/
  | otherRead (o : Object)
  /-- The `k`-th read is answered. -/
  | answer (k : Nat) (a : Answer) (now : Int)
  /-- It fails, so that there is no value. -/
  | failed (k : Nat)

section
variable {V : Type} (D : Doubles V)

def step (w : World V) : Label → World V
  | .tick =>
    { w with
      service := w.service.polled
      reads := w.reads ++ w.service.channels.map fun ch => ⟨ch.object, .tick (w.ticks + 1) ch.id⟩
      ticks := w.ticks + 1
      polled := w.service.channels
      answered := [] }
  | .addChannel name o => { w with service := addChannel w.service name o }
  | .removeChannel channelId => { w with service := removeChannel w.service channelId }
  | .setBufferSize size => { w with service := setBufferSize w.service size }
  | .otherRead o => { w with reads := w.reads ++ [⟨o, .other⟩] }
  | .answer k a now =>
    match w.reads[k]? with
    | none => w
    | some r =>
      let s := onSdoValue D w.service r.object a.text now
      { w with
        service := s.1
        reads := w.reads.eraseIdx k
        appended := w.appended ++ s.2.toList
        answered := key r.object :: w.answered }
  | .failed k => { w with reads := w.reads.eraseIdx k }

/-! ## What sampling is -/

/-- The channel that a read is due for. -/
def due (w : World V) (r : Read) : Option Int :=
  match r.issuer with
  | .tick n channelId => if n = w.ticks ∧ channelId ∈ w.service.channels.map (·.id) then some channelId else none
  | .other => none

/-- A channel with one more point. -/
def TraceChannelConfig.fed (bufferSize : Nat) (pt : TracePoint V) (ch : TraceChannelConfig V) : TraceChannelConfig V :=
  if ch.id = pt.channelId then { ch with data := (ch.data ++ [pt]).rtake bufferSize } else ch

/-- The point that an answer is to append. -/
def duePoint (w : World V) (r : Read) (a : Answer) (now : Int) : Option (TracePoint V) :=
  (due w r).map fun channelId => { timestamp := now, value := D.ofInt a.number, channelId }

/-- An answer that is due appends its number to its channel; any other answer
appends nothing. -/
def Sampled (w : World V) : Label → Prop
  | .answer k a now => ∀ r, w.reads[k]? = some r →
    (step D w (.answer k a now)).appended = w.appended ++ (duePoint D w r a now).toList ∧
    (step D w (.answer k a now)).service.channels =
      (duePoint D w r a now).elim w.service.channels fun pt => w.service.channels.map (·.fed w.service.bufferSize pt)
  | _ => True

/-- The channel that waits for a value of an object: the last one with its key that
the latest tick has read for, if there was no such value since then, and if it is
still there for that object. -/
def awaited (w : World V) (o : Object) : Option Int :=
  if key o ∈ w.answered then none
  else
    match lastWith (fun ch => key ch.object) (key o) w.polled with
    | none => none
    | some ch => if ∃ ch' ∈ w.service.channels, ch'.id = ch.id ∧ ch'.object = o then some ch.id else none

/-- A text whose number is read: of those with `0x` only 0, of the dumps those that
are the same in decimal. -/
def Answer.Fits : Answer → Prop
  | .decimal _ => True
  | .hexadecimal digits => ofDigits 16 (hexDigits digits) = 0
  | .both _ n => n = 0
  | .dump data => D.toDouble (hexDump data) = D.ofInt (ofLe data)

/-- An answer that is due fits and is awaited for its channel; any other answer is
not awaited. -/
def Meets (w : World V) : Label → Prop
  | .answer k a _ => ∀ r, w.reads[k]? = some r → awaited w r.object = due w r ∧ (due w r ≠ none → a.Fits D)
  | _ => True

end

/-! ## What is read -/

theorem magnitude_of_x {cs : List Char} (h : 'x' ∈ cs) : magnitude 10 cs = none := by
  refine Option.eq_none_iff_forall_ne_some.2 fun n hn => ?_
  obtain ⟨-, hdigits, -⟩ := magnitude_eq_some.1 hn
  rw [skipPrefix_ten] at hdigits
  exact absurd (hdigits 'x' h) (by decide)

theorem integer_of_x {cs : List Char} (h : 'x' ∈ cs) : integer 10 cs = none := by
  have htrim : 'x' ∈ trim cs := Strip.mem_strip _ h (by decide)
  unfold integer
  split
  · rename_i rest heq
    rw [heq] at htrim
    rw [magnitude_of_x ((List.mem_cons.1 htrim).resolve_left (by decide)), Option.map_none]
  · have hplus : 'x' ∈ skipPlus (trim cs) := by
      unfold skipPlus
      split
      · rename_i heq
        rw [heq] at htrim
        exact (List.mem_cons.1 htrim).resolve_left (by decide)
      · exact htrim
    rw [magnitude_of_x hplus, Option.map_none]

section
variable {V : Type} (D : Doubles V)

theorem ofInt_eq_whole {n : Int} : D.whole 0 = D.ofInt n ↔ n = 0 := by
  rw [Doubles.ofInt, D.whole_injective.eq_iff, eq_comm, Double.ofInt_eq_zero]

theorem toDouble_of_x {cs : List Char} (h : 'x' ∈ cs) : D.toDouble cs = D.whole 0 := by
  rw [Doubles.toDouble, integer_of_x h]
  exact if_pos h

/-- **Which numbers are read.** -/
theorem fits_iff (a : Answer) : a.Fits D ↔ D.toDouble a.text = D.ofInt a.number := by
  cases a with
  | decimal n =>
    refine iff_of_true trivial ?_
    rw [Doubles.toDouble, Answer.text, integer_intText]
    rfl
  | hexadecimal digits =>
    rw [toDouble_of_x D (by simp [Answer.text]), ofInt_eq_whole]
    exact Int.natCast_eq_zero.symm
  | both digits n =>
    rw [toDouble_of_x D (by simp [Answer.text]), ofInt_eq_whole]
    rfl
  | dump data => rfl

end

/-! ## The loop over the channels -/

section
variable {V : Type}

theorem trimOldest_eq_rtake (bufferSize : Nat) (data : List (TracePoint V)) :
    trimOldest bufferSize data = data.rtake bufferSize := by
  induction data with
  | nil => simp [trimOldest]
  | cons pt data ih =>
    rw [trimOldest]
    split
    · rename_i hlong
      rw [List.length_cons] at hlong
      have hdrop : data.length + 1 - bufferSize = (data.length - bufferSize) + 1 := by omega
      rw [ih, List.rtake, List.rtake, List.length_cons, hdrop, List.drop_succ_cons]
    · rename_i hshort
      rw [List.rtake, Nat.sub_eq_zero_of_le (Nat.not_lt.1 hshort), List.drop_zero]

theorem appendPoint_none {bufferSize : Nat} {o : Object} {pt : TracePoint V} {channels : List (TraceChannelConfig V)}
    (h : ¬ ∃ ch ∈ channels, ch.id = pt.channelId ∧ ch.object = o) : appendPoint bufferSize o pt channels = none := by
  induction channels with
  | nil => rfl
  | cons ch channels ih =>
    rw [appendPoint, if_neg fun hch => h ⟨ch, List.mem_cons_self, hch⟩,
      ih fun ⟨ch', hmem, hch'⟩ => h ⟨ch', List.mem_cons_of_mem ch hmem, hch'⟩, Option.map_none]

/-- The channel of the point takes it, and no other. -/
theorem appendPoint_some {bufferSize : Nat} {o : Object} {pt : TracePoint V} {channels : List (TraceChannelConfig V)}
    (hids : (channels.map (·.id)).Nodup) (h : ∃ ch ∈ channels, ch.id = pt.channelId ∧ ch.object = o) :
    appendPoint bufferSize o pt channels = some (channels.map (·.fed bufferSize pt)) := by
  induction channels with
  | nil => simp at h
  | cons ch channels ih =>
    rw [List.map_cons, List.nodup_cons] at hids
    have hother {ch' : TraceChannelConfig V} (hmem : ch' ∈ channels) : ch'.id ≠ ch.id :=
      fun he => hids.1 (List.mem_map.2 ⟨ch', hmem, he⟩)
    rw [appendPoint, List.map_cons]
    split
    · rename_i hch
      have hothers : channels.map (·.fed bufferSize pt) = channels := by
        refine (List.map_congr_left fun ch' hmem => if_neg ?_).trans (List.map_id channels)
        rw [← hch.1]
        exact hother hmem
      rw [hothers, TraceChannelConfig.fed, if_pos hch.1, trimOldest_eq_rtake]
    · rename_i hno
      obtain ⟨ch', hmem, hch'⟩ := h
      have htail := (List.mem_cons.1 hmem).resolve_left fun he => hno (he ▸ hch')
      have hsame : ch.fed bufferSize pt = ch := if_neg fun he => hother htail (hch'.1.trans he.symm)
      rw [ih hids.2 ⟨ch', htail, hch'⟩, hsame]
      rfl

@[simp] theorem fed_id (bufferSize : Nat) (pt : TracePoint V) (ch : TraceChannelConfig V) :
    (ch.fed bufferSize pt).id = ch.id := by
  unfold TraceChannelConfig.fed
  split <;> rfl

@[simp] theorem map_fed_id (bufferSize : Nat) (pt : TracePoint V) (channels : List (TraceChannelConfig V)) :
    (channels.map (·.fed bufferSize pt)).map (·.id) = channels.map (·.id) := by
  rw [List.map_map]
  exact List.map_congr_left fun ch _ => fed_id bufferSize pt ch

end

/-! ## One value -/

section
variable {V : Type} (D : Doubles V)

/-- The channel that takes a value. -/
def taker (s : Service V) (o : Object) : Option Int :=
  match s.pendingRequests.value (key o) with
  | none => none
  | some channelId => if ∃ ch ∈ s.channels, ch.id = channelId ∧ ch.object = o then some channelId else none

def point (value : V) (now channelId : Int) : TracePoint V := { timestamp := now, value, channelId }

/-- What a value changes. -/
structure Taken (s s' : Service V) (o : Object) (pt : Option (TracePoint V)) : Prop where
  channels : s'.channels = pt.elim s.channels fun pt => s.channels.map (·.fed s.bufferSize pt)
  pending : ∀ k, s'.pendingRequests.value k = if k = key o then none else s.pendingRequests.value k
  tracing : s'.tracing = s.tracing
  nextId : s'.nextId = s.nextId
  bufferSize : s'.bufferSize = s.bufferSize

theorem onSdoValue_spec {s : Service V} (htracing : s.tracing = true) (hids : (s.channels.map (·.id)).Nodup) (o : Object)
    (value : List Char) (now : Int) :
    (onSdoValue D s o value now).2 = (taker s o).map (point (D.toDouble value) now) ∧
      Taken s (onSdoValue D s o value now).1 o (onSdoValue D s o value now).2 := by
  unfold onSdoValue taker
  rw [if_neg (by simp [htracing])]
  cases hpending : s.pendingRequests.value (key o) with
  | none =>
    refine ⟨rfl, rfl, fun k => ?_, rfl, rfl, rfl⟩
    by_cases hk : k = key o
    · rw [if_pos hk, hk]
      exact hpending
    · exact (if_neg hk).symm
  | some channelId =>
    dsimp only
    by_cases hch : ∃ ch ∈ s.channels, ch.id = channelId ∧ ch.object = o
    · rw [if_pos hch]
      have happend := @appendPoint_some V s.bufferSize o (point (D.toDouble value) now channelId) _ hids hch
      rw [point] at happend
      rw [happend]
      exact ⟨rfl, rfl, fun k => QHash.value_erase _ _ k, rfl, rfl, rfl⟩
    · rw [if_neg hch]
      have happend := @appendPoint_none V s.bufferSize o (point (D.toDouble value) now channelId) _ hch
      rw [point] at happend
      rw [happend]
      exact ⟨rfl, rfl, fun k => QHash.value_erase _ _ k, rfl, rfl, rfl⟩

/-! ## What every step keeps -/

structure Inv (w : World V) : Prop where
  tracing : w.service.tracing = true
  ids : (w.service.channels.map (·.id)).Nodup
  fresh : ∀ ch ∈ w.service.channels, ch.id < w.service.nextId
  pending : ∀ k, w.service.pendingRequests.value k =
    if k ∈ w.answered then none else (lastWith (fun ch => key ch.object) k w.polled).map (·.id)
  data : ∀ ch ∈ w.service.channels, ch.data <:+ w.appended.filter fun pt => decide (pt.channelId = ch.id)

theorem inv_start : Inv ({} : World V) :=
  ⟨rfl, List.nodup_nil, nofun, fun _ => rfl, nofun⟩

/-- **Which channel is remembered** for an object. -/
theorem awaited_eq_taker {w : World V} (h : Inv w) (o : Object) : awaited w o = taker w.service o := by
  unfold awaited taker
  rw [h.pending]
  split
  · rfl
  · cases lastWith (fun ch => key ch.object) (key o) w.polled <;> rfl

variable {w : World V}

theorem step_answer {k : Nat} {r : Read} (hr : w.reads[k]? = some r) (a : Answer) (now : Int) :
    step D w (.answer k a now) =
      { w with
        service := (onSdoValue D w.service r.object a.text now).1
        reads := w.reads.eraseIdx k
        appended := w.appended ++ (onSdoValue D w.service r.object a.text now).2.toList
        answered := key r.object :: w.answered } := by
  simp only [step, hr]

theorem inv_answer (h : Inv w) (k : Nat) (a : Answer) (now : Int) : Inv (step D w (.answer k a now)) := by
  cases hr : w.reads[k]? with
  | none =>
    have hsame : step D w (.answer k a now) = w := by simp only [step, hr]
    rw [hsame]
    exact h
  | some r =>
    obtain ⟨-, htaken⟩ := onSdoValue_spec D h.tracing h.ids r.object a.text now
    rw [step_answer D hr]
    generalize onSdoValue D w.service r.object a.text now = s at htaken
    have hchannels := htaken.channels
    refine ⟨htaken.tracing.trans h.tracing, ?_, ?_, fun k => ?_, ?_⟩
    · rw [hchannels]
      cases s.2 with
      | none => exact h.ids
      | some pt =>
        change ((w.service.channels.map (·.fed w.service.bufferSize pt)).map (·.id)).Nodup
        rw [map_fed_id]
        exact h.ids
    · rw [hchannels, htaken.nextId]
      cases s.2 with
      | none => exact h.fresh
      | some pt => simpa using h.fresh
    · rw [htaken.pending, h.pending]
      by_cases hk : k = key r.object
      · simp [hk]
      · simp [hk]
    · rw [hchannels]
      cases s.2 with
      | none => simpa using h.data
      | some pt =>
        intro ch hch
        obtain ⟨ch', hmem, rfl⟩ := List.mem_map.1 hch
        have hold := h.data ch' hmem
        rw [fed_id, Option.toList_some, List.filter_append, TraceChannelConfig.fed]
        by_cases hid : ch'.id = pt.channelId
        · rw [if_pos hid]
          have hone : [pt].filter (fun pt => decide (pt.channelId = ch'.id)) = [pt] := by simp [hid]
          rw [hone]
          obtain ⟨older, holder⟩ := hold
          refine List.IsSuffix.trans (List.drop_suffix _ _) ⟨older, ?_⟩
          rw [← List.append_assoc, holder]
        · rw [if_neg hid]
          have hnone : [pt].filter (fun pt => decide (pt.channelId = ch'.id)) = [] := by simp [Ne.symm hid]
          rw [hnone, List.append_nil]
          exact hold

theorem inv_step (h : Inv w) (l : Label) : Inv (step D w l) := by
  cases l with
  | tick =>
    refine ⟨h.tracing, h.ids, h.fresh, fun k => ?_, h.data⟩
    have hvalue := QHash.value_insertAll (fun ch => key ch.object) (fun ch : TraceChannelConfig V => ch.id) .empty
      w.service.channels k
    rw [QHash.value_empty, Option.or_none] at hvalue
    exact hvalue
  | addChannel name o =>
    unfold step addChannel
    dsimp only
    split
    · exact h
    · refine ⟨h.tracing, ?_, fun ch hch => ?_, h.pending, fun ch hch => ?_⟩
      · rw [List.map_append, List.map_cons, List.map_nil, ← List.concat_eq_append]
        refine (List.nodup_concat _ _).2 ⟨fun hmem => ?_, h.ids⟩
        obtain ⟨ch, hch, hid⟩ := List.mem_map.1 hmem
        exact absurd hid (Int.ne_of_lt (h.fresh ch hch))
      · rcases List.mem_append.1 hch with hch | hch
        · have hlt := h.fresh ch hch
          dsimp only
          omega
        · rw [List.mem_singleton.1 hch]
          exact Int.lt_succ _
      · rcases List.mem_append.1 hch with hch | hch
        · exact h.data ch hch
        · rw [List.mem_singleton.1 hch]
          exact List.nil_suffix
  | removeChannel channelId =>
    have hsub : (removeChannel w.service channelId).channels.Sublist w.service.channels := List.eraseP_sublist
    refine ⟨h.tracing, h.ids.sublist (hsub.map _), fun ch hch => h.fresh ch (hsub.subset hch), h.pending,
      fun ch hch => h.data ch (hsub.subset hch)⟩
  | setBufferSize size => exact ⟨h.tracing, h.ids, h.fresh, h.pending, h.data⟩
  | otherRead o => exact ⟨h.tracing, h.ids, h.fresh, h.pending, h.data⟩
  | answer k a now => exact inv_answer D h k a now
  | failed k => exact ⟨h.tracing, h.ids, h.fresh, h.pending, h.data⟩

/-- No channel has more points than the buffer after one was appended to it. -/
theorem bounded_step (h : Inv w) {l : Label} {pt : TracePoint V} (happended : (step D w l).appended = w.appended ++ [pt])
    {ch : TraceChannelConfig V} (hch : ch ∈ (step D w l).service.channels) (hid : ch.id = pt.channelId) :
    ch.data.length ≤ (step D w l).service.bufferSize := by
  have hno : w.appended ≠ w.appended ++ [pt] := by simp
  cases l with
  | answer k a now =>
    cases hr : w.reads[k]? with
    | none =>
      have hsame : step D w (.answer k a now) = w := by simp only [step, hr]
      rw [hsame] at happended
      exact absurd happended hno
    | some r =>
      obtain ⟨-, htaken⟩ := onSdoValue_spec D h.tracing h.ids r.object a.text now
      rw [step_answer D hr] at happended hch ⊢
      dsimp only at happended hch ⊢
      rw [htaken.bufferSize]
      cases hpt : (onSdoValue D w.service r.object a.text now).2 with
      | none => simp [hpt] at happended
      | some pt' =>
        rw [hpt, List.append_cancel_left_eq, Option.toList_some, List.singleton_inj] at happended
        rw [htaken.channels, hpt, happended] at hch
        obtain ⟨ch', hmem, rfl⟩ := List.mem_map.1 hch
        rw [fed_id] at hid
        rw [TraceChannelConfig.fed, if_pos hid]
        exact Newest.length_rtake_le _ _
  | tick => exact absurd happended hno
  | addChannel name o => exact absurd happended hno
  | removeChannel channelId => exact absurd happended hno
  | setBufferSize size => exact absurd happended hno
  | otherRead o => exact absurd happended hno
  | failed k => exact absurd happended hno

/-! ## One step -/

theorem toList_injective {α : Type} {x y : Option α} (h : x.toList = y.toList) : x = y := by
  rw [← @Option.head?_toList _ x, h, Option.head?_toList]

/-- The points of two channels. -/
theorem map_point_iff {x y : Option Int} {value value' : V} (now : Int) :
    x.map (point value now) = y.map (point value' now) ↔ x = y ∧ (y ≠ none → value = value') := by
  cases x <;> cases y <;> simp [point, and_comm]

/-- **One step** samples what is due iff what is awaited is due, and fits. -/
theorem sampled_step (h : Inv w) (l : Label) : Sampled D w l ↔ Meets D w l := by
  cases l with
  | answer k a now =>
    refine forall_congr' fun r => imp_congr_right fun hr => ?_
    obtain ⟨hpoint, htaken⟩ := onSdoValue_spec D h.tracing h.ids r.object a.text now
    have hmeets : (onSdoValue D w.service r.object a.text now).2 = duePoint D w r a now ↔
        awaited w r.object = due w r ∧ (due w r ≠ none → a.Fits D) := by
      rw [hpoint, awaited_eq_taker h, fits_iff]
      exact map_point_iff now
    rw [← hmeets, step_answer D hr]
    constructor
    · rintro ⟨happended, -⟩
      exact toList_injective (List.append_cancel_left happended)
    · intro heq
      rw [← heq]
      exact ⟨rfl, htaken.channels⟩
  | tick => exact Iff.rfl
  | addChannel name o => exact Iff.rfl
  | removeChannel channelId => exact Iff.rfl
  | setBufferSize size => exact Iff.rfl
  | otherRead o => exact Iff.rfl
  | failed k => exact Iff.rfl

/-! ## Any run -/

/-- What a run samples: at each step what is due, and at any time the newest points
of each channel. -/
structure Kept (labels : List Label) : Prop where
  sampled : ∀ pre l, pre ++ [l] <+: labels → Sampled D (exec (step D) {} pre) l
  suffix : ∀ pre, pre <+: labels → ∀ ch ∈ (exec (step D) {} pre).service.channels,
    ch.data <:+ (exec (step D) {} pre).appended.filter fun pt => decide (pt.channelId = ch.id)
  bounded : ∀ pre l, pre ++ [l] <+: labels → ∀ pt,
    (step D (exec (step D) {} pre) l).appended = (exec (step D) {} pre).appended ++ [pt] →
      ∀ ch ∈ (step D (exec (step D) {} pre) l).service.channels, ch.id = pt.channelId →
        ch.data.length ≤ (step D (exec (step D) {} pre) l).service.bufferSize

theorem inv_exec (labels : List Label) : Inv (exec (step D) {} labels) := by
  have hstep : ∀ (w : World V) l, Inv w → True → Inv (step D w l) := fun w l h _ => inv_step D h l
  exact foldl_inv_guarded (step D) hstep labels inv_start (along_of_forall _ (fun _ _ => trivial) _ _)

/-- **Sampling, exactly.** A run samples what is due and nothing else if and only if
each answer that is due is awaited for its channel and fits, and no other answer is
awaited. -/
theorem sampled_iff (labels : List Label) : Kept D labels ↔ Along (step D) (Meets D) {} labels := by
  rw [along_iff_forall]
  constructor
  · intro h pre l hpre
    exact (sampled_step D (inv_exec D pre) l).1 (h.sampled pre l hpre)
  · intro h
    refine ⟨fun pre l hpre => ?_, fun pre _ => (inv_exec D pre).data, fun pre l _ pt happended ch hch hid => ?_⟩
    · exact (sampled_step D (inv_exec D pre) l).2 (h pre l hpre)
    · exact bounded_step D (inv_exec D pre) happended hch hid

end

/-- Integers as doubles; texts with a point are not read. -/
def integers : Doubles Int := ⟨id, fun _ _ => id, fun _ => 0⟩

def velocity : Object := ⟨0, "0x606c", "0x00"⟩

/-- Two channels of one object, and the answer to the read for the first of them. -/
def sharedObject : List Label :=
  [.addChannel "" velocity, .addChannel "" velocity, .tick, .answer 0 (.decimal 5) 0]

/-- **The second channel** gets the answer that is due for the first. -/
theorem shared_object : ¬ Kept integers sharedObject := by
  intro h
  have hsampled := h.sampled (sharedObject.take 3) (.answer 0 (.decimal 5) 0) (by exact List.prefix_rfl)
  have happended := (hsampled ⟨velocity, .tick 1 1⟩ (by decide +kernel)).1
  exact absurd happended (by decide +kernel)

/-- A number that is answered in hexadecimal. -/
def hexadecimalAnswer : List Label := [.addChannel "" velocity, .tick, .answer 0 (.hexadecimal [1, 0]) 0]

/-- **A hexadecimal answer** is read as 0. -/
theorem hexadecimal_answer : ¬ Kept integers hexadecimalAnswer := by
  intro h
  have hsampled := h.sampled (hexadecimalAnswer.take 2) (.answer 0 (.hexadecimal [1, 0]) 0) (by exact List.prefix_rfl)
  have hmeets := (sampled_step integers (inv_exec integers _) _).1 hsampled
  have hfits := (hmeets ⟨velocity, .tick 1 1⟩ (by decide +kernel)).2 (by decide +kernel)
  have hzero : ofDigits 16 (hexDigits [1, 0]) = 0 := hfits
  exact absurd hzero (by decide)

end NekoEcat.L4.TraceSampling
