import Mathlib.Data.List.Flatten
import Mathlib.Data.List.Nodup
import Mathlib.Data.List.Perm.Subperm
import NekoEcat.Core.Double
import NekoEcat.Core.Trace
import NekoEcat.L2Daemon.FoE

/-!
# The ring of signal samples

A channel keeps the last samples pushed to it. A poll returns, for every channel,
what is newer than the `since` of the request; a client passes the largest
timestamp it has received. A sample is told from the ones before by its timestamp
alone, so one pushed after a poll in the millisecond of the last sample received
is taken for an old one, and without a positive `since` everything is new.

* `retained_push`: what a push adds, and that it only takes away otherwise.
* `Clean`: a poll at which the timestamps tell the new samples from the old.
* `once_each_iff`: each sample is delivered once in every state of a run iff all its
  polls are clean.
* `clean_iff_no_tie`: with growing timestamps, what a clean poll is.
-/
namespace NekoEcat.L2.SignalRing
open NekoEcat.QJson NekoEcat.Trace

variable {α : Type}

/-! ## The handler -/

/-- mirrors apps/ecatd/handlers/SignalHandler.h:11-14 -/
structure SignalSample (α : Type) where
  value : α
  timestampMs : Int
  deriving DecidableEq, Repr

/-- mirrors apps/ecatd/handlers/SignalHandler.h:16-24 -/
structure SignalChannel (α : Type) where
  id : Int
  name : String
  slave : Int
  index : String
  subIndex : String
  samples : List (SignalSample α)
  maxSamples : Nat

structure SignalHandler (α : Type) where
  channels : List (SignalChannel α) := []
  nextChannelId : Int := 1

def kMaxSamples : Nat := 10000

/-- mirrors apps/ecatd/handlers/SignalHandler.cpp:11-22 -/
def SignalHandler.subscribe (h : SignalHandler α) (name : String) (slave : Int) (index subIndex : String) :
    SignalHandler α × Int :=
  ({ channels := h.channels ++ [⟨h.nextChannelId, name, slave, index, subIndex, [], kMaxSamples⟩]
     nextChannelId := h.nextChannelId + 1 }, h.nextChannelId)

/-- mirrors apps/ecatd/handlers/SignalHandler.cpp:26-34 -/
def SignalHandler.unsubscribe (h : SignalHandler α) (channelId : Int) : SignalHandler α :=
  { h with channels := h.channels.eraseP fun ch => ch.id = channelId }

/-- `while (samples.size() > max) samples.removeFirst()` -/
def evict (max : Nat) : List (SignalSample α) → List (SignalSample α)
  | [] => []
  | s :: ss => if max < (s :: ss).length then evict max ss else s :: ss

/-- The sample appended to the first channel of the id. -/
def pushTo (channelId : Int) (sample : SignalSample α) : List (SignalChannel α) → List (SignalChannel α)
  | [] => []
  | ch :: chs =>
    if ch.id = channelId then { ch with samples := evict ch.maxSamples (ch.samples ++ [sample]) } :: chs
    else ch :: pushTo channelId sample chs

/-- mirrors apps/ecatd/handlers/SignalHandler.cpp:38-53 -/
def SignalHandler.push (h : SignalHandler α) (channelId : Int) (value : α) (timestampMs : Int) : SignalHandler α :=
  { h with channels := pushTo channelId ⟨value, timestampMs⟩ h.channels }

/-- The sample is not skipped. -/
def isNew (since : Int) (s : SignalSample α) : Bool := !(decide (0 < since) && decide (s.timestampMs ≤ since))

/-- Each channel with the samples that a poll returns of it. -/
def polled (h : SignalHandler α) (since : Int) : List (SignalChannel α × List (SignalSample α)) :=
  h.channels.map fun ch => (ch, ch.samples.filter (isNew since))

section
variable (json : α → QJsonValue) (truncated : String → Int)

def sampleObj (s : SignalSample α) : QJsonValue :=
  .object (ofList [("value", json s.value), ("ts", .int s.timestampMs)])

/-- `static_cast<int64_t>(value.toDouble(0))`; `truncated` is the cast of a number
that is no integer. -/
def sinceOf : QJsonValue → Int
  | .int n => Double.ofInt n
  | .double text => truncated text
  | _ => 0

/-- `json` is the value of a sample as JSON.
mirrors apps/ecatd/handlers/SignalHandler.cpp:57-84 -/
def SignalHandler.handlePoll (h : SignalHandler α) (id : String) (params : QJsonObject) : QJsonObject :=
  FoE.success id (ofList [("channels", .array ((polled h (sinceOf truncated (value params "since"))).map fun p =>
    .object (ofList [("id", .int p.1.id), ("name", .string p.1.name),
      ("samples", .array (p.2.map (sampleObj json)))])))])

end

/-! ## What the ring holds -/

/-- The samples of all channels. -/
def retained (h : SignalHandler α) : List (SignalSample α) := h.channels.flatMap (·.samples)

/-- The samples that a poll returns. -/
def delivered (h : SignalHandler α) (since : Int) : List (SignalSample α) := (polled h since).flatMap (·.2)

section
variable (h : SignalHandler α)

theorem delivered_eq (since : Int) : delivered h since = (retained h).filter (isNew since) := by
  simp [delivered, polled, retained, List.flatMap_map, List.filter_flatMap]

theorem retained_subscribe (name : String) (slave : Int) (index subIndex : String) :
    retained (h.subscribe name slave index subIndex).1 = retained h := by
  simp [retained, SignalHandler.subscribe]

theorem retained_unsubscribe (channelId : Int) : (retained (h.unsubscribe channelId)).Sublist (retained h) :=
  List.eraseP_sublist.flatMap _

theorem evict_sublist (max : Nat) (ss : List (SignalSample α)) : (evict max ss).Sublist ss := by
  induction ss with
  | nil => exact List.Sublist.refl []
  | cons s ss ih =>
    unfold evict
    split
    · exact ih.trans (List.sublist_cons_self s ss)
    · exact List.Sublist.refl _

/-- **A push** adds its sample and may take others away. -/
theorem retained_push (channelId : Int) (v : α) (ts : Int) :
    (retained (h.push channelId v ts)).Subperm (⟨v, ts⟩ :: retained h) := by
  unfold retained SignalHandler.push
  generalize (⟨v, ts⟩ : SignalSample α) = sample
  induction h.channels with
  | nil => exact (List.nil_sublist _).subperm
  | cons ch chs ih =>
    unfold pushTo
    split
    · generalize hrest : chs.flatMap (·.samples) = rest
      have hsub : (evict ch.maxSamples (ch.samples ++ [sample]) ++ rest).Sublist ((ch.samples ++ [sample]) ++ rest) :=
        (evict_sublist _ _).append_right _
      have hperm : ((ch.samples ++ [sample]) ++ rest).Perm (sample :: (ch.samples ++ rest)) := by
        rw [List.append_assoc]
        exact List.perm_middle
      rw [List.flatMap_cons, List.flatMap_cons, hrest]
      exact hsub.subperm.trans hperm.subperm
    · rw [List.flatMap_cons, List.flatMap_cons]
      exact ((List.Subperm.refl ch.samples).append ih).trans List.perm_middle.subperm

end

/-! ## A client that polls -/

/-- The handler and one client. A sample carries the number of its push. -/
structure Session (α : Type) where
  handler : SignalHandler (α × Nat) := {}
  /-- How many samples have been pushed. -/
  pushed : Nat := 0
  /-- How many of them at the last poll. -/
  seen : Nat := 0
  /-- The largest timestamp received. -/
  largest : Option Int := none
  /-- What has been received, by the numbers. -/
  received : List Nat := []
  /-- What was in the ring at the first poll after its push. -/
  due : List Nat := []

inductive Event (α : Type) where
  | subscribe (name : String) (slave : Int) (index subIndex : String)
  | unsubscribe (channelId : Int)
  | push (channelId : Int) (value : α) (timestampMs : Int)
  | poll

namespace Session

/-- The `since` of the next poll, as the handler reads it. -/
def since (s : Session α) : Int := (s.largest.map Double.ofInt).getD 0

def number (x : SignalSample (α × Nat)) : Nat := x.value.2

/-- The larger of the largest so far and one more. -/
def larger (largest : Option Int) (x : SignalSample (α × Nat)) : Option Int :=
  some (match largest with
    | some t => max t x.timestampMs
    | none => x.timestampMs)

def poll (s : Session α) : Session α :=
  let got := delivered s.handler s.since
  { s with
    seen := s.pushed
    largest := got.foldl larger s.largest
    received := s.received ++ got.map number
    due := s.due ++ ((retained s.handler).map number).filter (s.seen ≤ ·) }

def step (s : Session α) : Event α → Session α
  | .subscribe name slave index subIndex => { s with handler := (s.handler.subscribe name slave index subIndex).1 }
  | .unsubscribe channelId => { s with handler := s.handler.unsubscribe channelId }
  | .push channelId v ts => { s with handler := s.handler.push channelId (v, s.pushed) ts, pushed := s.pushed + 1 }
  | .poll => s.poll

/-- Each sample that a poll found in the ring has been received once. -/
def Exact (s : Session α) : Prop := ∀ n ∈ s.due, s.received.count n = 1

/-- The timestamps tell the samples pushed since the last poll from the others. -/
structure Clean (s : Session α) : Prop where
  fresh : ∀ x ∈ retained s.handler, s.seen ≤ number x → s.since ≤ 0 ∨ s.since < x.timestampMs
  old : ∀ x ∈ retained s.handler, number x < s.seen → 0 < s.since ∧ x.timestampMs ≤ s.since

/-- Every poll is clean. -/
def Guard (s : Session α) : Event α → Prop
  | .poll => s.Clean
  | _ => True

/-- What every step keeps. -/
structure Numbered (s : Session α) : Prop where
  seen : s.seen ≤ s.pushed
  distinct : ((retained s.handler).map number).Nodup
  below : ∀ x ∈ retained s.handler, number x < s.pushed
  old : ∀ x ∈ retained s.handler, number x < s.seen → number x ∈ s.due
  due : ∀ n ∈ s.due, n < s.seen
  received : ∀ n ∈ s.received, n ∈ s.due

section
variable {s : Session α}

theorem Numbered.of_sublist {h : SignalHandler (α × Nat)} (hs : Numbered s) (hsub : (retained h).Sublist (retained s.handler)) :
    Numbered { s with handler := h } where
  seen := hs.seen
  distinct := (hsub.map number).nodup hs.distinct
  below := fun x hx => hs.below x (hsub.subset hx)
  old := fun x hx => hs.old x (hsub.subset hx)
  due := hs.due
  received := hs.received

theorem numbered_push (hs : Numbered s) (channelId : Int) (v : α) (ts : Int) :
    Numbered (step s (.push channelId v ts)) := by
  have hsub := retained_push s.handler channelId (v, s.pushed) ts
  have hmem : ∀ x ∈ retained (s.handler.push channelId (v, s.pushed) ts), x = ⟨(v, s.pushed), ts⟩ ∨ x ∈ retained s.handler :=
    fun x hx => List.mem_cons.1 (hsub.subset hx)
  have hseen := hs.seen
  refine ⟨Nat.le_succ_of_le hseen, ?_, fun x hx => ?_, fun x hx hlt => ?_, hs.due, hs.received⟩
  · have hnew : s.pushed ∉ (retained s.handler).map number := by
      intro hin
      obtain ⟨x, hx, hnum⟩ := List.mem_map.1 hin
      have hlt := hs.below x hx
      omega
    obtain ⟨l, hperm, hlsub⟩ := hsub
    have hall : ((⟨(v, s.pushed), ts⟩ :: retained s.handler).map number).Nodup := List.nodup_cons.2 ⟨hnew, hs.distinct⟩
    exact ((hperm.map number).nodup_iff).1 ((hlsub.map number).nodup hall)
  · change number x < s.pushed + 1
    rcases hmem x hx with rfl | hx
    · exact Nat.lt_succ_self s.pushed
    · exact Nat.lt_succ_of_lt (hs.below x hx)
  · rcases hmem x hx with rfl | hx
    · change s.pushed < s.seen at hlt
      omega
    · exact hs.old x hx hlt

theorem mem_fresh {n : Nat} :
    n ∈ ((retained s.handler).map number).filter (s.seen ≤ ·) ↔ ∃ x ∈ retained s.handler, number x = n ∧ s.seen ≤ n := by
  rw [List.mem_filter, List.mem_map, decide_eq_true_eq, ← exists_and_right]
  simp only [and_assoc]

theorem numbered_poll (hs : Numbered s) : Numbered s.poll := by
  have hdue : ∀ x ∈ retained s.handler, number x ∈ s.poll.due := by
    intro x hx
    by_cases hlt : number x < s.seen
    · exact List.mem_append_left _ (hs.old x hx hlt)
    · exact List.mem_append_right _ (mem_fresh.2 ⟨x, hx, rfl, by omega⟩)
  refine ⟨Nat.le_refl _, hs.distinct, hs.below, fun x hx _ => hdue x hx, fun n hn => ?_, fun n hn => ?_⟩
  · change n < s.pushed
    rcases List.mem_append.1 hn with hn | hn
    · exact Nat.lt_of_lt_of_le (hs.due n hn) hs.seen
    · obtain ⟨x, hx, rfl, -⟩ := mem_fresh.1 hn
      exact hs.below x hx
  · rcases List.mem_append.1 hn with hn | hn
    · exact List.mem_append_left _ (hs.received n hn)
    · obtain ⟨x, hx, rfl⟩ := List.mem_map.1 hn
      rw [delivered_eq] at hx
      exact hdue x (List.mem_of_mem_filter hx)

theorem numbered_start : Numbered ({} : Session α) := by
  refine ⟨Nat.le_refl 0, List.nodup_nil, ?_, ?_, ?_, ?_⟩
  all_goals
    intro _ h
    cases h

theorem numbered_step (hs : Numbered s) (e : Event α) : Numbered (step s e) := by
  cases e with
  | subscribe name slave index subIndex =>
    exact hs.of_sublist (retained_subscribe s.handler name slave index subIndex ▸ List.Sublist.refl _)
  | unsubscribe channelId => exact hs.of_sublist (retained_unsubscribe s.handler channelId)
  | push channelId v ts => exact numbered_push hs channelId v ts
  | poll => exact numbered_poll hs

theorem isNew_iff {since : Int} {x : SignalSample (α × Nat)} : isNew since x = true ↔ since ≤ 0 ∨ since < x.timestampMs := by
  unfold isNew
  by_cases h0 : 0 < since <;> by_cases hts : x.timestampMs ≤ since <;> simp [h0, hts] <;> omega

/-- The numbers that a poll delivers, each once. -/
theorem count_delivered (hs : Numbered s) {x : SignalSample (α × Nat)} (hx : x ∈ retained s.handler) :
    ((delivered s.handler s.since).map number).count (number x) = if isNew s.since x then 1 else 0 := by
  have hnodup : ((delivered s.handler s.since).map number).Nodup := by
    rw [delivered_eq]
    exact (List.filter_sublist.map number).nodup hs.distinct
  rw [hnodup.count]
  have hmem : number x ∈ (delivered s.handler s.since).map number ↔ isNew s.since x = true := by
    rw [delivered_eq]
    constructor
    · intro hin
      obtain ⟨y, hy, hnum⟩ := List.mem_map.1 hin
      obtain ⟨hy, hnew⟩ := List.mem_filter.1 hy
      rw [← List.inj_on_of_nodup_map hs.distinct hy hx hnum]
      exact hnew
    · intro hnew
      exact List.mem_map_of_mem (List.mem_filter.2 ⟨hx, hnew⟩)
  simp only [hmem]

theorem fresh_not_received (hs : Numbered s) {n : Nat} (h : s.seen ≤ n) : s.received.count n = 0 := by
  refine List.count_eq_zero.2 fun hin => ?_
  have hlt := hs.due n (hs.received n hin)
  omega

/-- **One poll** leaves each sample received once iff it is clean. -/
theorem exact_poll (hs : Numbered s) (hi : Exact s) : Exact s.poll ↔ s.Clean := by
  have hcount : ∀ n, s.poll.received.count n = s.received.count n + ((delivered s.handler s.since).map number).count n :=
    fun n => List.count_append
  constructor
  · intro h
    constructor
    · intro x hx hfresh
      have hone := h (number x) (List.mem_append_right _ (mem_fresh.2 ⟨x, hx, rfl, hfresh⟩))
      rw [hcount, fresh_not_received hs hfresh, count_delivered hs hx] at hone
      refine isNew_iff.1 ?_
      by_contra hnot
      simp [hnot] at hone
    · intro x hx hlt
      have hdue := hs.old x hx hlt
      have hone := h (number x) (List.mem_append_left _ hdue)
      rw [hcount, hi _ hdue, count_delivered hs hx] at hone
      have hnot : ¬ isNew s.since x = true := by
        intro hnew
        simp [hnew] at hone
      rw [isNew_iff] at hnot
      omega
  · intro hclean n hn
    rw [hcount]
    rcases List.mem_append.1 hn with hn | hn
    · have hzero : n ∉ (delivered s.handler s.since).map number := by
        intro hin
        rw [delivered_eq] at hin
        obtain ⟨x, hx, rfl⟩ := List.mem_map.1 hin
        obtain ⟨hx, hnew⟩ := List.mem_filter.1 hx
        have hold := hclean.old x hx (hs.due _ hn)
        have hnew := isNew_iff.1 hnew
        omega
      rw [hi n hn, List.count_eq_zero.2 hzero]
    · obtain ⟨x, hx, rfl, hfresh⟩ := mem_fresh.1 hn
      rw [fresh_not_received hs hfresh, count_delivered hs hx, if_pos (isNew_iff.2 (hclean.fresh x hx hfresh))]

/-- **Every state of a run has each sample received once** iff all its polls are
clean. -/
theorem once_each_iff (es : List (Event α)) :
    (∀ pre, pre <+: es → Exact (exec step ({} : Session α) pre)) ↔ Along step Guard ({} : Session α) es := by
  refine along_iff step (J := Numbered) (fun s e hs => numbered_step hs e) (fun s e hs hi => ?_) es numbered_start
    (fun n hn => by cases hn)
  cases e with
  | poll => exact exact_poll hs hi
  | _ => exact iff_of_true hi trivial

end

/-! ## Growing timestamps -/

/-- The timestamps pushed are at least `last`, do not decrease, and fit a double. -/
def Growing : Int → List (Event α) → Prop
  | _, [] => True
  | last, .push _ _ ts :: es => last ≤ ts ∧ ts < 2 ^ 53 ∧ Growing ts es
  | last, _ :: es => Growing last es

/-- Where the timestamps are, when the last one pushed was `last`. -/
structure Timed (last : Int) (s : Session α) : Prop where
  range : 1 ≤ last ∧ last < 2 ^ 53
  kept : ∀ x ∈ retained s.handler, 1 ≤ x.timestampMs ∧ x.timestampMs ≤ last
  largest : ∀ t, s.largest = some t → 1 ≤ t ∧ t ≤ last
  old : ∀ x ∈ retained s.handler, number x < s.seen → ∃ t, s.largest = some t ∧ x.timestampMs ≤ t
  fresh : ∀ x ∈ retained s.handler, s.seen ≤ number x → ∀ t, s.largest = some t → t ≤ x.timestampMs

theorem foldl_larger (got : List (SignalSample (α × Nat))) (largest : Option Int) :
    (∀ t, largest = some t → ∃ t', got.foldl larger largest = some t' ∧ t ≤ t') ∧
    (∀ x ∈ got, ∃ t', got.foldl larger largest = some t' ∧ x.timestampMs ≤ t') ∧
    ∀ t', got.foldl larger largest = some t' → largest = some t' ∨ ∃ x ∈ got, t' = x.timestampMs := by
  induction got generalizing largest with
  | nil => exact ⟨fun t ht => ⟨t, ht, Int.le_refl t⟩, fun x hx => absurd hx List.not_mem_nil, fun t' ht' => Or.inl ht'⟩
  | cons x got ih =>
    obtain ⟨hstart, hgot, hfrom⟩ := ih (larger largest x)
    rw [List.foldl_cons]
    have hx : ∃ t, larger largest x = some t ∧ x.timestampMs ≤ t ∧ (∀ t₀, largest = some t₀ → t₀ ≤ t) ∧
        (largest = some t ∨ t = x.timestampMs) := by
      cases largest with
      | none => exact ⟨x.timestampMs, rfl, Int.le_refl _, fun t₀ h => (by cases h), Or.inr rfl⟩
      | some t₀ =>
        refine ⟨max t₀ x.timestampMs, rfl, Int.le_max_right .., fun t h => ?_, ?_⟩
        · cases h
          exact Int.le_max_left ..
        · by_cases hle : t₀ ≤ x.timestampMs
          · exact Or.inr (by omega)
          · exact Or.inl (congrArg some (by omega))
    obtain ⟨t, ht, hle, hmax, hsrc⟩ := hx
    obtain ⟨t', ht', hle'⟩ := hstart t ht
    refine ⟨fun t₀ h => ⟨t', ht', Int.le_trans (hmax t₀ h) hle'⟩, fun y hy => ?_, fun r hr => ?_⟩
    · rcases List.mem_cons.1 hy with rfl | hy
      · exact ⟨t', ht', Int.le_trans hle hle'⟩
      · exact hgot y hy
    · rcases hfrom r hr with h | ⟨y, hy, h⟩
      · rw [ht] at h
        cases h
        exact hsrc.imp_right fun h => ⟨x, List.mem_cons_self, h⟩
      · exact Or.inr ⟨y, List.mem_cons_of_mem x hy, h⟩

section
variable {s : Session α} {last : Int}

theorem Timed.since_eq (ht : Timed last s) : s.since = s.largest.getD 0 := by
  unfold since
  cases hl : s.largest with
  | none => rfl
  | some t =>
    have hbound := ht.largest t hl
    have hrange := ht.range
    exact Double.ofInt_of_lt (by omega)

theorem Timed.of_sublist {h : SignalHandler (α × Nat)} (ht : Timed last s)
    (hsub : (retained h).Sublist (retained s.handler)) : Timed last { s with handler := h } where
  range := ht.range
  kept := fun x hx => ht.kept x (hsub.subset hx)
  largest := ht.largest
  old := fun x hx => ht.old x (hsub.subset hx)
  fresh := fun x hx => ht.fresh x (hsub.subset hx)

theorem timed_push (hs : Numbered s) (ht : Timed last s) (channelId : Int) (v : α) {ts : Int} (hle : last ≤ ts)
    (hlt : ts < 2 ^ 53) : Timed ts (step s (.push channelId v ts)) := by
  have hmem : ∀ x ∈ retained (s.handler.push channelId (v, s.pushed) ts), x = ⟨(v, s.pushed), ts⟩ ∨ x ∈ retained s.handler :=
    fun x hx => List.mem_cons.1 ((retained_push s.handler channelId (v, s.pushed) ts).subset hx)
  have hrange := ht.range
  have hseen := hs.seen
  refine ⟨by omega, fun x hx => ?_, fun t hl => ?_, fun x hx hold => ?_, fun x hx hfresh t hl => ?_⟩
  · rcases hmem x hx with rfl | hx
    · exact ⟨Int.le_trans hrange.1 hle, Int.le_refl ts⟩
    · have hkept := ht.kept x hx
      omega
  · have hbound := ht.largest t hl
    omega
  · rcases hmem x hx with rfl | hx
    · change s.pushed < s.seen at hold
      omega
    · exact ht.old x hx hold
  · rcases hmem x hx with rfl | hx
    · exact Int.le_trans (ht.largest t hl).2 hle
    · exact ht.fresh x hx hfresh t hl

theorem timed_poll (hs : Numbered s) (ht : Timed last s) : Timed last s.poll := by
  obtain ⟨hstart, hgot, hfrom⟩ := foldl_larger (delivered s.handler s.since) s.largest
  refine ⟨ht.range, ht.kept, fun t hl => ?_, fun x hx _ => ?_, fun x hx hfresh => ?_⟩
  · rcases hfrom t hl with h | ⟨x, hx, rfl⟩
    · exact ht.largest t h
    · rw [delivered_eq] at hx
      exact ht.kept x (List.mem_of_mem_filter hx)
  · by_cases hnew : isNew s.since x = true
    · have hgiven : x ∈ delivered s.handler s.since := by
        rw [delivered_eq]
        exact List.mem_filter.2 ⟨hx, hnew⟩
      exact hgot x hgiven
    · rw [isNew_iff, ht.since_eq] at hnew
      cases hl : s.largest with
      | none => simp [hl] at hnew
      | some t =>
        obtain ⟨t', ht', hle⟩ := hstart t hl
        rw [hl, Option.getD_some] at hnew
        exact ⟨t', ht', by omega⟩
  · have hbelow := hs.below x hx
    change s.pushed ≤ number x at hfresh
    omega

theorem timed_exec {es : List (Event α)} (hs : Numbered s) (ht : Timed last s) (hg : Growing last es) :
    ∃ last', Timed last' (exec step s es) := by
  induction es generalizing s last with
  | nil => exact ⟨last, ht⟩
  | cons e es ih =>
    have hs' := numbered_step hs e
    cases e with
    | subscribe name slave index subIndex =>
      exact ih hs' (ht.of_sublist (retained_subscribe s.handler name slave index subIndex ▸ List.Sublist.refl _)) hg
    | unsubscribe channelId => exact ih hs' (ht.of_sublist (retained_unsubscribe s.handler channelId)) hg
    | push channelId v ts => exact ih hs' (timed_push hs ht channelId v hg.1 hg.2.1) hg.2.2
    | poll => exact ih hs' (timed_poll hs ht) hg

/-- **With growing timestamps** a poll is clean iff no sample pushed since the last
one shares the largest timestamp received. -/
theorem clean_iff_no_tie {es : List (Event α)} (hs : s = exec step ({} : Session α) es) (hg : Growing 1 es) :
    s.Clean ↔ ∀ x ∈ retained s.handler, s.seen ≤ number x → s.largest ≠ some x.timestampMs := by
  have htimed : Timed 1 ({} : Session α) := by
    refine ⟨by omega, ?_, ?_, ?_, ?_⟩
    all_goals
      intro _ h
      cases h
  obtain ⟨last, ht⟩ := timed_exec numbered_start htimed hg
  rw [← hs] at ht
  have hsince := ht.since_eq
  constructor
  · intro hclean x hx hfresh hl
    have hbound := ht.largest _ hl
    rw [hl, Option.getD_some] at hsince
    have hnew := hclean.fresh x hx hfresh
    omega
  · intro htie
    refine ⟨fun x hx hfresh => ?_, fun x hx hold => ?_⟩
    · cases hl : s.largest with
      | none =>
        rw [hl, Option.getD_none] at hsince
        exact Or.inl (by omega)
      | some t =>
        have hle := ht.fresh x hx hfresh t hl
        have hne : t ≠ x.timestampMs := fun h => htie x hx hfresh (h ▸ hl)
        rw [hl, Option.getD_some] at hsince
        exact Or.inr (by omega)
    · obtain ⟨t, hl, hle⟩ := ht.old x hx hold
      have hbound := ht.largest t hl
      rw [hl, Option.getD_some] at hsince
      omega

end

/-- Two samples of one millisecond, a poll between them and one behind. -/
theorem same_millisecond :
    ¬ ∀ es : List (Event Unit), Growing 1 es → Exact (exec step ({} : Session Unit) es) := by
  intro h
  have hlost := h [.subscribe "" 0 "" "", .push 1 () 5, .poll, .push 1 () 5, .poll]
    ⟨by omega, by omega, by omega, by omega, trivial⟩
  exact absurd (hlost 1 (by decide)) (by decide)

end Session

end NekoEcat.L2.SignalRing
