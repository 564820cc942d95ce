import Mathlib.Algebra.BigOperators.Group.List.Basic
import Mathlib.Algebra.Order.Field.Rat
import Mathlib.Data.List.Induction
import Mathlib.Data.List.Nodup
import NekoEcat.Core.Newest
import NekoEcat.Core.Trace

/-!
# Signal channels and their statistics

`pushData` appends samples to a channel and drops the oldest ones that are too
many. `stats` walks through the channels to the one that is asked for, but leaves
the walk at the first channel whatever it is.

Doubles are a parameter: what is compared and computed with them is known where
they are numbers and the result is a double.

* `exec_channels`: the channels are those of a service that drops nothing, without
  the samples that are too many.
* `aligned_iff`: there are as many timestamps as values in all states exactly if
  this holds of all that is pushed.
* `channel_stats_iff`: these together, and when `stats` is exact.
-/
namespace NekoEcat.L4.Signals
open NekoEcat.Newest NekoEcat.Trace

/-- The arithmetic of `double`. -/
structure Doubles where
  Double : Type
  lt : Double → Double → Bool
  add : Double → Double → Double
  sub : Double → Double → Double
  mul : Double → Double → Double
  div : Double → Double → Double
  sqrt : Double → Double
  ofInt : Nat → Double
  zero : Double
  /-- `none`: infinite, or not a number. -/
  value : Double → Option ℚ
  value_zero : value zero = some 0
  lt_iff : ∀ {a b x y}, value a = some x → value b = some y → (lt a b = true ↔ x < y)
  /-- A result that is a double is not rounded. -/
  value_add : ∀ {a b c x y}, value a = some x → value b = some y → value c = some (x + y) →
    value (add a b) = some (x + y)
  value_div : ∀ {a b c x y}, value a = some x → value b = some y → y ≠ 0 → value c = some (x / y) →
    value (div a b) = some (x / y)
  value_ofInt : ∀ {n}, n < 2 ^ 53 → value (ofInt n) = some (n : ℚ)

variable {A : Doubles}

/-! ## The code -/

/-- `SignalChannelInfo::kMaxPoints` -/
def kMaxPoints : Nat := 10000

/-- mirrors apps/ecat-studio/services/SignalService.h:42-51 -/
structure SignalChannelInfo (A : Doubles) where
  id : Nat
  name : String
  slave : Int
  index : String
  subIndex : String
  values : List A.Double
  timestamps : List Int

structure ChannelStats (A : Doubles) where
  min : A.Double
  max : A.Double
  avg : A.Double
  stddev : A.Double

/-- Fewer than `2 ^ 31` channels are ever added. -/
structure SignalService (A : Doubles) where
  channels : List (SignalChannelInfo A)
  nextId : Nat

def SignalService.init (A : Doubles) : SignalService A := ⟨[], 1⟩

/-- The calls that change the service. -/
inductive Call (A : Doubles) where
  | addChannel (name : String) (slave : Int) (idx sub : String)
  | removeChannel (channelId : Nat)
  | pushData (channelId : Nat) (values : List A.Double) (timestamps : List Int)

/-- mirrors apps/ecat-studio/services/SignalService.cpp:22-34 -/
def addChannel (s : SignalService A) (name : String) (slave : Int) (idx sub : String) : SignalService A :=
  ⟨s.channels ++ [⟨s.nextId, name, slave, idx, sub, [], []⟩], s.nextId + 1⟩

/-- mirrors apps/ecat-studio/services/SignalService.cpp:36-44 -/
def removeChannel (channelId : Nat) : List (SignalChannelInfo A) → List (SignalChannelInfo A)
  | [] => []
  | ch :: chs => if ch.id = channelId then chs else ch :: removeChannel channelId chs

/-- mirrors apps/ecat-studio/services/SignalService.cpp:104-107 -/
def trim : List A.Double → List Int → List A.Double × List Int
  | [], timestamps => ([], timestamps)
  | v :: values, timestamps =>
    if (v :: values).length > kMaxPoints then trim values timestamps.tail else (v :: values, timestamps)

def SignalChannelInfo.trimmed (ch : SignalChannelInfo A) : SignalChannelInfo A :=
  { ch with values := (trim ch.values ch.timestamps).1, timestamps := (trim ch.values ch.timestamps).2 }

def SignalChannelInfo.append (ch : SignalChannelInfo A) (values : List A.Double) (timestamps : List Int) :
    SignalChannelInfo A :=
  { ch with values := ch.values ++ values, timestamps := ch.timestamps ++ timestamps }

/-- The samples go to the first channel with the id; `drop` is what is done to it then.
mirrors apps/ecat-studio/services/SignalService.cpp:98-112 -/
def pushData (drop : SignalChannelInfo A → SignalChannelInfo A) (channelId : Nat) (values : List A.Double)
    (timestamps : List Int) : List (SignalChannelInfo A) → List (SignalChannelInfo A)
  | [] => []
  | ch :: chs =>
    if ch.id = channelId then drop (ch.append values timestamps) :: chs
    else ch :: pushData drop channelId values timestamps chs

def stepWith (drop : SignalChannelInfo A → SignalChannelInfo A) (s : SignalService A) : Call A → SignalService A
  | .addChannel name slave idx sub => addChannel s name slave idx sub
  | .removeChannel channelId => { s with channels := removeChannel channelId s.channels }
  | .pushData channelId values timestamps =>
    { s with channels := pushData drop channelId values timestamps s.channels }

def step : SignalService A → Call A → SignalService A := stepWith SignalChannelInfo.trimmed

/-- A service that keeps all samples. -/
def stepKeeping : SignalService A → Call A → SignalService A := stepWith id

/-- The statistics of some values, the first of which is there.
mirrors apps/ecat-studio/services/SignalService.cpp:58-79 -/
def statsOf (first : A.Double) (values : List A.Double) : ChannelStats A :=
  let lo := values.foldl (fun lo v => if A.lt v lo = true then v else lo) first
  let hi := values.foldl (fun hi v => if A.lt hi v = true then v else hi) first
  let sum := values.foldl A.add A.zero
  let n := A.ofInt values.length
  let avg := A.div sum n
  let variance := values.foldl (fun variance v => A.add variance (A.mul (A.sub v avg) (A.sub v avg))) A.zero
  ⟨lo, hi, avg, A.sqrt (A.div variance n)⟩

def noStats (A : Doubles) : ChannelStats A := ⟨A.zero, A.zero, A.zero, A.zero⟩

/-- Each way through the loop leaves it.
mirrors apps/ecat-studio/services/SignalService.cpp:52-83 -/
def stats (s : SignalService A) (channelId : Nat) : ChannelStats A :=
  match s.channels with
  | [] => noStats A
  | ch :: _ =>
    if ch.id ≠ channelId then noStats A
    else
      match ch.values with
      | [] => noStats A
      | first :: _ => statsOf first ch.values

/-! ## Exact statistics -/

/-- The values are these numbers. -/
def Numbers (values : List A.Double) (xs : List ℚ) : Prop := List.Forall₂ (fun v x => A.value v = some x) values xs

def IsDouble (A : Doubles) (x : ℚ) : Prop := ∃ d, A.value d = some x

/-- The sums of the first numbers, and the mean, are doubles. -/
structure Summable (A : Doubles) (xs : List ℚ) : Prop where
  sums : ∀ k ≤ xs.length, IsDouble A (xs.take k).sum
  mean : IsDouble A (xs.sum / xs.length)

/-- Minimum, maximum and mean are those of the numbers. -/
structure Exact (s : ChannelStats A) (xs : List ℚ) : Prop where
  min : A.value s.min = xs.min?
  max : A.value s.max = xs.max?
  avg : A.value s.avg = some (xs.sum / xs.length)

/-- A loop that picks values picks numbers. -/
theorem value_foldl {pick : A.Double → A.Double → A.Double} {op : ℚ → ℚ → ℚ}
    (hpick : ∀ {a b x y}, A.value a = some x → A.value b = some y → A.value (pick a b) = some (op x y))
    {values : List A.Double} {xs : List ℚ} (h : Numbers values xs) {a : A.Double} {x : ℚ} (ha : A.value a = some x) :
    A.value (values.foldl pick a) = some (xs.foldl op x) := by
  induction h generalizing a x with
  | nil => exact ha
  | cons hv _ ih => exact ih (hpick ha hv)

theorem value_lower {a b : A.Double} {x y : ℚ} (ha : A.value a = some x) (hb : A.value b = some y) :
    A.value (if A.lt b a = true then b else a) = some (min x y) := by
  by_cases h : y < x
  · rw [if_pos ((A.lt_iff hb ha).2 h), min_eq_right h.le, hb]
  · rw [if_neg (mt (A.lt_iff hb ha).1 h), min_eq_left (not_lt.1 h), ha]

theorem value_higher {a b : A.Double} {x y : ℚ} (ha : A.value a = some x) (hb : A.value b = some y) :
    A.value (if A.lt a b = true then b else a) = some (max x y) := by
  by_cases h : x < y
  · rw [if_pos ((A.lt_iff ha hb).2 h), max_eq_right h.le, hb]
  · rw [if_neg (mt (A.lt_iff ha hb).1 h), max_eq_left (not_lt.1 h), ha]

/-- **The sum is exact** if the sums before it are. -/
theorem value_sum {values : List A.Double} {xs : List ℚ} (h : Numbers values xs) {a : A.Double} {x : ℚ}
    (ha : A.value a = some x) (hsums : ∀ k ≤ xs.length, IsDouble A (x + (xs.take k).sum)) :
    A.value (values.foldl A.add a) = some (x + xs.sum) := by
  induction h generalizing a x with
  | nil => rw [List.sum_nil, add_zero]; exact ha
  | @cons v y values ys hv _ ih =>
    obtain ⟨c, hc⟩ := hsums 1 (by simp)
    rw [List.take_one, List.head?_cons, Option.toList_some, List.sum_singleton] at hc
    rw [List.foldl_cons, List.sum_cons, ← add_assoc]
    refine ih (A.value_add ha hv hc) fun k hk => ?_
    have hnext := hsums (k + 1) (by simpa using hk)
    rwa [List.take_succ_cons, List.sum_cons, ← add_assoc] at hnext

theorem Numbers.length_eq {values : List A.Double} {xs : List ℚ} (h : Numbers values xs) : values.length = xs.length :=
  List.Forall₂.length_eq h

/-- **The statistics of some values** are exact where the sums are. -/
theorem exact_statsOf {first : A.Double} {values : List A.Double} {xs : List ℚ} (h : Numbers (first :: values) xs)
    (hsum : Summable A xs) (hlength : xs.length < 2 ^ 53) : Exact (statsOf first (first :: values)) xs := by
  obtain ⟨x, ys, hx, hys, rfl⟩ : ∃ x ys, A.value first = some x ∧ Numbers values ys ∧ xs = x :: ys := by
    cases h with
    | cons hx hys => exact ⟨_, _, hx, hys, rfl⟩
  have hlo : A.value (statsOf first (first :: values)).min = some ((x :: ys).foldl min x) :=
    value_foldl value_lower h hx
  have hhi : A.value (statsOf first (first :: values)).max = some ((x :: ys).foldl max x) :=
    value_foldl value_higher h hx
  have hsums : ∀ k ≤ (x :: ys).length, IsDouble A (0 + ((x :: ys).take k).sum) := by
    simpa only [zero_add] using hsum.sums
  have hall := value_sum h A.value_zero hsums
  rw [zero_add] at hall
  obtain ⟨c, hc⟩ := hsum.mean
  have hne : ((x :: ys).length : ℚ) ≠ 0 := Nat.cast_ne_zero.2 (Nat.succ_ne_zero _)
  constructor
  · rw [hlo, List.foldl_cons, min_self, List.min?_cons']
  · rw [hhi, List.foldl_cons, max_self, List.max?_cons']
  · change A.value (A.div _ (A.ofInt (first :: values).length)) = _
    rw [h.length_eq]
    exact A.value_div hall (A.value_ofInt hlength) hne hc

/-! ## What is kept -/

theorem trim_eq (values : List A.Double) (timestamps : List Int) :
    trim values timestamps = (values.rtake kMaxPoints, timestamps.drop (values.length - kMaxPoints)) := by
  induction values generalizing timestamps with
  | nil => simp [trim]
  | cons v values ih =>
    rw [trim]
    by_cases h : (v :: values).length > kMaxPoints
    · have hpos : (v :: values).length - kMaxPoints = values.length - kMaxPoints + 1 := by
        rw [List.length_cons] at h ⊢
        omega
      rw [if_pos h, ih, List.rtake, List.rtake, hpos, List.drop_succ_cons, ← List.drop_one, List.drop_drop,
        Nat.add_comm 1]
    · have hzero : (v :: values).length - kMaxPoints = 0 := Nat.sub_eq_zero_of_le (not_lt.1 h)
      rw [if_neg h, List.rtake, hzero, List.drop_zero, List.drop_zero]

/-- As many timestamps as values. -/
def SignalChannelInfo.Aligned (ch : SignalChannelInfo A) : Prop := ch.values.length = ch.timestamps.length

def Aligned (s : SignalService A) : Prop := ∀ ch ∈ s.channels, ch.Aligned

/-- A channel without the samples that are too many. -/
def SignalChannelInfo.newest (ch : SignalChannelInfo A) : SignalChannelInfo A :=
  { ch with values := ch.values.rtake kMaxPoints, timestamps := ch.timestamps.rtake kMaxPoints }

@[simp] theorem newest_id (ch : SignalChannelInfo A) : ch.newest.id = ch.id := by
  rw [SignalChannelInfo.newest]

theorem trim_aligned {values : List A.Double} {timestamps : List Int} (h : values.length = timestamps.length) :
    trim values timestamps = (values.rtake kMaxPoints, timestamps.rtake kMaxPoints) := by
  rw [trim_eq, h, ← List.rtake]

theorem trimmed_append {ch : SignalChannelInfo A} (hch : ch.Aligned) {values : List A.Double} {timestamps : List Int}
    (h : values.length = timestamps.length) :
    (ch.newest.append values timestamps).trimmed = (ch.append values timestamps).newest := by
  have hlength : (ch.values.rtake kMaxPoints ++ values).length =
      (ch.timestamps.rtake kMaxPoints ++ timestamps).length := by
    unfold SignalChannelInfo.Aligned at hch
    simp only [List.rtake, List.length_append, List.length_drop, hch, h]
  unfold SignalChannelInfo.trimmed SignalChannelInfo.append SignalChannelInfo.newest
  dsimp only
  rw [trim_aligned hlength, rtake_append_rtake, rtake_append_rtake]

/-- Samples of one channel come with as many timestamps as values. -/
def Matched (s : SignalService A) : Call A → Prop
  | .pushData channelId values timestamps =>
    (∃ ch ∈ s.channels, ch.id = channelId) → values.length = timestamps.length
  | _ => True

/-- The service, beside one that keeps all samples. -/
structure Keeps (s full : SignalService A) : Prop where
  channels : s.channels = full.channels.map SignalChannelInfo.newest
  nextId : s.nextId = full.nextId
  aligned : Aligned full

theorem removeChannel_newest (channelId : Nat) (chs : List (SignalChannelInfo A)) :
    removeChannel channelId (chs.map SignalChannelInfo.newest) =
      (removeChannel channelId chs).map SignalChannelInfo.newest := by
  induction chs with
  | nil => rfl
  | cons ch chs ih =>
    rw [List.map_cons, removeChannel, removeChannel, newest_id, ih]
    by_cases h : ch.id = channelId
    · rw [if_pos h, if_pos h]
    · rw [if_neg h, if_neg h, List.map_cons]

theorem removeChannel_sublist (channelId : Nat) (chs : List (SignalChannelInfo A)) :
    (removeChannel channelId chs).Sublist chs := by
  induction chs with
  | nil => exact List.Sublist.refl _
  | cons ch chs ih =>
    rw [removeChannel]
    split
    · exact List.sublist_cons_self ..
    · exact ih.cons_cons ch

theorem pushData_newest {channelId : Nat} {values : List A.Double} {timestamps : List Int}
    {chs : List (SignalChannelInfo A)} (hchs : ∀ ch ∈ chs, ch.Aligned)
    (h : (∃ ch ∈ chs, ch.id = channelId) → values.length = timestamps.length) :
    pushData SignalChannelInfo.trimmed channelId values timestamps (chs.map SignalChannelInfo.newest) =
      (pushData id channelId values timestamps chs).map SignalChannelInfo.newest := by
  induction chs with
  | nil => rfl
  | cons ch chs ih =>
    have hrest := ih (fun c hc => hchs c (List.mem_cons_of_mem _ hc))
      fun ⟨c, hc, hid⟩ => h ⟨c, List.mem_cons_of_mem _ hc, hid⟩
    rw [List.map_cons, pushData, pushData, newest_id, hrest]
    by_cases hid : ch.id = channelId
    · rw [if_pos hid, if_pos hid, List.map_cons,
        trimmed_append (hchs ch List.mem_cons_self) (h ⟨ch, List.mem_cons_self, hid⟩), id]
    · rw [if_neg hid, if_neg hid, List.map_cons]

/-- Samples are appended to the channels. -/
theorem forall_pushData {P : SignalChannelInfo A → Prop} {drop : SignalChannelInfo A → SignalChannelInfo A}
    {channelId : Nat} {values : List A.Double} {timestamps : List Int} {chs : List (SignalChannelInfo A)}
    (hchs : ∀ ch ∈ chs, P ch) :
    (∀ ch ∈ pushData drop channelId values timestamps chs, P ch) ↔
      ∀ ch, (chs.find? (·.id = channelId)) = some ch → P (drop (ch.append values timestamps)) := by
  induction chs with
  | nil => simp [pushData]
  | cons ch chs ih =>
    obtain ⟨hch, hchs⟩ := List.forall_mem_cons.1 hchs
    rw [pushData, List.find?_cons]
    by_cases hid : ch.id = channelId
    · rw [if_pos hid, List.forall_mem_cons]
      simp only [hid, decide_true, Option.some.injEq, forall_eq', and_iff_left hchs]
    · rw [if_neg hid, List.forall_mem_cons, ih hchs]
      simp only [hid, decide_false, and_iff_right hch]

theorem keeps_step {s full : SignalService A} (h : Keeps s full) {call : Call A} (hcall : Matched s call) :
    Keeps (step s call) (stepKeeping full call) := by
  cases call with
  | addChannel name slave idx sub =>
    refine ⟨?_, congrArg (· + 1) h.nextId, fun ch hch => ?_⟩
    · change s.channels ++ [_] = (full.channels ++ [_]).map _
      rw [List.map_append, ← h.channels, h.nextId, List.map_singleton, SignalChannelInfo.newest, List.rtake_nil,
        List.rtake_nil]
    · rcases List.mem_append.1 hch with hch | hch
      · exact h.aligned ch hch
      · rw [List.mem_singleton.1 hch]
        rfl
  | removeChannel channelId =>
    refine ⟨?_, h.nextId, fun ch hch => h.aligned ch ((removeChannel_sublist _ _).mem hch)⟩
    change removeChannel channelId s.channels = (removeChannel channelId full.channels).map _
    rw [h.channels, removeChannel_newest]
  | pushData channelId values timestamps =>
    have hmatched : (∃ ch ∈ full.channels, ch.id = channelId) → values.length = timestamps.length := by
      rintro ⟨ch, hch, hid⟩
      refine hcall ⟨ch.newest, ?_, by rw [newest_id, hid]⟩
      rw [h.channels]
      exact List.mem_map_of_mem hch
    refine ⟨?_, h.nextId, (forall_pushData h.aligned).2 fun ch hch => ?_⟩
    · change pushData _ channelId values timestamps s.channels = _
      rw [h.channels]
      exact pushData_newest h.aligned hmatched
    · have hid : ch.id = channelId := by simpa using List.find?_some hch
      have hmem := List.mem_of_find?_eq_some hch
      have halign : ch.values.length = ch.timestamps.length := h.aligned ch hmem
      change (ch.values ++ values).length = (ch.timestamps ++ timestamps).length
      rw [List.length_append, List.length_append, halign, hmatched ⟨ch, hmem, hid⟩]

/-- **The channels** are those of a service that drops nothing, without the samples
that are too many. -/
theorem exec_channels {calls : List (Call A)} (h : Along step Matched (SignalService.init A) calls) :
    (exec step (SignalService.init A) calls).channels =
      (exec stepKeeping (SignalService.init A) calls).channels.map SignalChannelInfo.newest := by
  have hrun : ∀ calls (s full : SignalService A), Keeps s full → Along step Matched s calls →
      Keeps (exec step s calls) (exec stepKeeping full calls) := by
    intro calls
    induction calls with
    | nil => exact fun _ _ hkeeps _ => hkeeps
    | cons call calls ih => exact fun s full hkeeps hall => ih _ _ (keeps_step hkeeps hall.1) hall.2
  exact (hrun calls _ _ ⟨rfl, rfl, fun _ hch => absurd hch List.not_mem_nil⟩ h).channels

theorem length_trimmed (ch : SignalChannelInfo A) : ch.trimmed.values.length ≤ kMaxPoints := by
  have hvalues : ch.trimmed.values = ch.values.rtake kMaxPoints := by
    rw [SignalChannelInfo.trimmed, trim_eq]
  rw [hvalues]
  apply length_rtake_le

/-! ## Reachable states -/

theorem ids_pushData {drop : SignalChannelInfo A → SignalChannelInfo A} (hdrop : ∀ ch, (drop ch).id = ch.id)
    (channelId : Nat) (values : List A.Double) (timestamps : List Int) (chs : List (SignalChannelInfo A)) :
    (pushData drop channelId values timestamps chs).map (·.id) = chs.map (·.id) := by
  induction chs with
  | nil => rfl
  | cons ch chs ih =>
    rw [pushData]
    split
    · rw [List.map_cons, hdrop]
      rfl
    · rw [List.map_cons, ih, List.map_cons]

/-- No id is given twice, and no channel is too long. -/
structure Sound (s : SignalService A) : Prop where
  distinct : (s.channels.map (·.id)).Nodup
  fresh : ∀ channelId ∈ s.channels.map (·.id), channelId < s.nextId
  bounded : ∀ ch ∈ s.channels, ch.values.length ≤ kMaxPoints

theorem sound_step {s : SignalService A} (h : Sound s) (call : Call A) : Sound (step s call) := by
  cases call with
  | addChannel name slave idx sub =>
    have hids : (step s (.addChannel name slave idx sub)).channels.map (·.id) = s.channels.map (·.id) ++ [s.nextId] :=
      List.map_append
    constructor
    · rw [hids]
      exact List.nodup_append.2 ⟨h.distinct, List.nodup_singleton _, fun channelId hmem channelId' hmem' heq =>
        absurd (h.fresh channelId hmem) (by rw [heq, List.mem_singleton.1 hmem']; exact lt_irrefl _)⟩
    · rw [hids]
      intro channelId hmem
      rcases List.mem_append.1 hmem with hmem | hmem
      · exact Nat.lt_succ_of_lt (h.fresh channelId hmem)
      · rw [List.mem_singleton.1 hmem]
        exact Nat.lt_succ_self _
    · intro ch hch
      rcases List.mem_append.1 hch with hch | hch
      · exact h.bounded ch hch
      · rw [List.mem_singleton.1 hch]
        exact Nat.zero_le _
  | removeChannel channelId =>
    have hsub := removeChannel_sublist channelId s.channels
    exact ⟨h.distinct.sublist (hsub.map _), fun i hi => h.fresh i ((hsub.map _).mem hi),
      fun ch hch => h.bounded ch (hsub.mem hch)⟩
  | pushData channelId values timestamps =>
    have hids : (step s (.pushData channelId values timestamps)).channels.map (·.id) = s.channels.map (·.id) :=
      @ids_pushData A SignalChannelInfo.trimmed (fun _ => rfl) channelId values timestamps s.channels
    refine ⟨by rw [hids]; exact h.distinct, by rw [hids]; exact h.fresh, ?_⟩
    exact (forall_pushData h.bounded).2 fun ch _ => length_trimmed _

theorem sound_exec (calls : List (Call A)) : Sound (exec step (SignalService.init A) calls) := by
  have h0 : Sound (SignalService.init A) :=
    ⟨List.nodup_nil, fun _ h => absurd h List.not_mem_nil, fun _ h => absurd h List.not_mem_nil⟩
  induction calls using List.reverseRecOn with
  | nil => exact h0
  | append_singleton calls call ih =>
    rw [exec, List.foldl_append]
    exact sound_step ih call

theorem aligned_trimmed_iff {ch : SignalChannelInfo A} (hch : ch.Aligned) {values : List A.Double}
    {timestamps : List Int} :
    (ch.append values timestamps).trimmed.Aligned ↔ values.length = timestamps.length := by
  unfold SignalChannelInfo.Aligned at hch
  change (trim _ _).1.length = (trim _ _).2.length ↔ _
  have hpos : 0 < kMaxPoints := by decide
  rw [trim_eq, List.rtake, List.length_drop, List.length_drop]
  simp only [SignalChannelInfo.append, List.length_append, hch]
  omega

/-- **As many timestamps as values**, exactly if that holds of all that is pushed. -/
theorem aligned_iff (calls : List (Call A)) :
    (∀ pre, pre <+: calls → Aligned (exec step (SignalService.init A) pre)) ↔
      Along step Matched (SignalService.init A) calls := by
  refine along_iff step (J := fun _ => True) (fun _ _ _ => trivial) (fun s call _ h => ?_) calls trivial
    fun _ hch => absurd hch List.not_mem_nil
  cases call with
  | addChannel name slave idx sub =>
    refine iff_of_true (fun ch hch => ?_) trivial
    rcases List.mem_append.1 hch with hch | hch
    · exact h ch hch
    · rw [List.mem_singleton.1 hch]
      rfl
  | removeChannel channelId =>
    exact iff_of_true (fun ch hch => h ch ((removeChannel_sublist _ _).mem hch)) trivial
  | pushData channelId values timestamps =>
    refine (forall_pushData h).trans ⟨fun hfound => ?_, fun hmatched ch hch => ?_⟩
    · rintro ⟨ch, hch, hid⟩
      obtain ⟨ch', hch'⟩ : ∃ ch', s.channels.find? (·.id = channelId) = some ch' :=
        Option.isSome_iff_exists.1 (List.find?_isSome.2 ⟨ch, hch, decide_eq_true hid⟩)
      exact (aligned_trimmed_iff (h ch' (List.mem_of_find?_eq_some hch'))).1 (hfound ch' hch')
    · have hmem := List.mem_of_find?_eq_some hch
      exact (aligned_trimmed_iff (h ch hmem)).2 (hmatched ⟨ch, hmem, by simpa using List.find?_some hch⟩)

/-! ## When the statistics are exact -/

theorem exact_noStats_iff {xs : List ℚ} (hxs : xs ≠ []) : Exact (noStats A) xs ↔ ∀ x ∈ xs, x = 0 := by
  have hzero : ∀ {P : Option ℚ}, A.value (noStats A).min = P ↔ some 0 = P := by
    intro P
    rw [show A.value (noStats A).min = some 0 from A.value_zero]
  constructor
  · intro h x hx
    have hmin := List.min?_eq_some_iff.1 (hzero.1 h.min).symm
    have hmax := List.max?_eq_some_iff.1 (hzero.1 h.max).symm
    exact le_antisymm (hmax.2 x hx) (hmin.2 x hx)
  · intro h
    obtain ⟨y, hy⟩ := List.exists_mem_of_ne_nil xs hxs
    have hmem : (0 : ℚ) ∈ xs := h y hy ▸ hy
    constructor
    · exact hzero.2 (List.min?_eq_some_iff.2 ⟨hmem, fun x hx => (h x hx).ge⟩).symm
    · exact hzero.2 (List.max?_eq_some_iff.2 ⟨hmem, fun x hx => (h x hx).le⟩).symm
    · have hsum : xs.sum = 0 := List.sum_eq_zero h
      rw [hsum, zero_div]
      exact A.value_zero

theorem stats_exact_iff {s : SignalService A} (hs : Sound s) {i : Nat} {ch : SignalChannelInfo A}
    (hch : s.channels[i]? = some ch) {xs : List ℚ} (hxs : xs ≠ []) (hnumbers : Numbers ch.values xs)
    (hsum : Summable A xs) : Exact (stats s ch.id) xs ↔ i = 0 ∨ ∀ x ∈ xs, x = 0 := by
  cases hchs : s.channels with
  | nil =>
    rw [hchs] at hch
    cases hch
  | cons head rest =>
    cases i with
    | zero =>
      obtain rfl : head = ch := by rw [hchs] at hch; simpa using hch
      refine iff_of_true ?_ (.inl rfl)
      have hbound : head.values.length ≤ kMaxPoints := hs.bounded head (by rw [hchs]; exact List.mem_cons_self)
      have hlength : xs.length < 2 ^ 53 := by
        rw [← hnumbers.length_eq]
        exact lt_of_le_of_lt hbound (by decide)
      unfold stats
      rw [hchs]
      dsimp only
      rw [if_neg (not_not.2 rfl)]
      cases hvalues : head.values with
      | nil =>
        rw [hvalues] at hnumbers
        cases hnumbers
        exact absurd rfl hxs
      | cons first values =>
        rw [hvalues] at hnumbers
        exact exact_statsOf hnumbers hsum hlength
    | succ i =>
      have hne : head.id ≠ ch.id := by
        have hmem : ch ∈ rest := by
          rw [hchs, List.getElem?_cons_succ] at hch
          exact List.mem_of_getElem? hch
        have hdistinct := hs.distinct
        rw [hchs, List.map_cons, List.nodup_cons] at hdistinct
        exact fun heq => hdistinct.1 (heq ▸ List.mem_map_of_mem hmem)
      have hstats : stats s ch.id = noStats A := by
        unfold stats
        rw [hchs]
        dsimp only
        rw [if_pos hne]
      rw [hstats, exact_noStats_iff hxs]
      simp

/-- **When the statistics are exact**: of the channels with values only those of the
first are, or if all values are zero. In a run without a push of fewer or more
timestamps than values, which are the runs where all channels have as many of both,
only the oldest samples are dropped; and no channel gets too long. -/
theorem channel_stats_iff (A : Doubles) (calls : List (Call A)) :
    ((∀ pre, pre <+: calls → Aligned (exec step (SignalService.init A) pre)) ↔
        Along step Matched (SignalService.init A) calls) ∧
      (Along step Matched (SignalService.init A) calls →
        (exec step (SignalService.init A) calls).channels =
          (exec stepKeeping (SignalService.init A) calls).channels.map SignalChannelInfo.newest) ∧
      ∀ i ch, (exec step (SignalService.init A) calls).channels[i]? = some ch →
        ch.values.length ≤ kMaxPoints ∧
        ∀ xs, xs ≠ [] → Numbers ch.values xs → Summable A xs →
          (Exact (stats (exec step (SignalService.init A) calls) ch.id) xs ↔ i = 0 ∨ ∀ x ∈ xs, x = 0) := by
  have hsound := sound_exec calls
  refine ⟨aligned_iff calls, exec_channels, fun i ch hch => ⟨?_, fun xs hxs hnumbers hsum => ?_⟩⟩
  · exact hsound.bounded ch (List.mem_of_getElem? hch)
  · exact stats_exact_iff hsound hch hxs hnumbers hsum

/-- Numbers as doubles where nothing is rounded. -/
def unrounded : Doubles where
  Double := ℚ
  lt a b := decide (a < b)
  add := (· + ·)
  sub := (· - ·)
  mul := (· * ·)
  div := (· / ·)
  sqrt x := (x.num.toNat.sqrt : ℚ) / x.den.sqrt
  ofInt n := n
  zero := 0
  value := some
  value_zero := rfl
  lt_iff ha hb := by rw [decide_eq_true_iff, Option.some.inj ha, Option.some.inj hb]
  value_add ha hb _ := by rw [Option.some.inj ha, Option.some.inj hb]
  value_div ha hb _ _ := by rw [Option.some.inj ha, Option.some.inj hb]
  value_ofInt _ := rfl

/-- Two channels, and a value for the second. -/
def twoChannels : List (Call unrounded) :=
  [.addChannel "a" 0 "0x6000" "0x01", .addChannel "b" 0 "0x6000" "0x02", .pushData 2 [(5 : ℚ)] [100]]

/-- The second channel has the value 5, and no statistics. -/
theorem second_unseen :
    ¬ ∀ (calls : List (Call unrounded)), Along step Matched (SignalService.init unrounded) calls →
      ∀ ch ∈ (exec step (SignalService.init unrounded) calls).channels, ch.values ≠ [] →
        ∀ xs, Numbers ch.values xs → Summable unrounded xs →
          Exact (stats (exec step (SignalService.init unrounded) calls) ch.id) xs := by
  intro h
  have hmatched : Along step Matched (SignalService.init unrounded) twoChannels :=
    ⟨trivial, trivial, fun _ => rfl, trivial⟩
  have hnumbers : Numbers (A := unrounded) [(5 : ℚ)] [5] := List.Forall₂.cons rfl List.Forall₂.nil
  have hexact := h twoChannels hmatched ⟨2, "b", 0, "0x6000", "0x02", [(5 : ℚ)], [100]⟩
    (List.mem_cons_of_mem _ List.mem_cons_self) (List.cons_ne_nil _ _) [5] hnumbers
    ⟨fun _ _ => ⟨_, rfl⟩, ⟨_, rfl⟩⟩
  have hzero : (5 : ℚ) = 0 := (exact_noStats_iff (A := unrounded) (List.cons_ne_nil _ _)).1 hexact 5 List.mem_cons_self
  exact absurd hzero (by decide)

end NekoEcat.L4.Signals
