import NekoEcat.Core.RingWindow
import NekoEcat.L2Daemon.CycleStats

/-!
# The real-time test

The loop records each cycle under one lock, and `telemetry` reads under the same lock.
The ring of recent cycles is filled from its first slot on and is then overwritten at
`cycleCount_ % kRollingWindow`; `telemetry` sends its slots in their order, so after the
first wrap the newest cycle stands in front of the oldest one. The charts draw the slots
from left to right.

* `inv_durations`: what is recorded after any number of cycles.
* `report_exact_iff`: when the report is the one of the last cycles.
* `newest_first`: the first cycle that is out of order.

Limitations: the numbers are sent as microseconds; here they stay nanoseconds. The
failed sends that are counted beside the cycles are left out.
-/
namespace NekoEcat.L2.RtTest
open NekoEcat.RingWindow NekoEcat.L2.CycleStats

def kRollingWindow : Nat := 2000

structure State where
  cycleCount : Nat := 0
  minCycleNsec : Int := INT64_MAX
  maxCycleNsec : Int := 0
  totalCycleNsec : Int := 0
  recentCycles : List Int := []

/-- mirrors apps/ecatd/RtTestController.cpp:222-236 -/
def record (s : State) (cycleDelta : Int) : State where
  cycleCount := s.cycleCount + 1
  minCycleNsec := if cycleDelta < s.minCycleNsec then cycleDelta else s.minCycleNsec
  maxCycleNsec := if s.maxCycleNsec < cycleDelta then cycleDelta else s.maxCycleNsec
  totalCycleNsec := s.totalCycleNsec + cycleDelta
  recentCycles :=
    if s.recentCycles.length < kRollingWindow then s.recentCycles ++ [cycleDelta]
    else s.recentCycles.set (s.cycleCount % kRollingWindow) cycleDelta

structure Report where
  cycles : Nat
  minNs : Int
  maxNs : Int
  avgNs : Int
  jitterNs : Int
  recent : List Int
  deriving DecidableEq, Repr

/-- mirrors apps/ecatd/RtTestController.cpp:128-170 -/
def telemetry (s : State) : Report :=
  let cycles := s.cycleCount
  let minNs := if s.minCycleNsec = INT64_MAX then 0 else s.minCycleNsec
  let maxNs := s.maxCycleNsec
  let avgNs := if 0 < cycles then s.totalCycleNsec.tdiv cycles else 0
  { cycles, minNs, maxNs, avgNs
    jitterNs := if 0 < cycles then max (maxNs - avgNs) (avgNs - minNs) else 0
    recent := s.recentCycles }

/-- The durations of the first `n` cycles. -/
def durations (c : Clock) (n : Nat) : List Int := (List.range n).map c.cycleDelta

def loop (c : Clock) (n : Nat) : State := (durations c n).foldl record {}

/-- The report of these durations and no others: the last ones, oldest first. -/
structure Exact (ds : List Int) (r : Report) : Prop where
  recent : r.recent = window kRollingWindow ds
  min : r.minNs = ds.min?.getD 0
  max : r.maxNs = ds.max?.getD 0
  average : r.avgNs = ds.sum.tdiv ds.length

/-! ## The record -/

structure Inv (ds : List Int) (s : State) : Prop where
  count : s.cycleCount = ds.length
  min : s.minCycleNsec = ds.min?.getD INT64_MAX
  max : s.maxCycleNsec = ds.max?.getD 0
  total : s.totalCycleNsec = ds.sum
  recent : Holds kRollingWindow s.recentCycles ds

theorem min?_concat (ds : List Int) (d : Int) : (ds ++ [d]).min? = some (ds.min?.elim d (min · d)) := by
  cases ds with
  | nil => rfl
  | cons e es => rw [List.cons_append, List.min?_cons', List.min?_cons', List.foldl_append, Option.elim_some,
    List.foldl_cons, List.foldl_nil]

theorem max?_concat (ds : List Int) (d : Int) : (ds ++ [d]).max? = some (ds.max?.elim d (max · d)) := by
  cases ds with
  | nil => rfl
  | cons e es => rw [List.cons_append, List.max?_cons', List.max?_cons', List.foldl_append, Option.elim_some,
    List.foldl_cons, List.foldl_nil]

theorem inv_record {ds : List Int} {s : State} {d : Int} (h : Inv ds s) (hlow : 0 ≤ d) (hhigh : d < INT64_MAX) :
    Inv (ds ++ [d]) (record s d) := by
  obtain ⟨hcount, hmin, hmax, htotal, hrecent⟩ := h
  refine ⟨?_, ?_, ?_, ?_, ?_⟩
  · rw [List.length_append, List.length_singleton]
    exact congrArg (· + 1) hcount
  · rw [min?_concat, record, hmin]
    cases ds.min? with
    | none => exact if_pos hhigh
    | some m =>
      simp only [Option.getD_some, Option.elim_some]
      omega
  · rw [max?_concat, record, hmax]
    cases ds.max? with
    | none =>
      simp only [Option.getD_none, Option.elim_none, Option.getD_some]
      omega
    | some m =>
      simp only [Option.getD_some, Option.elim_some]
      omega
  · rw [List.sum_append, List.sum_singleton]
    exact congrArg (· + d) htotal
  · have hpush := hrecent.push d
    rw [← hcount] at hpush
    exact hpush

theorem durations_succ (c : Clock) (n : Nat) : durations c (n + 1) = durations c n ++ [c.cycleDelta n] := by
  rw [durations, List.range_succ, List.map_append]
  rfl

theorem length_durations (c : Clock) (n : Nat) : (durations c n).length = n := by
  rw [durations, List.length_map, List.length_range]

theorem getElem?_durations (c : Clock) {n i : Nat} (h : i < n) : (durations c n)[i]? = some (c.cycleDelta i) := by
  rw [durations, List.getElem?_map, List.getElem?_range h, Option.map_some]

/-- **After any number of cycles.** -/
theorem inv_durations (c : Clock) (n : Nat) : Inv (durations c n) (loop c n) := by
  induction n with
  | zero => exact ⟨rfl, rfl, rfl, rfl, holds_nil _⟩
  | succ n ih =>
    rw [loop, durations_succ, List.foldl_append]
    exact inv_record ih (c.cycleDelta_nonneg n) (c.cycleDelta_lt n)

/-! ## The report -/

theorem Inv.numbers {ds : List Int} {s : State} (h : Inv ds s) (hhigh : ∀ d ∈ ds, d < INT64_MAX) :
    (telemetry s).minNs = ds.min?.getD 0 ∧ (telemetry s).maxNs = ds.max?.getD 0 ∧
      (telemetry s).avgNs = ds.sum.tdiv ds.length := by
  refine ⟨?_, h.max, ?_⟩
  · show (if s.minCycleNsec = INT64_MAX then 0 else s.minCycleNsec) = _
    rw [h.min]
    cases hmin : ds.min? with
    | none => exact if_pos rfl
    | some m => exact if_neg (hhigh m (List.min?_mem hmin)).ne
  · show (if 0 < s.cycleCount then s.totalCycleNsec.tdiv s.cycleCount else 0) = _
    rw [h.count, h.total]
    cases ds with
    | nil => rfl
    | cons d ds => exact if_pos (Nat.succ_pos _)

/-- The durations of the last cycles recur at this distance. -/
def Recurs (c : Clock) (n distance : Nat) : Prop :=
  ∀ i, n ≤ i + kRollingWindow → i + distance < n → c.cycleDelta (i + distance) = c.cycleDelta i

theorem recent_eq_iff (c : Clock) (n : Nat) :
    (telemetry (loop c n)).recent = window kRollingWindow (durations c n) ↔
      n ≤ kRollingWindow ∨ Recurs c n (n.gcd kRollingWindow) := by
  have hrecent := (inv_durations c n).recent.eq_window_iff (by decide)
  have hrecurs : (∀ i, n ≤ i + kRollingWindow → i + n.gcd kRollingWindow < n →
      (durations c n)[i + n.gcd kRollingWindow]? = (durations c n)[i]?) ↔ Recurs c n (n.gcd kRollingWindow) := by
    refine forall_congr' fun i => forall₂_congr fun _ hi => ?_
    rw [getElem?_durations c hi, getElem?_durations c (by omega), Option.some.injEq]
  rw [length_durations, hrecurs] at hrecent
  exact hrecent

/-- **The report is exact** as long as the ring did not wrap, and after that exactly if
the order of the slots makes no difference. -/
theorem report_exact_iff (c : Clock) (n : Nat) :
    Exact (durations c n) (telemetry (loop c n)) ↔ n ≤ kRollingWindow ∨ Recurs c n (n.gcd kRollingWindow) := by
  have hhigh : ∀ d ∈ durations c n, d < INT64_MAX := by
    intro d hd
    obtain ⟨k, -, rfl⟩ := List.mem_map.1 hd
    exact c.cycleDelta_lt k
  obtain ⟨hmin, hmax, havg⟩ := (inv_durations c n).numbers hhigh
  constructor
  · intro hexact
    exact (recent_eq_iff c n).1 hexact.recent
  · intro hcond
    exact ⟨(recent_eq_iff c n).2 hcond, hmin, hmax, havg⟩

/-- Cycles of 1000 ns, of which the last one takes 1001. -/
def lateCycle : Clock where
  reading k := 1 + 1000 * min k 2001 + if 2001 ≤ k then 1 else 0
  booted := by decide
  mono k := by split <;> split <;> omega
  bound k := by split <;> omega

/-- It is sent before the 1999 cycles that came before it. -/
theorem newest_first : ¬∀ (c : Clock) (n : Nat), Exact (durations c n) (telemetry (loop c n)) := by
  intro h
  rcases (recent_eq_iff lateCycle 2001).1 (h lateCycle 2001).recent with hfew | hrecurs
  · exact absurd hfew (by decide)
  · have hlast := hrecurs 1999 (by decide) (by decide)
    exact absurd hlast (by decide)

end NekoEcat.L2.RtTest
