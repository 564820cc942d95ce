import NekoEcat.Core.Trace
import Mathlib.Algebra.Order.Ring.Int
import Mathlib.Order.Monotone.Basic

/-!
# The cycle statistics of Free Run

The loop stores four numbers one after the other and takes no lock; `telemetry`
loads them one after the other, in another order. The count is stored last and
loaded first, so the other three are of at least the cycles that are counted.

* `inv_writer`, `inv_reader`: what both keep.
* `Report.Sound.bounds`: what a report says of the durations.
* `report_bounds`: every report of every interleaving.
* `average_over_maximum`: the total may be of one more cycle than the count.

Limitations: the numbers are sent as microseconds; here they stay nanoseconds. The
atomic accesses are interleaved, not reordered.
-/
namespace NekoEcat.L2.CycleStats
open NekoEcat.Trace

/-- What `clock_gettime(CLOCK_MONOTONIC, …)` tells, in nanoseconds since the machine was
booted: the reading before the loop, and then one for each cycle. The kernel keeps it in
63 bits. -/
structure Clock where
  reading : Nat → Nat
  booted : 0 < reading 0
  mono : ∀ k, reading k ≤ reading (k + 1)
  bound : ∀ k, reading k < 2 ^ 63

/-- `cycleDelta` of cycle `k` -/
def Clock.cycleDelta (c : Clock) (k : Nat) : Int := (c.reading (k + 1) : Int) - c.reading k

/-- The durations of the first `n` cycles together. -/
def Clock.sum (c : Clock) : Nat → Int
  | 0 => 0
  | n + 1 => c.sum n + c.cycleDelta n

def INT64_MAX : Int := 2 ^ 63 - 1

/-- `std::atomic<int64_t>::fetch_add`, which wraps -/
def fetchAdd (a b : Int) : Int := Int.bmod (a + b) (2 ^ 64)

/-- What the loop stores next. -/
inductive WriterPc where
  | min | max | total | count
  deriving DecidableEq, Repr

/-- What `telemetry` has loaded. -/
inductive ReaderPc where
  | idle
  | gotCycles (cycles : Nat)
  | gotMin (cycles : Nat) (minNs : Int)
  | gotMax (cycles : Nat) (minNs maxNs : Int)
  deriving DecidableEq, Repr

/-- What it has when all are loaded. -/
structure Report where
  cycles : Nat
  minNs : Int
  maxNs : Int
  totalNs : Int
  deriving DecidableEq, Repr

section
variable (r : Report)

def Report.avgNs : Int := if 0 < r.cycles then r.totalNs.tdiv r.cycles else 0

def Report.jitterNs : Int := if 0 < r.cycles then max (r.maxNs - r.avgNs) (r.avgNs - r.minNs) else 0

def Report.effectiveMinNs : Int := if r.minNs = INT64_MAX then 0 else r.minNs

end

structure State where
  cycleCount : Nat := 0
  minCycleNsec : Int := INT64_MAX
  maxCycleNsec : Int := 0
  totalCycleNsec : Int := 0
  writer : WriterPc := .min
  /-- the cycle whose duration is stored -/
  round : Nat := 0
  reader : ReaderPc := .idle
  reports : List Report := []
  deriving DecidableEq, Repr

/-- Who makes the next step. -/
inductive Actor where
  | loop | telemetry
  deriving DecidableEq, Repr

/-- mirrors apps/ecatd/FreeRunController.cpp:739-782; there is one writer, so an
exchange succeeds on the value that was loaded before it -/
def loop (c : Clock) (s : State) : State :=
  match s.writer with
  | .min =>
    { s with
      minCycleNsec := if c.cycleDelta s.round < s.minCycleNsec then c.cycleDelta s.round else s.minCycleNsec
      writer := .max }
  | .max =>
    { s with
      maxCycleNsec := if s.maxCycleNsec < c.cycleDelta s.round then c.cycleDelta s.round else s.maxCycleNsec
      writer := .total }
  | .total => { s with totalCycleNsec := fetchAdd s.totalCycleNsec (c.cycleDelta s.round), writer := .count }
  | .count => { s with cycleCount := s.cycleCount + 1, writer := .min, round := s.round + 1 }

/-- mirrors apps/ecatd/FreeRunController.cpp:466-477 -/
def telemetry (s : State) : State :=
  match s.reader with
  | .idle => { s with reader := .gotCycles s.cycleCount }
  | .gotCycles cycles => { s with reader := .gotMin cycles s.minCycleNsec }
  | .gotMin cycles minNs => { s with reader := .gotMax cycles minNs s.maxCycleNsec }
  | .gotMax cycles minNs maxNs =>
    { s with reader := .idle, reports := s.reports ++ [⟨cycles, minNs, maxNs, s.totalCycleNsec⟩] }

def step (c : Clock) (s : State) : Actor → State
  | .loop => loop c s
  | .telemetry => telemetry s

/-! ## The durations -/

section
variable (c : Clock)

theorem Clock.cycleDelta_nonneg (k : Nat) : 0 ≤ c.cycleDelta k := by
  have := c.mono k
  unfold Clock.cycleDelta
  omega

theorem Clock.cycleDelta_lt (k : Nat) : c.cycleDelta k < INT64_MAX := by
  have hbound := c.bound (k + 1)
  have hbooted := c.booted
  have hmono := monotone_nat_of_le_succ c.mono (Nat.zero_le k)
  unfold Clock.cycleDelta INT64_MAX
  omega

theorem Clock.sum_eq (n : Nat) : c.sum n = (c.reading n : Int) - c.reading 0 := by
  induction n with
  | zero => exact (Int.sub_self _).symm
  | succ n ih =>
    rw [Clock.sum, ih, Clock.cycleDelta]
    omega

theorem Clock.reading_mono {i j : Nat} (h : i ≤ j) : c.reading i ≤ c.reading j :=
  monotone_nat_of_le_succ c.mono h

theorem Clock.sum_mono {i j : Nat} (h : i ≤ j) : c.sum i ≤ c.sum j := by
  have := c.reading_mono h
  rw [c.sum_eq, c.sum_eq]
  omega

theorem Clock.sum_nonneg (n : Nat) : 0 ≤ c.sum n := c.sum_mono (Nat.zero_le n)

theorem Clock.sum_lt (n : Nat) : c.sum n < INT64_MAX := by
  have hbound := c.bound n
  have hbooted := c.booted
  rw [c.sum_eq, INT64_MAX]
  omega

/-- The total never wraps. -/
theorem Clock.fetchAdd_sum (n : Nat) : fetchAdd (c.sum n) (c.cycleDelta n) = c.sum (n + 1) := by
  have hlow := c.sum_nonneg (n + 1)
  have hhigh := c.sum_lt (n + 1)
  rw [Clock.sum] at *
  unfold fetchAdd INT64_MAX at *
  rw [Int.bmod_eq_of_le (by omega) (by omega)]

theorem Clock.mul_le_sum {m : Int} {n : Nat} (h : ∀ k < n, m ≤ c.cycleDelta k) : n * m ≤ c.sum n := by
  induction n with
  | zero => simp [Clock.sum]
  | succ n ih =>
    have hrest := ih fun k hk => h k (Nat.lt_succ_of_lt hk)
    have hlast := h n (Nat.lt_succ_self n)
    rw [Clock.sum, Int.natCast_succ, Int.add_mul, Int.one_mul]
    omega

theorem Clock.sum_le_mul {m : Int} {n : Nat} (h : ∀ k < n, c.cycleDelta k ≤ m) : c.sum n ≤ n * m := by
  induction n with
  | zero => simp [Clock.sum]
  | succ n ih =>
    have hrest := ih fun k hk => h k (Nat.lt_succ_of_lt hk)
    have hlast := h n (Nat.lt_succ_self n)
    rw [Clock.sum, Int.natCast_succ, Int.add_mul, Int.one_mul]
    omega

end

/-! ## What is seen of the cycles -/

/-- The cycles whose duration is in the minimum. -/
def State.inMin (s : State) : Nat := if s.writer = .min then s.round else s.round + 1

/-- The cycles whose duration is in the maximum. -/
def State.inMax (s : State) : Nat := if s.writer = .min ∨ s.writer = .max then s.round else s.round + 1

/-- The cycles whose duration is in the total. -/
def State.inTotal (s : State) : Nat := if s.writer = .count then s.round + 1 else s.round

/-- The four numbers. -/
structure WriterInv (c : Clock) (s : State) : Prop where
  count : s.cycleCount = s.round
  min : ∀ k < s.inMin, s.minCycleNsec ≤ c.cycleDelta k
  max : ∀ k < s.inMax, c.cycleDelta k ≤ s.maxCycleNsec
  total : s.totalCycleNsec = c.sum s.inTotal

/-- What `telemetry` has loaded is of the cycles it counts at least. -/
def ReaderInv (c : Clock) (s : State) : ReaderPc → Prop
  | .idle => True
  | .gotCycles cycles => cycles ≤ s.round
  | .gotMin cycles minNs => cycles ≤ s.round ∧ ∀ k < cycles, minNs ≤ c.cycleDelta k
  | .gotMax cycles minNs maxNs =>
    cycles ≤ s.round ∧ (∀ k < cycles, minNs ≤ c.cycleDelta k) ∧ ∀ k < cycles, c.cycleDelta k ≤ maxNs

structure Report.Sound (c : Clock) (r : Report) : Prop where
  min : ∀ k < r.cycles, r.minNs ≤ c.cycleDelta k
  max : ∀ k < r.cycles, c.cycleDelta k ≤ r.maxNs
  total : ∃ n, r.cycles ≤ n ∧ r.totalNs = c.sum n

structure Inv (c : Clock) (s : State) : Prop where
  writer : WriterInv c s
  reader : ReaderInv c s s.reader
  reports : ∀ r ∈ s.reports, r.Sound c

section
variable {c : Clock} {s : State}

theorem round_le : s.round ≤ s.inMin ∧ s.round ≤ s.inMax ∧ s.round ≤ s.inTotal := by
  unfold State.inMin State.inMax State.inTotal
  refine ⟨?_, ?_, ?_⟩ <;> split <;> omega

/-- A stored minimum is one of what was and what is new. -/
theorem min_stored {old new : Int} {n : Nat} (h : ∀ k < n, old ≤ c.cycleDelta k) (hnew : new = c.cycleDelta n) :
    ∀ k < n + 1, (if new < old then new else old) ≤ c.cycleDelta k := by
  intro k hk
  rcases Nat.lt_succ_iff_lt_or_eq.1 hk with hlt | rfl
  · have := h k hlt
    split <;> omega
  · split <;> omega

theorem max_stored {old new : Int} {n : Nat} (h : ∀ k < n, c.cycleDelta k ≤ old) (hnew : new = c.cycleDelta n) :
    ∀ k < n + 1, c.cycleDelta k ≤ (if old < new then new else old) := by
  intro k hk
  rcases Nat.lt_succ_iff_lt_or_eq.1 hk with hlt | rfl
  · have := h k hlt
    split <;> omega
  · split <;> omega

theorem inv_writer (h : WriterInv c s) : WriterInv c (loop c s) := by
  obtain ⟨hcount, hmin, hmax, htotal⟩ := h
  unfold loop
  cases hpc : s.writer with
  | min =>
    simp only [State.inMin, State.inMax, State.inTotal, hpc] at hmin hmax htotal
    exact ⟨hcount, min_stored hmin rfl, hmax, htotal⟩
  | max =>
    simp only [State.inMin, State.inMax, State.inTotal, hpc] at hmin hmax htotal
    exact ⟨hcount, hmin, max_stored hmax rfl, htotal⟩
  | total =>
    simp only [State.inMin, State.inMax, State.inTotal, hpc] at hmin hmax htotal
    refine ⟨hcount, hmin, hmax, ?_⟩
    show fetchAdd s.totalCycleNsec (c.cycleDelta s.round) = c.sum (s.round + 1)
    rw [← c.fetchAdd_sum]
    exact congrArg (fetchAdd · _) htotal
  | count =>
    simp only [State.inMin, State.inMax, State.inTotal, hpc] at hmin hmax htotal
    exact ⟨congrArg (· + 1) hcount, hmin, hmax, htotal⟩

theorem round_le_loop : s.round ≤ (loop c s).round := by
  unfold loop
  cases s.writer <;> simp

/-- The loop changes nothing of what was loaded. -/
theorem ReaderInv.loop {pc : ReaderPc} (h : ReaderInv c s pc) : ReaderInv c (CycleStats.loop c s) pc := by
  have hround : s.round ≤ (CycleStats.loop c s).round := round_le_loop
  cases pc with
  | idle => trivial
  | gotCycles cycles => exact Nat.le_trans h hround
  | gotMin cycles minNs => exact ⟨Nat.le_trans h.1 hround, h.2⟩
  | gotMax cycles minNs maxNs => exact ⟨Nat.le_trans h.1 hround, h.2⟩

theorem loop_frame : (loop c s).reader = s.reader ∧ (loop c s).reports = s.reports := by
  unfold loop
  cases s.writer <;> exact ⟨rfl, rfl⟩

theorem inv_loop (h : Inv c s) : Inv c (loop c s) := by
  obtain ⟨hreader, hreports⟩ := loop_frame (c := c) (s := s)
  refine ⟨inv_writer h.writer, ?_, ?_⟩
  · rw [hreader]
    exact h.reader.loop
  · rw [hreports]
    exact h.reports

theorem inv_reader (h : Inv c s) : Inv c (telemetry s) := by
  obtain ⟨hwriter, hreader, hreports⟩ := h
  obtain ⟨hinMin, hinMax, hinTotal⟩ := round_le (s := s)
  unfold telemetry
  cases hpc : s.reader with
  | idle => exact ⟨⟨hwriter.1, hwriter.2, hwriter.3, hwriter.4⟩, hwriter.count.le, hreports⟩
  | gotCycles cycles =>
    rw [hpc] at hreader
    have hcycles : cycles ≤ s.round := hreader
    refine ⟨⟨hwriter.1, hwriter.2, hwriter.3, hwriter.4⟩, ⟨hcycles, fun k hk => ?_⟩, hreports⟩
    exact hwriter.min k (by omega)
  | gotMin cycles minNs =>
    rw [hpc] at hreader
    obtain ⟨hcycles, hmin⟩ := hreader
    refine ⟨⟨hwriter.1, hwriter.2, hwriter.3, hwriter.4⟩, ⟨hcycles, hmin, fun k hk => ?_⟩, hreports⟩
    exact hwriter.max k (by omega)
  | gotMax cycles minNs maxNs =>
    rw [hpc] at hreader
    obtain ⟨hcycles, hmin, hmax⟩ := hreader
    refine ⟨⟨hwriter.1, hwriter.2, hwriter.3, hwriter.4⟩, trivial, fun r hr => ?_⟩
    rcases List.mem_append.1 hr with hold | hnew
    · exact hreports r hold
    · obtain rfl := List.mem_singleton.1 hnew
      exact ⟨hmin, hmax, _, Nat.le_trans hcycles hinTotal, hwriter.total⟩

end

/-- **Every interleaving** keeps what the numbers are of. -/
theorem inv_trace (c : Clock) (σ : Nat → Actor) (n : Nat) : Inv c (trace (step c) {} σ n) := by
  refine trace_inv _ _ σ ?_ (fun s a hs => ?_) n
  · exact ⟨⟨rfl, fun k hk => absurd hk (Nat.not_lt_zero k), fun k hk => absurd hk (Nat.not_lt_zero k), rfl⟩,
      trivial, fun r hr => absurd hr List.not_mem_nil⟩
  · cases a with
    | loop => exact inv_loop hs
    | telemetry => exact inv_reader hs

/-! ## The report -/

/-- The durations in the total of a report that it does not count. -/
def Report.uncounted (c : Clock) (r : Report) : Int := r.totalNs - c.sum r.cycles

theorem Report.Sound.bounds {c : Clock} {r : Report} (h : r.Sound c) (hpos : 0 < r.cycles) :
    r.effectiveMinNs ≤ r.avgNs ∧ 0 ≤ r.jitterNs ∧ 0 ≤ r.uncounted c ∧
      r.avgNs ≤ r.maxNs + (r.uncounted c).tdiv r.cycles := by
  obtain ⟨n, hn, htotal⟩ := h.total
  have hcycles : (0 : Int) < r.cycles := by omega
  have hcounted : c.sum r.cycles ≤ r.totalNs := htotal ▸ c.sum_mono hn
  have huncounted : 0 ≤ r.uncounted c := by
    unfold Report.uncounted
    omega
  have hnonneg : 0 ≤ r.totalNs := Int.le_trans (c.sum_nonneg _) hcounted
  have havg : r.avgNs = r.totalNs / r.cycles := by
    rw [Report.avgNs, if_pos hpos, Int.tdiv_eq_ediv_of_nonneg hnonneg]
  have hmin : r.minNs ≤ r.avgNs := by
    rw [havg]
    refine Int.le_ediv_of_mul_le hcycles (Int.le_trans ?_ hcounted)
    rw [Int.mul_comm]
    exact c.mul_le_sum h.min
  refine ⟨?_, ?_, huncounted, ?_⟩
  · unfold Report.effectiveMinNs
    split
    · exact havg ▸ Int.ediv_nonneg hnonneg hcycles.le
    · exact hmin
  · rw [Report.jitterNs, if_pos hpos]
    omega
  · have hsplit : r.totalNs = c.sum r.cycles + r.uncounted c := by
      unfold Report.uncounted
      omega
    calc
      r.avgNs = (c.sum r.cycles + r.uncounted c) / r.cycles := by rw [havg, ← hsplit]
      _ ≤ (r.uncounted c + r.maxNs * r.cycles) / r.cycles := by
        refine Int.ediv_le_ediv hcycles ?_
        have hmax := c.sum_le_mul h.max
        rw [Int.mul_comm r.maxNs]
        omega
      _ = r.maxNs + (r.uncounted c).tdiv r.cycles := by
        rw [Int.add_mul_ediv_right _ _ hcycles.ne', Int.tdiv_eq_ediv_of_nonneg huncounted, Int.add_comm]

/-- **Every report of every interleaving** that counts a cycle has its minimum at most
its average and no negative jitter; its average is over its maximum by no more than the
durations it does not count bring in. -/
theorem report_bounds (c : Clock) (σ : Nat → Actor) (n : Nat) :
    ∀ r ∈ (trace (step c) {} σ n).reports, 0 < r.cycles →
      r.effectiveMinNs ≤ r.avgNs ∧ 0 ≤ r.jitterNs ∧ 0 ≤ r.uncounted c ∧
        r.avgNs ≤ r.maxNs + (r.uncounted c).tdiv r.cycles :=
  fun r hr hpos => ((inv_trace c σ n).reports r hr).bounds hpos

/-- Two cycles of 100 ns. -/
def twoCycles : Clock where
  reading k := 1 + 100 * min k 2
  booted := by decide
  mono k := by omega
  bound k := by omega

/-- The loop has stored the second cycle in the total but not in the count. -/
def readTooSoon : List Actor :=
  [.loop, .loop, .loop, .loop, .loop, .loop, .loop, .telemetry, .telemetry, .telemetry, .telemetry]

theorem reports_readTooSoon :
    (trace (step twoCycles) {} (sched readTooSoon .telemetry) 11).reports = [⟨1, 100, 100, 200⟩] := by
  decide

/-- There the 100 ns that are not counted bring the average from 100 to 200. -/
theorem report_bounds_readTooSoon :
    (100 : Int) ≤ 200 ∧ (0 : Int) ≤ 100 ∧ (0 : Int) ≤ 100 ∧ (200 : Int) ≤ 100 + (100 : Int).tdiv 1 :=
  report_bounds twoCycles (sched readTooSoon .telemetry) 11 ⟨1, 100, 100, 200⟩
    (reports_readTooSoon ▸ List.mem_singleton.2 rfl) Nat.one_pos

/-- The report there says one cycle, 100 ns at most and 200 ns on average. -/
theorem average_over_maximum :
    ¬∀ (c : Clock) (σ : Nat → Actor) (n : Nat), ∀ r ∈ (trace (step c) {} σ n).reports, 0 < r.cycles →
      r.effectiveMinNs ≤ r.avgNs ∧ r.avgNs ≤ r.maxNs ∧ 0 ≤ r.jitterNs := by
  intro h
  have hle := (h twoCycles (sched readTooSoon .telemetry) 11 ⟨1, 100, 100, 200⟩
    (reports_readTooSoon ▸ List.mem_singleton.2 rfl) Nat.one_pos).2.1
  exact absurd hle (by decide)

end NekoEcat.L2.CycleStats
