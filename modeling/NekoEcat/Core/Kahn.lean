import Mathlib.Data.Fintype.EquivFin
import Mathlib.Data.Fintype.Sets
import Mathlib.Data.List.Count
import Mathlib.Data.List.Nodup
import Mathlib.Logic.Function.Basic
import Mathlib.Logic.Relation
import Mathlib.Order.WellFounded

/-!
# Kahn's algorithm

Nodes with a list of dependencies each, repeated ones and itself included. A node is
taken when all its dependencies are; each node that is taken lowers the counts of
those that depend on it, and a count that reaches 0 puts its node into the queue.

* `foldl_release`: what the loop over the targets of a node does.
* `inv_visit`: what taking one node keeps.
* `loop_total`: the loop ends, with a node in the order iff its count is 0.
* `not_mem_order_iff`: the nodes that are left are those with a cycle below them.
-/
namespace NekoEcat.Kahn

variable {α : Type} [DecidableEq α]

/-! ## The loop -/

structure State (α : Type) where
  degree : α → Int
  queue : List α

/-- A dependency of a node is taken. -/
def release (s : State α) (n : α) : State α where
  degree := Function.update s.degree n (s.degree n - 1)
  queue := if s.degree n - 1 = 0 then s.queue ++ [n] else s.queue

/-- A node is taken. -/
def visit (targets : α → List α) (s : State α) (c : α) : State α := (targets c).foldl release s

/-- Nodes are taken from the queue until it is empty: their order and the counts
that are left. `none` stands for a loop that has not ended yet. -/
def loop (targets : α → List α) : Nat → List α → State α → Option (List α × (α → Int))
  | _, order, ⟨degree, []⟩ => some (order, degree)
  | 0, _, ⟨_, _ :: _⟩ => none
  | fuel + 1, order, ⟨degree, c :: queue⟩ => loop targets fuel (order ++ [c]) (visit targets ⟨degree, queue⟩ c)

/-- **The loop over the targets** lowers each count by how often it is there, and
puts into the queue the nodes whose count reaches 0. -/
theorem foldl_release (ns : List α) (s : State α) :
    (∀ t, (ns.foldl release s).degree t = s.degree t - ns.count t) ∧
    ∃ new, (ns.foldl release s).queue = s.queue ++ new ∧ new.Nodup ∧
      ∀ t, t ∈ new ↔ 0 < s.degree t ∧ s.degree t ≤ ns.count t := by
  induction ns generalizing s with
  | nil => exact ⟨by simp, [], by simp, List.nodup_nil, fun t => by simp⟩
  | cons n ns ih =>
    obtain ⟨hdegree, new, hqueue, hnodup, hnew⟩ := ih (release s n)
    have hat : (release s n).degree n = s.degree n - 1 := Function.update_self ..
    have hother {t : α} (ht : t ≠ n) : (release s n).degree t = s.degree t := Function.update_of_ne ht ..
    refine ⟨fun t => ?_, (if s.degree n - 1 = 0 then [n] else []) ++ new, ?_, ?_, fun t => ?_⟩
    · rw [List.foldl_cons, hdegree]
      by_cases ht : t = n
      · rw [ht, hat, List.count_cons_self]
        omega
      · rw [hother ht, List.count_cons_of_ne (Ne.symm ht)]
    · rw [List.foldl_cons, hqueue, release]
      split <;> simp
    · split
      · rename_i hzero
        refine List.nodup_cons.2 ⟨fun hmem => ?_, hnodup⟩
        have hpos := ((hnew n).1 hmem).1
        omega
      · exact hnodup
    · rw [List.mem_append, hnew]
      by_cases ht : t = n
      · rw [ht, hat, List.count_cons_self]
        split
        · simp
          omega
        · simp
          omega
      · rw [hother ht, List.count_cons_of_ne (Ne.symm ht)]
        split <;> simp [ht]

/-! ## Graphs -/

/-- Nodes, their dependencies and, the other way round, their targets. -/
structure Graph (α : Type) [DecidableEq α] where
  nodes : List α
  deps : α → List α
  targets : α → List α
  nodup : nodes.Nodup
  deps_mem : ∀ t ∈ nodes, ∀ d ∈ deps t, d ∈ nodes
  targets_mem : ∀ d ∈ nodes, ∀ t ∈ targets d, t ∈ nodes
  count : ∀ t ∈ nodes, ∀ d ∈ nodes, (targets d).count t = (deps t).count d

/-- The counts at the start, and the nodes without dependencies. -/
def Graph.start (G : Graph α) : State α where
  degree := fun t => ((G.deps t).length : Int)
  queue := G.nodes.filter fun t => decide ((G.deps t).length = 0)

/-- All nodes of a list come behind their dependencies. -/
def Graph.Sorted (G : Graph α) (order : List α) : Prop :=
  ∀ pre t post, order = pre ++ t :: post → ∀ d ∈ G.deps t, d ∈ pre

/-- The nodes taken so far and those in the queue are different; a count is that of
the dependencies that are not taken, and 0 for no other node. -/
structure Inv (G : Graph α) (order : List α) (s : State α) : Prop where
  nodup : (order ++ s.queue).Nodup
  mem : ∀ t ∈ order ++ s.queue, t ∈ G.nodes
  degree : ∀ t ∈ G.nodes, s.degree t = ((G.deps t).countP fun d => decide (d ∉ order) : Nat)
  ready : ∀ t ∈ G.nodes, t ∈ order ++ s.queue ↔ s.degree t = 0
  sorted : G.Sorted order

section
variable {G : Graph α}

theorem inv_start : Inv G [] G.start where
  nodup := G.nodup.filter _
  mem := fun t ht => List.mem_of_mem_filter ht
  degree := fun t _ => by simp [Graph.start]
  ready := fun t ht => by simp [Graph.start, ht]
  sorted := fun pre t post h => by simp at h

/-- The dependencies that are not taken, one of them less. -/
theorem countP_taken (ds order : List α) {c : α} (hc : c ∉ order) :
    (ds.countP fun d => decide (d ∉ order)) = (ds.countP fun d => decide (d ∉ order ++ [c])) + ds.count c := by
  induction ds with
  | nil => rfl
  | cons d ds ih =>
    rw [List.countP_cons, List.countP_cons, List.count_cons, ih]
    by_cases hd : d = c
    · simp [hd, hc]
      omega
    · simp [hd]
      omega

theorem Graph.Sorted.concat {order : List α} (h : G.Sorted order) {c : α} (hc : ∀ d ∈ G.deps c, d ∈ order) :
    G.Sorted (order ++ [c]) := by
  intro pre t post heq d hd
  rcases List.eq_nil_or_concat post with rfl | ⟨post', last, rfl⟩
  · obtain ⟨rfl, hlast⟩ := List.append_inj' heq rfl
    cases hlast
    exact hc d hd
  · have heq' : order ++ [c] = (pre ++ t :: post') ++ [last] := by simpa using heq
    exact h pre t post' (List.append_inj' heq' rfl).1 d hd

/-- What is taken or in the queue are the nodes whose dependencies are taken. -/
theorem Inv.ready_iff {order : List α} {s : State α} (h : Inv G order s) {t : α} (ht : t ∈ G.nodes) :
    t ∈ order ++ s.queue ↔ ∀ d ∈ G.deps t, d ∈ order := by
  rw [h.ready t ht, h.degree t ht, Int.natCast_eq_zero, List.countP_eq_zero]
  simp

/-- The counts after one more node is taken. -/
theorem Inv.degree_visit {order queue : List α} {degree : α → Int} {c : α} (h : Inv G order ⟨degree, c :: queue⟩) {t : α}
    (ht : t ∈ G.nodes) : (visit G.targets ⟨degree, queue⟩ c).degree t =
      ((G.deps t).countP fun d => decide (d ∉ order ++ [c]) : Nat) := by
  have hc : c ∈ G.nodes := h.mem c (by simp)
  have hnot : c ∉ order := fun hm => (List.disjoint_of_nodup_append h.nodup) hm List.mem_cons_self
  have hold := h.degree t ht
  have htaken := countP_taken (G.deps t) order hnot
  rw [visit, (foldl_release (G.targets c) ⟨degree, queue⟩).1, G.count t ht c hc]
  dsimp only at hold ⊢
  omega

/-- **Taking one node** of the queue. -/
theorem inv_visit {order queue : List α} {degree : α → Int} {c : α} (h : Inv G order ⟨degree, c :: queue⟩) :
    Inv G (order ++ [c]) (visit G.targets ⟨degree, queue⟩ c) := by
  have hc : c ∈ G.nodes := h.mem c (by simp)
  obtain ⟨hdegree, new, hqueue, hnew, hmem⟩ := foldl_release (G.targets c) ⟨degree, queue⟩
  rw [← visit] at hdegree hqueue
  have hnodes {t : α} (ht : t ∈ new) : t ∈ G.nodes := by
    obtain ⟨hpos, hcount⟩ := (hmem t).1 ht
    exact G.targets_mem c hc t (List.count_pos_iff.1 (by omega))
  have hfresh : ∀ t ∈ new, t ∉ order ++ c :: queue := by
    intro t ht hm
    have hold := (h.ready t (hnodes ht)).1 hm
    have hpos := ((hmem t).1 ht).1
    dsimp only at hold hpos
    omega
  have hall : order ++ [c] ++ (visit G.targets ⟨degree, queue⟩ c).queue = order ++ c :: queue ++ new := by
    rw [hqueue]
    simp
  refine ⟨?_, ?_, fun t ht => h.degree_visit ht, fun t ht => ?_, h.sorted.concat ?_⟩
  · rw [hall]
    exact h.nodup.append hnew fun t ht hn => hfresh t hn ht
  · rw [hall]
    intro t ht
    rcases List.mem_append.1 ht with ht | ht
    · exact h.mem t ht
    · exact hnodes ht
  · -- A count is 0 now if it was before, or if all that is left of it are the edges from `c`.
    have hold := h.ready t ht
    have hcount := h.degree t ht
    have hleft := h.degree_visit ht
    rw [hdegree] at hleft
    rw [hall, List.mem_append, hold, hmem, hdegree]
    dsimp only at hcount hleft ⊢
    omega
  · exact (h.ready_iff hc).1 (by simp)

/-- **The loop ends**: all nodes that are ever taken are different. -/
theorem loop_total {order : List α} {s : State α} (h : Inv G order s) :
    ∃ order' degree, (∀ fuel, G.nodes.length ≤ fuel + order.length →
      loop G.targets fuel order s = some (order', degree)) ∧ Inv G order' ⟨degree, []⟩ := by
  -- by induction on the number of nodes that are not taken
  obtain ⟨left, hleft⟩ : ∃ left, G.nodes.length ≤ left + order.length := ⟨_, Nat.le_add_right _ _⟩
  induction left using Nat.strong_induction_on generalizing order s with
  | _ left ih =>
    obtain ⟨degree, queue⟩ := s
    cases queue with
    | nil => exact ⟨order, degree, fun fuel _ => by rw [loop], h⟩
    | cons c queue =>
      have hlength := (h.nodup.subperm fun t ht => h.mem t ht).length_le
      rw [List.length_append, List.length_cons] at hlength
      have hone : (order ++ [c]).length = order.length + 1 := List.length_append
      obtain ⟨order', degree', hloop, hinv⟩ := ih (left - 1) (by omega) (inv_visit h) (by omega)
      refine ⟨order', degree', fun fuel hfuel => ?_, hinv⟩
      obtain ⟨f, rfl⟩ : ∃ f, fuel = f + 1 := ⟨fuel - 1, by omega⟩
      exact hloop f (by omega)

/-! ## The nodes that are left -/

/-- Both are nodes, the second one among the dependencies of the first. -/
def Graph.Depends (G : Graph α) (t d : α) : Prop := t ∈ G.nodes ∧ d ∈ G.deps t

def Graph.OnCycle (G : Graph α) (t : α) : Prop := Relation.TransGen G.Depends t t

theorem taken_iff {order : List α} {degree : α → Int} (h : Inv G order ⟨degree, []⟩) {t : α} (ht : t ∈ G.nodes) :
    t ∈ order ↔ ∀ d ∈ G.deps t, d ∈ order := by
  simpa using h.ready_iff ht

/-- A node that is taken comes behind each of its dependencies. -/
theorem idxOf_lt {order : List α} (h : G.Sorted order) {t d : α} (hd : G.Depends t d) (ht : t ∈ order) :
    d ∈ order ∧ order.idxOf d < order.idxOf t := by
  obtain ⟨pre, post, rfl, hnot⟩ := List.eq_append_cons_of_mem ht
  have hmem := h pre t post rfl d hd.2
  refine ⟨List.mem_append_left _ hmem, ?_⟩
  rw [List.idxOf_append_of_mem hmem, List.idxOf_append_of_notMem hnot]
  have := List.idxOf_lt_length_of_mem hmem
  omega

theorem idxOf_lt_of_transGen {order : List α} (h : G.Sorted order) {t d : α} (hd : Relation.TransGen G.Depends t d)
    (ht : t ∈ order) : d ∈ order ∧ order.idxOf d < order.idxOf t := by
  induction hd with
  | single hd => exact idxOf_lt h hd ht
  | tail _ hd ih =>
    obtain ⟨hmem, hlt⟩ := idxOf_lt h hd ih.1
    exact ⟨hmem, hlt.trans ih.2⟩

/-- **The nodes that are left** are those with a cycle below them. -/
theorem not_mem_order_iff {order : List α} {degree : α → Int} (h : Inv G order ⟨degree, []⟩) {t : α}
    (ht : t ∈ G.nodes) : t ∉ order ↔ ∃ c, Relation.ReflTransGen G.Depends t c ∧ G.OnCycle c := by
  constructor
  · intro hleft
    by_contra hno
    -- Among the nodes below `t` that are left one has no other of them below it.
    let Below := {x : α // x ∈ G.nodes ∧ Relation.ReflTransGen G.Depends t x}
    let under : Below → Below → Prop := fun x y => Relation.TransGen G.Depends y.1 x.1
    have hfinite : Finite Below :=
      Finite.of_injective (fun x : Below => (⟨x.1, x.2.1⟩ : {x : α // x ∈ G.nodes})) fun x y hxy =>
        Subtype.ext (Subtype.mk.inj hxy)
    have htrans : IsTrans Below under := ⟨fun _ _ _ hxy hyz => hyz.trans hxy⟩
    have hirrefl : Std.Irrefl under := ⟨fun x hx => hno ⟨x.1, x.2.2, hx⟩⟩
    have hwf : WellFounded under := Finite.wellFounded_of_trans_of_irrefl under
    obtain ⟨m, hm, hmin⟩ := hwf.has_min {x : Below | x.1 ∉ order} ⟨⟨t, ht, .refl⟩, hleft⟩
    have hdep : ∃ d ∈ G.deps m.1, d ∉ order := by
      by_contra hall
      push Not at hall
      exact hm ((taken_iff h m.2.1).2 hall)
    obtain ⟨d, hd, hdleft⟩ := hdep
    have hedge : G.Depends m.1 d := ⟨m.2.1, hd⟩
    exact hmin ⟨d, G.deps_mem m.1 m.2.1 d hd, m.2.2.tail hedge⟩ hdleft (.single hedge)
  · rintro ⟨c, hpath, hcycle⟩ htaken
    have hc : c ∈ order := by
      rcases Relation.reflTransGen_iff_eq_or_transGen.1 hpath with rfl | hpath
      · exact htaken
      · exact (idxOf_lt_of_transGen h.sorted hpath htaken).1
    exact lt_irrefl _ (idxOf_lt_of_transGen h.sorted hcycle hc).2

/-- The order has all nodes iff there is no cycle. -/
theorem length_eq_iff {order : List α} {degree : α → Int} (h : Inv G order ⟨degree, []⟩) :
    order.length = G.nodes.length ↔ ∀ t, ¬ G.OnCycle t := by
  have hnodup : order.Nodup := by simpa using h.nodup
  have hsub : ∀ t ∈ order, t ∈ G.nodes := fun t ht => h.mem t (by simpa using ht)
  have hall : order.length = G.nodes.length ↔ ∀ t ∈ G.nodes, t ∈ order := by
    constructor
    · intro hlength t ht
      exact ((hnodup.subperm hsub).perm_of_length_le (le_of_eq hlength.symm)).mem_iff.2 ht
    · intro hmem
      exact le_antisymm (hnodup.subperm hsub).length_le (G.nodup.subperm hmem).length_le
  rw [hall]
  constructor
  · intro hmem t hcycle
    have ht : t ∈ G.nodes := by
      obtain ⟨d, hd, -⟩ := Relation.TransGen.head'_iff.1 hcycle
      exact hd.1
    exact (not_mem_order_iff h ht).2 ⟨t, .refl, hcycle⟩ (hmem t ht)
  · intro hno t ht
    by_contra hleft
    obtain ⟨c, -, hcycle⟩ := (not_mem_order_iff h ht).1 hleft
    exact hno c hcycle

end

end NekoEcat.Kahn
