import NekoEcat.Core.Kahn
import Mathlib.Algebra.BigOperators.Group.Finset.Basic
import Mathlib.Algebra.Order.BigOperators.Group.Finset
import Mathlib.Algebra.Order.BigOperators.Group.List
import Mathlib.Data.List.Chain

/-!
# Kahn's algorithm, stage after stage

All nodes in the queue are taken at once; those they put into the queue are the next
stage. The stages are the levels of the graph, by the longest way down.

* `stages_total`: the stages, one after the other, are the order of the plain loop.
* `mem_stage_iff`: the stage of a node is its level.
* `weight_le`: no chain weighs more than the heaviest nodes of all levels together.
-/
namespace NekoEcat.Kahn

variable {α : Type} [DecidableEq α]

/-- The stages until the queue is empty. `none` stands for a loop that has not
ended yet. -/
def stages (targets : α → List α) : Nat → State α → Option (List (List α))
  | _, ⟨_, []⟩ => some []
  | 0, ⟨_, _ :: _⟩ => none
  | fuel + 1, ⟨degree, c :: queue⟩ =>
    (stages targets fuel ((c :: queue).foldl (visit targets) ⟨degree, []⟩)).map ((c :: queue) :: ·)

/-- What is in the queue before plays no part. -/
theorem visit_append (targets : α → List α) (degree : α → Int) (queue rest : List α) (c : α) :
    visit targets ⟨degree, queue ++ rest⟩ c =
      ⟨(visit targets ⟨degree, rest⟩ c).degree, queue ++ (visit targets ⟨degree, rest⟩ c).queue⟩ := by
  unfold visit
  induction targets c generalizing degree rest with
  | nil => rfl
  | cons n ns ih =>
    have hone : release ⟨degree, queue ++ rest⟩ n =
        ⟨(release ⟨degree, rest⟩ n).degree, queue ++ (release ⟨degree, rest⟩ n).queue⟩ := by
      simp only [release]
      split <;> simp
    rw [List.foldl_cons, List.foldl_cons, hone]
    exact ih _ _

/-- **A stage in the plain loop.** -/
theorem loop_stage (targets : α → List α) (fuel : Nat) (order stage rest : List α) (degree : α → Int) :
    loop targets (fuel + stage.length) order ⟨degree, stage ++ rest⟩ =
      loop targets fuel (order ++ stage) (stage.foldl (visit targets) ⟨degree, rest⟩) := by
  induction stage generalizing order degree rest with
  | nil => simp
  | cons c stage ih =>
    have hstep : loop targets (fuel + (c :: stage).length) order ⟨degree, c :: stage ++ rest⟩ =
        loop targets (fuel + stage.length) (order ++ [c]) (visit targets ⟨degree, stage ++ rest⟩ c) := rfl
    rw [hstep, visit_append, ih, List.foldl_cons, List.append_assoc]
    rfl

variable {G : Graph α}

theorem inv_stage {order stage rest : List α} {degree : α → Int} (h : Inv G order ⟨degree, stage ++ rest⟩) :
    Inv G (order ++ stage) (stage.foldl (visit G.targets) ⟨degree, rest⟩) := by
  induction stage generalizing order degree rest with
  | nil => simpa using h
  | cons c stage ih =>
    rw [List.cons_append] at h
    have hnext := inv_visit h
    rw [visit_append] at hnext
    simpa using ih hnext

variable (G)

/-- The stages behind the nodes that are done: each has exactly the nodes that are
not done and whose dependencies are. -/
def Layered : List α → List (List α) → Prop
  | _, [] => True
  | done, stage :: ss =>
    (∀ t, t ∈ stage ↔ t ∈ G.nodes ∧ t ∉ done ∧ ∀ d ∈ G.deps t, d ∈ done) ∧ Layered (done ++ stage) ss

variable {G}

theorem mem_queue_iff {order : List α} {s : State α} (h : Inv G order s) (t : α) :
    t ∈ s.queue ↔ t ∈ G.nodes ∧ t ∉ order ∧ ∀ d ∈ G.deps t, d ∈ order := by
  constructor
  · intro hq
    have ht := h.mem t (List.mem_append_right _ hq)
    exact ⟨ht, fun ho => List.disjoint_of_nodup_append h.nodup ho hq, (h.ready_iff ht).1 (List.mem_append_right _ hq)⟩
  · rintro ⟨ht, hnot, hdeps⟩
    exact (List.mem_append.1 ((h.ready_iff ht).2 hdeps)).resolve_left hnot

/-- **The stages**, one after the other, are the order of the plain loop. -/
theorem stages_total {order : List α} {s : State α} (h : Inv G order s) :
    ∃ ss degree, Layered G order ss ∧ (∀ stage ∈ ss, stage ≠ []) ∧ Inv G (order ++ ss.flatten) ⟨degree, []⟩ ∧
      ∀ fuel, G.nodes.length ≤ fuel + order.length → stages G.targets fuel s = some ss ∧
        loop G.targets fuel order s = some (order ++ ss.flatten, degree) := by
  obtain ⟨left, hleft⟩ : ∃ left, G.nodes.length ≤ left + order.length := ⟨_, Nat.le_add_right _ _⟩
  induction left using Nat.strong_induction_on generalizing order s with
  | _ left ih =>
    obtain ⟨degree, queue⟩ := s
    cases queue with
    | nil =>
      refine ⟨[], degree, trivial, by simp, by simpa using h, fun fuel _ => ⟨by rw [stages], ?_⟩⟩
      rw [List.flatten_nil, List.append_nil, loop]
    | cons c queue =>
      have hlength := (h.nodup.subperm fun t ht => h.mem t ht).length_le
      rw [List.length_append] at hlength
      dsimp only at hlength
      have hpos : 0 < (c :: queue).length := by simp
      have hinv : Inv G (order ++ (c :: queue)) ((c :: queue).foldl (visit G.targets) ⟨degree, []⟩) :=
        inv_stage (by rwa [List.append_nil])
      obtain ⟨ss, degree', hlayered, hne, hlast, hends⟩ := ih (left - 1) (by omega) hinv (by
        rw [List.length_append]
        omega)
      refine ⟨(c :: queue) :: ss, degree', ⟨mem_queue_iff h, hlayered⟩,
        List.forall_mem_cons.2 ⟨List.cons_ne_nil c queue, hne⟩, ?_, fun fuel hfuel => ⟨?_, ?_⟩⟩
      · rw [List.flatten_cons, ← List.append_assoc]
        exact hlast
      · obtain ⟨f, rfl⟩ : ∃ f, fuel = f + 1 := ⟨fuel - 1, by omega⟩
        have hss := (hends f (by rw [List.length_append]; omega)).1
        rw [stages, hss]
        rfl
      · have hstage := loop_stage G.targets (fuel - (c :: queue).length) order (c :: queue) [] degree
        rw [List.append_nil, Nat.sub_add_cancel (by omega)] at hstage
        rw [hstage, (hends _ (by rw [List.length_append]; omega)).2, List.flatten_cons, List.append_assoc]

/-- **A dependency is in an earlier stage**, or was done before. -/
theorem earlier_of_mem {done : List α} {ss : List (List α)} (h : Layered G done ss) {j : Nat} {stage : List α}
    (hj : ss[j]? = some stage) {t d : α} (ht : t ∈ stage) (hd : d ∈ G.deps t) :
    d ∈ done ∨ ∃ i < j, ∃ earlier, ss[i]? = some earlier ∧ d ∈ earlier := by
  induction ss generalizing done j with
  | nil => cases hj
  | cons first ss ih =>
    cases j with
    | zero =>
      obtain rfl : first = stage := Option.some.inj hj
      exact .inl (((h.1 t).1 ht).2.2 d hd)
    | succ j =>
      rcases ih h.2 hj with hdone | ⟨i, hi, earlier, hearlier, hmem⟩
      · rcases List.mem_append.1 hdone with hdone | hfirst
        · exact .inl hdone
        · exact .inr ⟨0, j.succ_pos, first, rfl, hfirst⟩
      · exact .inr ⟨i + 1, Nat.succ_lt_succ hi, earlier, hearlier, hmem⟩

/-! ## Levels -/

variable (G)

/-- The length of the longest way down the dependencies, as far as `fuel` goes. -/
def level : Nat → α → Nat
  | 0, _ => 0
  | fuel + 1, t => ((G.deps t).map fun d => level fuel d + 1).foldr max 0

variable {G}

theorem foldr_max_le_iff (ns : List Nat) (n : Nat) : ns.foldr max 0 ≤ n ↔ ∀ m ∈ ns, m ≤ n := by
  induction ns with
  | nil => simp
  | cons m ns ih => rw [List.foldr_cons, max_le_iff, ih, List.forall_mem_cons]

theorem level_le_iff (fuel : Nat) (t : α) (n : Nat) :
    level G (fuel + 1) t ≤ n ↔ ∀ d ∈ G.deps t, level G fuel d < n := by
  rw [level, foldr_max_le_iff, List.forall_mem_map]
  rfl

/-- What is done are the nodes below level `n`. -/
def Below (G : Graph α) (n : Nat) (done : List α) : Prop :=
  ∀ fuel, n ≤ fuel → ∀ t ∈ G.nodes, t ∈ done ↔ level G fuel t < n

/-- The nodes of level `n` at most are those whose dependencies are done. -/
theorem level_le_iff_done {n fuel : Nat} {done : List α} (h : Below G n done) (hfuel : n < fuel) {t : α}
    (ht : t ∈ G.nodes) : level G fuel t ≤ n ↔ ∀ d ∈ G.deps t, d ∈ done := by
  obtain ⟨f, rfl⟩ : ∃ f, fuel = f + 1 := ⟨fuel - 1, by omega⟩
  rw [level_le_iff]
  exact forall₂_congr fun d hd => (h f (by omega) d (G.deps_mem t ht d hd)).symm

/-- **The stage of a node is its level.** -/
theorem mem_stage_iff {n : Nat} {done : List α} {ss : List (List α)} (h : Below G n done) (hss : Layered G done ss)
    {i : Nat} {stage : List α} (hi : ss[i]? = some stage) {fuel : Nat} (hfuel : n + i < fuel) (t : α) :
    t ∈ stage ↔ t ∈ G.nodes ∧ level G fuel t = n + i := by
  induction ss generalizing n done i with
  | nil => cases hi
  | cons first ss ih =>
    have hfirst {f : Nat} (hf : n < f) (t : α) : t ∈ first ↔ t ∈ G.nodes ∧ level G f t = n := by
      rw [hss.1 t]
      refine and_congr_right fun ht => ?_
      rw [← level_le_iff_done h hf ht, h f hf.le t ht]
      omega
    cases i with
    | zero =>
      obtain rfl : first = stage := Option.some.inj hi
      exact hfirst hfuel t
    | succ i =>
      have hbelow : Below G (n + 1) (done ++ first) := by
        intro f hf t ht
        rw [List.mem_append, hfirst hf t, h f (by omega) t ht, and_iff_right ht]
        omega
      rw [ih hbelow hss.2 hi (by omega)]
      refine and_congr_right fun _ => ?_
      omega

theorem below_nil : Below G 0 [] := fun _ _ t _ => by simp

/-- A stage, found again in the order of the plain loop. -/
theorem filter_flatten {β : Type} (f : β → Nat) {ss : List (List β)} {n : Nat}
    (h : ∀ i stage, ss[i]? = some stage → ∀ t ∈ stage, f t = n + i) (i : Nat) :
    ss.flatten.filter (fun t => decide (f t = n + i)) = ss[i]?.getD [] := by
  induction ss generalizing n i with
  | nil => simp
  | cons stage ss ih =>
    have hrest : ∀ j later, ss[j]? = some later → ∀ t ∈ later, f t = n + 1 + j := by
      intro j later hj t ht
      have := h (j + 1) later hj t ht
      omega
    have hfirst : ∀ t ∈ stage, f t = n := h 0 stage rfl
    rw [List.flatten_cons, List.filter_append]
    cases i with
    | zero =>
      have hnone : ss.flatten.filter (fun t => decide (f t = n + 0)) = [] := by
        refine List.filter_eq_nil_iff.2 fun t ht => ?_
        obtain ⟨later, hlater, ht⟩ := List.mem_flatten.1 ht
        obtain ⟨j, hj⟩ := List.mem_iff_getElem?.1 hlater
        have := hrest j later hj t ht
        simp
        omega
      rw [hnone, List.append_nil, List.filter_eq_self.2 fun t ht => by simp [hfirst t ht]]
      rfl
    | succ i =>
      have hnone : stage.filter (fun t => decide (f t = n + (i + 1))) = [] := by
        refine List.filter_eq_nil_iff.2 fun t ht => ?_
        have := hfirst t ht
        simp
        omega
      have hshift : (fun t => decide (f t = n + (i + 1))) = fun t => decide (f t = n + 1 + i) := by
        funext t
        rw [Nat.add_right_comm, Nat.add_assoc]
      rw [hnone, List.nil_append, hshift, ih hrest i]
      rfl

theorem length_le_flatten {β : Type} {ss : List (List β)} (h : ∀ stage ∈ ss, stage ≠ []) :
    ss.length ≤ ss.flatten.length := by
  induction ss with
  | nil => rfl
  | cons stage ss ih =>
    have hrest := ih fun later hlater => h later (.tail _ hlater)
    have hfirst := List.length_pos_of_ne_nil (h stage (.head _))
    rw [List.length_cons, List.flatten_cons, List.length_append]
    omega

/-- What is taken of each stage, by the numbers of the stages. -/
theorem filterMap_range {β γ : Type} {f : List β → Option γ} (hf : f [] = none) {ss : List (List β)} {n : Nat}
    (h : ss.length ≤ n) : (List.range n).filterMap (fun i => f (ss[i]?.getD [])) = ss.filterMap f := by
  induction ss generalizing n with
  | nil => simp [hf]
  | cons stage ss ih =>
    rw [List.length_cons] at h
    obtain ⟨m, rfl⟩ : ∃ m, n = m + 1 := ⟨n - 1, by omega⟩
    have hrest := ih (n := m) (by omega)
    rw [List.range_succ_eq_map, List.filterMap_cons, List.filterMap_map, List.filterMap_cons, ← hrest]
    rfl

theorem sum_range_getElem {β M : Type} [AddCommMonoid M] (f : List β → M) (ss : List (List β)) :
    ∑ i ∈ Finset.range ss.length, f (ss[i]?.getD []) = (ss.map f).sum := by
  induction ss with
  | nil => rfl
  | cons stage ss ih =>
    rw [List.length_cons, Finset.sum_range_succ', List.map_cons, List.sum_cons, ← ih, add_comm]
    rfl

/-- **The weight of a chain**, whose nodes are on different levels. -/
theorem weight_le {β M : Type} [AddCommMonoid M] [PartialOrder M] [IsOrderedAddMonoid M] {weight : β → M}
    {lev : β → Nat} {bound : Nat → M} {n : Nat} {chain : List β} (hchain : chain.IsChain fun a b => lev a < lev b)
    (hlev : ∀ t ∈ chain, lev t < n) (hweight : ∀ t ∈ chain, weight t ≤ bound (lev t))
    (hbound : ∀ i, 0 ≤ bound i) : (chain.map weight).sum ≤ ∑ i ∈ Finset.range n, bound i := by
  have hnodup : (chain.map lev).Nodup :=
    (List.isChain_iff_pairwise.1 ((List.isChain_map lev).2 hchain)).imp fun hab => hab.ne
  have hsub : (chain.map lev).toFinset ⊆ Finset.range n := by
    intro i hi
    obtain ⟨t, ht, rfl⟩ := List.mem_map.1 (List.mem_toFinset.1 hi)
    exact Finset.mem_range.2 (hlev t ht)
  calc (chain.map weight).sum
      ≤ (chain.map fun t => bound (lev t)).sum := List.sum_le_sum hweight
    _ = ((chain.map lev).map bound).sum := by rw [List.map_map]; rfl
    _ = ∑ i ∈ (chain.map lev).toFinset, bound i := (List.sum_toFinset bound hnodup).symm
    _ ≤ ∑ i ∈ Finset.range n, bound i :=
      Finset.sum_le_sum_of_subset_of_nonneg hsub fun i _ _ => hbound i

end NekoEcat.Kahn
