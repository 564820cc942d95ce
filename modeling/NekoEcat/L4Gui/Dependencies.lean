import NekoEcat.Core.Kahn
import NekoEcat.Core.QJson
import NekoEcat.Core.QString
import NekoEcat.L4Gui.ProjectFile
import Mathlib.Data.List.Dedup

/-!
# Resolving the dependencies of workflow tasks

The in-degrees and targets are read off the listed dependencies of all tasks; the
tasks are taken by Kahn's algorithm, from the keys of the map on. What is reported
as a cycle are the tasks whose count is not 0 in the end, and those that wait for a
cycle have such a count as well.

* `links_spec`: the counts and targets, over dependencies in any number.
* `resolveDependencies_spec`: the order, and which tasks are reported.
* `resolved_iff`: where the reported tasks are those that lie on a cycle.
* `waiting_reported`: where they are not.
-/
namespace NekoEcat.L4.Dependencies
open NekoEcat.Kahn NekoEcat.QJson NekoEcat.QString
open NekoEcat.L4.ProjectFile (keyLe)

structure WfTask where
  id : String
  name : String
  estimatedDurationMs : Rat
  dependencies : List String
  deriving DecidableEq, Repr

/-- What is emitted as the result. The metrics are in the order they are set. -/
inductive Metric where
  | number (value : Rat)
  | flag (value : Bool)
  deriving DecidableEq, Repr

structure WorkflowOptimizationResult where
  category : String
  description : String
  improvementPercent : Rat
  recommendations : List String
  metrics : List (String × Metric)
  deriving DecidableEq, Repr

structure DependencyGraph where
  nodes : QJsonObject
  edges : QJsonObject
  topologicalOrder : List String
  hasCycles : Bool
  cycles : List String

/-! ## The counts and targets -/

def taskIds (tasks : List WfTask) : List String := tasks.map WfTask.id

/-- The keys of `inDegree`, as the map is iterated. -/
def keys (tasks : List WfTask) : List String := (taskIds tasks).dedup.mergeSort keyLe

structure Links where
  inDegree : String → Int
  adjacency : String → List String

/-- One dependency of the task `id`. -/
def link (ids : List String) (id : String) (s : Links) (dep : String) : Links :=
  if dep ∈ ids then
    ⟨Function.update s.inDegree id (s.inDegree id + 1), Function.update s.adjacency dep (s.adjacency dep ++ [id])⟩
  else s

def links (tasks : List WfTask) : Links :=
  tasks.foldl (fun s t => t.dependencies.foldl (link (taskIds tasks) t.id) s) ⟨fun _ => 0, fun _ => []⟩

/-- The queue at the start. -/
def start (tasks : List WfTask) : State String where
  degree := (links tasks).inDegree
  queue := (keys tasks).filter fun id => decide ((links tasks).inDegree id = 0)

/-! ## The resolution -/

def nodeObject (s : Links) (t : WfTask) : QJsonValue :=
  .object (ofList [("name", .string t.name), ("inDegree", .int (s.inDegree t.id)),
    ("outDegree", .int (s.adjacency t.id).length)])

def edgeArray (s : Links) (t : WfTask) : Option (String × QJsonValue) :=
  if s.adjacency t.id = [] then none else some (t.id, .array ((s.adjacency t.id).map .string))

/-- What is read off the order and the counts that are left. -/
def dependencyGraph (tasks : List WfTask) (topoOrder : List String) (inDegree : String → Int) : DependencyGraph :=
  let hasCycles := decide (topoOrder.length ≠ tasks.length)
  { nodes := ofList (tasks.map fun t => (t.id, nodeObject (links tasks) t))
    edges := ofList (tasks.filterMap (edgeArray (links tasks)))
    topologicalOrder := topoOrder
    hasCycles := hasCycles
    cycles := if hasCycles then (keys tasks).filter fun id => decide (0 < inDegree id) else [] }

/-- `none` stands for a loop that has not ended yet.
mirrors apps/ecat-studio/services/WorkflowOptimizationService.cpp:288-377 -/
def resolveDependencies (fuel : Nat) (tasks : List WfTask) : Option DependencyGraph :=
  (loop (links tasks).adjacency fuel [] (start tasks)).map fun (topoOrder, inDegree) =>
    dependencyGraph tasks topoOrder inDegree

/-- What is emitted with the graph. -/
def dependencyResult (tasks : List WfTask) (graph : DependencyGraph) : WorkflowOptimizationResult where
  category := "DependencyResolution"
  description := "Dependency graph analysis"
  improvementPercent := if graph.hasCycles then 0 else 100
  recommendations :=
    if graph.hasCycles then
      [arg "Circular dependency detected among: %1"
        (String.ofList (", ".toList.intercalate (graph.cycles.map String.toList)))]
    else []
  metrics := [("nodeCount", .number tasks.length), ("topoOrderSize", .number graph.topologicalOrder.length),
    ("hasCycles", .flag graph.hasCycles)]

/-! ## The graph of the tasks -/

/-- The task `t` depends on the listed task `d`. -/
def Depends (tasks : List WfTask) (t d : String) : Prop :=
  ∃ task ∈ tasks, task.id = t ∧ d ∈ task.dependencies ∧ d ∈ taskIds tasks

def OnCycle (tasks : List WfTask) (t : String) : Prop := Relation.TransGen (Depends tasks) t t

def listed (ids deps : List String) : List String := deps.filter fun d => decide (d ∈ ids)

/-- The listed dependencies of `t`, as often as they are there. -/
def depsOf (ids : List String) (tasks : List WfTask) (t : String) : List String :=
  tasks.flatMap fun task => if task.id = t then listed ids task.dependencies else []

theorem depsOf_cons (ids : List String) (task : WfTask) (tasks : List WfTask) (t : String) :
    depsOf ids (task :: tasks) t = (if task.id = t then listed ids task.dependencies else []) ++ depsOf ids tasks t :=
  List.flatMap_cons

theorem mem_depsOf {ids : List String} {tasks : List WfTask} {t d : String} :
    d ∈ depsOf ids tasks t ↔ ∃ task ∈ tasks, task.id = t ∧ d ∈ task.dependencies ∧ d ∈ ids := by
  rw [depsOf, List.mem_flatMap]
  refine exists_congr fun task => and_congr_right fun _ => ?_
  split
  · rename_i h
    simp [h, listed]
  · rename_i h
    simp [h]

/-- The loop over the dependencies of one task. -/
theorem foldl_link (ids : List String) (id : String) (deps : List String) (s : Links) (t d : String) :
    (deps.foldl (link ids id) s).inDegree t =
        s.inDegree t + (if id = t then listed ids deps else []).length ∧
      ((deps.foldl (link ids id) s).adjacency d).count t =
        (s.adjacency d).count t + (if id = t then listed ids deps else []).count d := by
  induction deps generalizing s with
  | nil => simp [listed]
  | cons dep deps ih =>
    obtain ⟨hdegree, hcount⟩ := ih (link ids id s dep)
    rw [List.foldl_cons, hdegree, hcount]
    by_cases hdep : dep ∈ ids
    · have hlisted : listed ids (dep :: deps) = dep :: listed ids deps :=
        List.filter_cons_of_pos (decide_eq_true hdep)
      simp only [hlisted, link, if_pos hdep, Function.update_apply]
      by_cases ht : id = t
      · subst ht
        simp only [if_true, List.length_cons, List.count_cons]
        refine ⟨by omega, ?_⟩
        by_cases hd : d = dep
        · subst hd
          simp
          omega
        · simp [hd, Ne.symm hd]
      · simp only [if_neg ht, if_neg (Ne.symm ht), true_and]
        split
        · rename_i hd
          rw [hd, List.count_append, List.count_singleton, if_neg (by simpa using ht), Nat.add_zero]
        · rfl
    · simp [link, listed, hdep]

/-- **The counts and targets**: a count is that of the listed dependencies, and a task
is among the targets of another one as often as it lists it. -/
theorem links_spec (tasks : List WfTask) (t d : String) :
    (links tasks).inDegree t = (depsOf (taskIds tasks) tasks t).length ∧
      ((links tasks).adjacency d).count t = (depsOf (taskIds tasks) tasks t).count d := by
  have hfold (ids : List String) (ts : List WfTask) (s : Links) :
      (ts.foldl (fun s t => t.dependencies.foldl (link ids t.id) s) s).inDegree t =
          s.inDegree t + (depsOf ids ts t).length ∧
        ((ts.foldl (fun s t => t.dependencies.foldl (link ids t.id) s) s).adjacency d).count t =
          (s.adjacency d).count t + (depsOf ids ts t).count d := by
    induction ts generalizing s with
    | nil => simp [depsOf]
    | cons task ts ih =>
      obtain ⟨hdegree, hcount⟩ := ih (task.dependencies.foldl (link ids task.id) s)
      obtain ⟨honeDegree, honeCount⟩ := foldl_link ids task.id task.dependencies s t d
      rw [List.foldl_cons, hdegree, hcount, honeDegree, honeCount, depsOf_cons, List.length_append,
        List.count_append, Nat.cast_add]
      omega
  simpa [links] using hfold (taskIds tasks) tasks ⟨fun _ => 0, fun _ => []⟩

theorem mem_keys {tasks : List WfTask} {t : String} : t ∈ keys tasks ↔ t ∈ taskIds tasks := by
  rw [keys, List.mem_mergeSort, List.mem_dedup]

theorem mem_taskIds_of_depends {tasks : List WfTask} {t d : String} (h : Depends tasks t d) :
    t ∈ taskIds tasks ∧ d ∈ taskIds tasks := by
  obtain ⟨task, htask, rfl, -, hd⟩ := h
  exact ⟨List.mem_map_of_mem htask, hd⟩

/-- The graph that the loop runs on. -/
def graphOf (tasks : List WfTask) : Graph String where
  nodes := keys tasks
  deps := depsOf (taskIds tasks) tasks
  targets := (links tasks).adjacency
  nodup := (List.mergeSort_perm _ _).nodup_iff.2 (List.nodup_dedup _)
  deps_mem := by
    intro t _ d hd
    exact mem_keys.2 (mem_taskIds_of_depends (mem_depsOf.1 hd)).2
  targets_mem := by
    intro d _ t ht
    have hcount := List.count_pos_iff.2 ht
    rw [(links_spec tasks t d).2] at hcount
    exact mem_keys.2 (mem_taskIds_of_depends (mem_depsOf.1 (List.count_pos_iff.1 hcount))).1
  count := fun t _ d _ => (links_spec tasks t d).2

theorem depends_iff {tasks : List WfTask} {t d : String} : (graphOf tasks).Depends t d ↔ Depends tasks t d := by
  constructor
  · rintro ⟨-, hd⟩
    exact mem_depsOf.1 hd
  · intro h
    exact ⟨mem_keys.2 (mem_taskIds_of_depends h).1, mem_depsOf.2 h⟩

theorem depends_eq (tasks : List WfTask) : (graphOf tasks).Depends = Depends tasks := by
  funext t d
  exact propext depends_iff

theorem onCycle_iff {tasks : List WfTask} {t : String} : (graphOf tasks).OnCycle t ↔ OnCycle tasks t := by
  rw [Graph.OnCycle, depends_eq, OnCycle]

theorem start_eq (tasks : List WfTask) : start tasks = (graphOf tasks).start := by
  have hdegree : (links tasks).inDegree = fun t => ((depsOf (taskIds tasks) tasks t).length : Int) := by
    funext t
    exact (links_spec tasks t t).1
  simp only [start, Graph.start, graphOf, hdegree, Int.natCast_eq_zero]
  rfl

theorem length_keys {tasks : List WfTask} (h : (taskIds tasks).Nodup) : (keys tasks).length = tasks.length := by
  rw [keys, List.length_mergeSort, List.dedup_eq_self.2 h, taskIds, List.length_map]

theorem length_keys_le (tasks : List WfTask) : (keys tasks).length ≤ tasks.length := by
  rw [keys, List.length_mergeSort]
  have := (List.dedup_sublist (taskIds tasks)).length_le
  rwa [taskIds, List.length_map] at this

/-! ## What is resolved -/

/-- No task twice, each behind its listed dependencies; there is a cycle iff it is
said so, and the tasks reported are those that lie on one. -/
structure Resolved (tasks : List WfTask) (graph : DependencyGraph) : Prop where
  nodup : graph.topologicalOrder.Nodup
  sorted : ∀ pre t post, graph.topologicalOrder = pre ++ t :: post → ∀ d, Depends tasks t d → d ∈ pre
  hasCycles : graph.hasCycles = true ↔ ∃ t, OnCycle tasks t
  cycles : ∀ t, t ∈ graph.cycles ↔ OnCycle tasks t

/-- **The tasks whose count is not 0** in the end have a cycle below them. -/
theorem left_iff {tasks : List WfTask} {order : List String} {degree : String → Int}
    (h : Inv (graphOf tasks) order ⟨degree, []⟩) (t : String) : t ∈ keys tasks ∧ 0 < degree t ↔
      ∃ c, Relation.ReflTransGen (Depends tasks) t c ∧ OnCycle tasks c := by
  constructor
  · rintro ⟨ht, hpos⟩
    have hready := h.ready t ht
    rw [List.append_nil] at hready
    have hnot : t ∉ order := fun hm => hpos.ne' (hready.1 hm)
    obtain ⟨c, hpath, hcycle⟩ := (not_mem_order_iff h ht).1 hnot
    exact ⟨c, by rwa [depends_eq] at hpath, onCycle_iff.1 hcycle⟩
  · rintro ⟨c, hpath, hcycle⟩
    have ht : t ∈ keys tasks := by
      rcases Relation.ReflTransGen.cases_head hpath with rfl | ⟨d, hd, -⟩
      · obtain ⟨d, hd, -⟩ := Relation.TransGen.head'_iff.1 hcycle
        exact mem_keys.2 (mem_taskIds_of_depends hd).1
      · exact mem_keys.2 (mem_taskIds_of_depends hd).1
    have hnot : t ∉ order := (not_mem_order_iff h ht).2 ⟨c, by rwa [depends_eq], onCycle_iff.2 hcycle⟩
    have hready := h.ready t ht
    have hdegree := h.degree t ht
    rw [List.append_nil] at hready
    dsimp only at hready hdegree
    have hne : degree t ≠ 0 := fun hzero => hnot (hready.2 hzero)
    exact ⟨ht, by omega⟩

/-- **The resolution** of tasks with different ids: the tasks reported are those with
a cycle below them. -/
theorem resolveDependencies_spec {tasks : List WfTask} (h : (taskIds tasks).Nodup) :
    ∃ graph, (∀ fuel, tasks.length ≤ fuel → resolveDependencies fuel tasks = some graph) ∧
      graph.topologicalOrder.Nodup ∧
      (∀ pre t post, graph.topologicalOrder = pre ++ t :: post → ∀ d, Depends tasks t d → d ∈ pre) ∧
      (graph.hasCycles = true ↔ ∃ t, OnCycle tasks t) ∧
      ∀ t, t ∈ graph.cycles ↔ ∃ c, Relation.ReflTransGen (Depends tasks) t c ∧ OnCycle tasks c := by
  obtain ⟨order, degree, hloop, hinv⟩ := loop_total (inv_start (G := graphOf tasks))
  have hcyclic : order.length ≠ tasks.length ↔ ∃ t, OnCycle tasks t := by
    have hall := length_eq_iff hinv
    rw [show (graphOf tasks).nodes.length = tasks.length from length_keys h] at hall
    rw [ne_eq, hall, not_forall]
    exact exists_congr fun t => not_not.trans onCycle_iff
  refine ⟨dependencyGraph tasks order degree, fun fuel hfuel => ?_, ?_, ?_, ?_, fun t => ?_⟩
  · have hran := hloop fuel ((length_keys_le tasks).trans hfuel)
    rw [resolveDependencies, start_eq]
    exact congrArg _ hran
  · have hnodup : order.Nodup := by simpa using hinv.nodup
    exact hnodup
  · intro pre t post heq d hd
    exact hinv.sorted pre t post heq d (mem_depsOf.2 hd)
  · exact decide_eq_true_iff.trans hcyclic
  · rw [← left_iff hinv t, dependencyGraph]
    dsimp only
    by_cases hany : order.length ≠ tasks.length
    · simp [hany]
    · have hnone : ¬ (t ∈ keys tasks ∧ 0 < degree t) := by
        rw [left_iff hinv t]
        rintro ⟨c, -, hcycle⟩
        exact hany (hcyclic.2 ⟨c, hcycle⟩)
      simp [hany, hnone]

/-- All reported tasks lie on a cycle iff those that depend on such a task do. -/
theorem below_iff_onCycle (tasks : List WfTask) :
    (∀ t, (∃ c, Relation.ReflTransGen (Depends tasks) t c ∧ OnCycle tasks c) ↔ OnCycle tasks t) ↔
      ∀ t d, Depends tasks t d → OnCycle tasks d → OnCycle tasks t := by
  constructor
  · intro h t d hd hcycle
    exact (h t).1 ⟨d, .single hd, hcycle⟩
  · intro h t
    constructor
    · rintro ⟨c, hpath, hcycle⟩
      induction hpath using Relation.ReflTransGen.head_induction_on with
      | refl => exact hcycle
      | head hd _ ih => exact h _ _ hd ih
    · intro hcycle
      exact ⟨t, .refl, hcycle⟩

/-- **The tasks reported as a cycle** are those on one iff each task that depends on a
task on a cycle lies on one itself. -/
theorem resolved_iff (tasks : List WfTask) (h : (taskIds tasks).Nodup) :
    (∃ graph, (∀ fuel, tasks.length ≤ fuel → resolveDependencies fuel tasks = some graph) ∧ Resolved tasks graph) ↔
      ∀ t d, Depends tasks t d → OnCycle tasks d → OnCycle tasks t := by
  obtain ⟨graph, hends, hnodup, hsorted, hcyclic, hcycles⟩ := resolveDependencies_spec h
  rw [← below_iff_onCycle]
  constructor
  · rintro ⟨graph', hends', hresolved⟩ t
    obtain rfl : graph' = graph := Option.some.inj ((hends' _ le_rfl).symm.trans (hends _ le_rfl))
    rw [← hcycles, hresolved.cycles]
  · intro hall
    exact ⟨graph, hends, hnodup, hsorted, hcyclic, fun t => (hcycles t).trans (hall t)⟩

/-- Two tasks that wait for each other. -/
def pair : List WfTask := [⟨"a", "A", 1, ["b"]⟩, ⟨"b", "B", 1, ["a"]⟩]

theorem pair_depends {tasks : List WfTask} (h : pair ⊆ tasks) : Depends tasks "a" "b" ∧ Depends tasks "b" "a" := by
  have ha := h (show ⟨"a", "A", 1, ["b"]⟩ ∈ pair from .head _)
  have hb := h (show ⟨"b", "B", 1, ["a"]⟩ ∈ pair from .tail _ (.head _))
  exact ⟨⟨_, ha, rfl, .head _, List.mem_map_of_mem hb⟩, ⟨_, hb, rfl, .head _, List.mem_map_of_mem ha⟩⟩

theorem pair_resolved : ∃ graph, (∀ fuel, pair.length ≤ fuel → resolveDependencies fuel pair = some graph) ∧
    Resolved pair graph := by
  obtain ⟨hab, hba⟩ := pair_depends (List.Subset.refl pair)
  refine (resolved_iff pair (by decide)).2 fun t d hd _ => ?_
  have ht := (mem_taskIds_of_depends hd).1
  simp only [taskIds, pair, List.map_cons, List.map_nil, List.mem_cons, List.not_mem_nil, or_false] at ht
  rcases ht with rfl | rfl
  · exact .tail (.single hab) hba
  · exact .tail (.single hba) hab

/-- A third task waits for the first one. -/
def waiting : List WfTask := pair ++ [⟨"c", "C", 1, ["a"]⟩]

/-- **It is reported** as part of the cycle, and lies on none. -/
theorem waiting_reported : (taskIds waiting).Nodup ∧ ¬ ∃ graph,
    (∀ fuel, waiting.length ≤ fuel → resolveDependencies fuel waiting = some graph) ∧ Resolved waiting graph := by
  refine ⟨by decide, ?_⟩
  rintro ⟨graph, hends, hresolved⟩
  obtain ⟨graph', hends', -, -, -, hcycles⟩ := resolveDependencies_spec (show (taskIds waiting).Nodup by decide)
  obtain rfl : graph = graph' := Option.some.inj ((hends _ le_rfl).symm.trans (hends' _ le_rfl))
  obtain ⟨hab, hba⟩ := pair_depends (show pair ⊆ waiting from List.subset_append_left _ _)
  have hca : Depends waiting "c" "a" := ⟨⟨"c", "C", 1, ["a"]⟩, by decide, rfl, .head _, by decide⟩
  have hcycle : OnCycle waiting "c" :=
    (hresolved.cycles "c").1 ((hcycles "c").2 ⟨"a", .single hca, .tail (.single hab) hba⟩)
  -- No task depends on the third one.
  obtain ⟨t, -, task, htask, -, hc, -⟩ := Relation.TransGen.tail'_iff.1 hcycle
  have hnone : ∀ task ∈ waiting, "c" ∉ task.dependencies := by decide
  exact hnone task htask hc

end NekoEcat.L4.Dependencies
