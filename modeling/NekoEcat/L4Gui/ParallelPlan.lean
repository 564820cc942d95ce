import NekoEcat.Core.Layers
import NekoEcat.L4Gui.Dependencies
import Mathlib.Data.List.MinMax

/-!
# The parallel plan and its critical path

The tasks are taken stage after stage, all of a stage at once. The critical path has
one task of each stage, the first of those that last longest; whether it depends on
the one of the stage before is not looked at.

* `levels_eq`: the loop is that of the stages, with what it adds up beside it.
* `criticalPath_eq`: the critical path has the heaviest task of each level.
* `planned_iff`: when that is a chain, and the longest one.
* `unrelated_tasks`: two tasks on the path that have nothing to do with each other.
-/
namespace NekoEcat.L4.ParallelPlan
open NekoEcat.Kahn NekoEcat.QString NekoEcat.L4.Dependencies

structure ExecutionPlan where
  stages : List (List String)
  speedupRatio : Rat
  maxConcurrency : Nat
  criticalPath : List String
  deriving DecidableEq, Repr

/-! ## The loop -/

/-- `taskDuration.value(id, 0.0)` -/
def duration (tasks : List WfTask) (id : String) : Rat :=
  ((tasks.reverse.find? fun t => decide (t.id = id)).map WfTask.estimatedDurationMs).getD 0

/-- What the loop adds up. -/
structure Pass where
  stages : List (List String)
  maxConcurrency : Nat
  criticalPathDuration : Rat
  criticalPath : List String

/-- `stageMaxDuration` and `stageCritical`, after one more task of the stage. -/
def pick (dur : String → Rat) (best : Rat × String) (id : String) : Rat × String :=
  if best.1 < dur id then (dur id, id) else best

def best (dur : String → Rat) (stage : List String) : Rat × String := stage.foldl (pick dur) (0, "")

def addStage (dur : String → Rat) (p : Pass) (stage : List String) : Pass where
  stages := p.stages ++ [stage]
  maxConcurrency := max p.maxConcurrency stage.length
  criticalPathDuration := p.criticalPathDuration + (best dur stage).1
  criticalPath := if (best dur stage).2 = "" then p.criticalPath else p.criticalPath ++ [(best dur stage).2]

/-- `none` stands for a loop that has not ended yet. -/
def levels (dur : String → Rat) (targets : String → List String) : Nat → State String → Pass → Option Pass
  | _, ⟨_, []⟩, p => some p
  | 0, ⟨_, _ :: _⟩, _ => none
  | fuel + 1, ⟨degree, c :: queue⟩, p =>
    levels dur targets fuel ((c :: queue).foldl (visit targets) ⟨degree, []⟩) (addStage dur p (c :: queue))

def executionPlan (tasks : List WfTask) (p : Pass) : ExecutionPlan where
  stages := p.stages
  speedupRatio :=
    if 0 < p.criticalPathDuration then (tasks.map WfTask.estimatedDurationMs).sum / p.criticalPathDuration else 1
  maxConcurrency := p.maxConcurrency
  criticalPath := p.criticalPath

/-- mirrors apps/ecat-studio/services/WorkflowOptimizationService.cpp:197-286 -/
def optimizeParallelExecution (fuel : Nat) (tasks : List WfTask) : Option ExecutionPlan :=
  (levels (duration tasks) (links tasks).adjacency fuel (start tasks) ⟨[], 1, 0, []⟩).map (executionPlan tasks)

/-- What is emitted with the plan. -/
def parallelResult (plan : ExecutionPlan) : WorkflowOptimizationResult where
  category := "ParallelExecution"
  description := "Parallel execution optimization"
  improvementPercent := (plan.speedupRatio - 1) * 100
  recommendations :=
    (if plan.speedupRatio < 2 then ["Consider breaking dependencies to increase parallelism"] else []) ++
      if 1 < plan.stages.length then
        [arg "Critical path: %1" (String.ofList (" → ".toList.intercalate (plan.criticalPath.map String.toList)))]
      else []
  metrics := [("stages", .number plan.stages.length), ("maxConcurrency", .number plan.maxConcurrency),
    ("speedupRatio", .number plan.speedupRatio)]

theorem levels_eq (dur : String → Rat) (targets : String → List String) (fuel : Nat) (s : State String) (p : Pass) :
    levels dur targets fuel s p = (stages targets fuel s).map (·.foldl (addStage dur) p) := by
  induction fuel generalizing s p with
  | zero =>
    obtain ⟨degree, queue⟩ := s
    cases queue with
    | nil => rfl
    | cons c queue => rfl
  | succ fuel ih =>
    obtain ⟨degree, queue⟩ := s
    cases queue with
    | nil => rfl
    | cons c queue =>
      rw [levels, stages, ih, Option.map_map]
      rfl

/-- With positive durations: the first task that lasts longest. -/
theorem best_eq {dur : String → Rat} {stage : List String} (h : ∀ t ∈ stage, 0 < dur t) :
    best dur stage = match stage.argmax dur with
      | some t => (dur t, t)
      | none => (0, "") := by
  induction stage using List.reverseRecOn with
  | nil => rfl
  | append_singleton stage t ih =>
    have hstage := ih fun x hx => h x (List.mem_append_left _ hx)
    have ht := h t (by simp)
    rw [best, List.foldl_concat, ← best, hstage, List.argmax_concat]
    cases stage.argmax dur with
    | none => simp [pick, ht]
    | some m =>
      simp only [pick]
      split <;> rfl

theorem foldl_addStage (dur : String → Rat) (ss : List (List String)) (p : Pass) :
    (ss.foldl (addStage dur) p).stages = p.stages ++ ss ∧
      (ss.foldl (addStage dur) p).criticalPath =
        p.criticalPath ++ (ss.map fun stage => (best dur stage).2).filter fun t => decide (t ≠ "") := by
  induction ss generalizing p with
  | nil => simp
  | cons stage ss ih =>
    obtain ⟨hstages, hpath⟩ := ih (addStage dur p stage)
    rw [List.foldl_cons, hstages, hpath]
    refine ⟨by simp [addStage], ?_⟩
    by_cases hname : (best dur stage).2 = ""
    · simp [addStage, hname]
    · simp [addStage, hname]

/-! ## Chains -/

/-- Listed tasks, each of which depends on the one before it. -/
def Chain (tasks : List WfTask) (chain : List String) : Prop :=
  (∀ t ∈ chain, t ∈ taskIds tasks) ∧ chain.IsChain fun a b => Depends tasks b a

def total (tasks : List WfTask) (chain : List String) : Rat := (chain.map (duration tasks)).sum

/-- Each task in one stage, behind those of its listed dependencies; the critical path
is a chain, and no chain lasts longer. -/
structure Planned (tasks : List WfTask) (plan : ExecutionPlan) : Prop where
  nodup : plan.stages.flatten.Nodup
  mem : ∀ t, t ∈ plan.stages.flatten ↔ t ∈ taskIds tasks
  later : ∀ (j : Nat) (stage : List String), plan.stages[j]? = some stage → ∀ t ∈ stage, ∀ d, Depends tasks t d →
    ∃ i < j, ∃ earlier : List String, plan.stages[i]? = some earlier ∧ d ∈ earlier
  chain : Chain tasks plan.criticalPath
  longest : ∀ chain, Chain tasks chain → total tasks chain ≤ total tasks plan.criticalPath

/-- The length of the longest chain of dependencies below a task. -/
def levelOf (tasks : List WfTask) (t : String) : Nat := level (graphOf tasks) tasks.length t

def topologicalOrder (tasks : List WfTask) : List String :=
  ((resolveDependencies tasks.length tasks).map DependencyGraph.topologicalOrder).getD []

/-- Of each level the task that lasts longest, the first of them in topological order. -/
def heaviest (tasks : List WfTask) : List String :=
  (List.range tasks.length).filterMap fun n =>
    ((topologicalOrder tasks).filter fun t => decide (levelOf tasks t = n)).argmax (duration tasks)

def named (ids : List String) : List String := ids.filter fun t => decide (t ≠ "")

/-- The heaviest tasks, those without an id left out, depend on each other in turn; and
where one is left out, no chain lasts longer than the others. -/
def Aligned (tasks : List WfTask) : Prop :=
  Chain tasks (named (heaviest tasks)) ∧
    ("" ∈ heaviest tasks → ∀ chain, Chain tasks chain → total tasks chain ≤ total tasks (named (heaviest tasks)))

/-! ## The stages of the plan -/

theorem duration_pos {tasks : List WfTask} (h : ∀ t ∈ tasks, 0 < t.estimatedDurationMs) {id : String}
    (hid : id ∈ taskIds tasks) : 0 < duration tasks id := by
  rw [duration]
  cases hfind : tasks.reverse.find? fun t => decide (t.id = id) with
  | none =>
    obtain ⟨t, ht, rfl⟩ := List.mem_map.1 hid
    have := List.find?_eq_none.1 hfind t (List.mem_reverse.2 ht)
    simp at this
  | some t => exact h t (List.mem_reverse.1 (List.mem_of_find?_eq_some hfind))

/-- **The stages** of tasks with different ids and without cycles. -/
theorem stages_spec {tasks : List WfTask} (hacyclic : ∀ t, ¬ OnCycle tasks t) :
    ∃ ss, (∀ fuel, tasks.length ≤ fuel → optimizeParallelExecution fuel tasks =
        some (executionPlan tasks (ss.foldl (addStage (duration tasks)) ⟨[], 1, 0, []⟩))) ∧
      ss.flatten.Nodup ∧ (∀ t, t ∈ ss.flatten ↔ t ∈ taskIds tasks) ∧ ss.length ≤ tasks.length ∧
      Layered (graphOf tasks) [] ss ∧ topologicalOrder tasks = ss.flatten := by
  obtain ⟨ss, degree, hlayered, hne, hinv, hends⟩ := stages_total (inv_start (G := graphOf tasks))
  rw [List.nil_append] at hinv hends
  have hnodup : ss.flatten.Nodup := by simpa using hinv.nodup
  have hall : ss.flatten.length = (keys tasks).length :=
    (length_eq_iff hinv).2 fun t hcycle => hacyclic t (onCycle_iff.1 hcycle)
  have hmem (t : String) : t ∈ ss.flatten ↔ t ∈ taskIds tasks := by
    have hsub : ∀ t ∈ ss.flatten, t ∈ keys tasks := fun t ht => hinv.mem t (by simpa using ht)
    rw [← mem_keys]
    exact ((hnodup.subperm hsub).perm_of_length_le hall.ge).mem_iff
  refine ⟨ss, fun fuel hfuel => ?_, hnodup, hmem, ?_, hlayered, ?_⟩
  · have hss := (hends fuel ((length_keys_le tasks).trans hfuel)).1
    rw [optimizeParallelExecution, levels_eq, start_eq]
    exact congrArg _ (congrArg _ hss)
  · exact (length_le_flatten hne).trans (hall.le.trans (length_keys_le tasks))
  · have hloop := (hends tasks.length (length_keys_le tasks)).2
    have horder : resolveDependencies tasks.length tasks = some (dependencyGraph tasks ss.flatten degree) := by
      rw [resolveDependencies, start_eq]
      exact congrArg _ hloop
    rw [topologicalOrder, horder]
    rfl

theorem levelOf_stage {tasks : List WfTask} {ss : List (List String)} (hlayered : Layered (graphOf tasks) [] ss)
    (hlength : ss.length ≤ tasks.length) {i : Nat} {stage : List String} (hi : ss[i]? = some stage) {t : String}
    (ht : t ∈ stage) : levelOf tasks t = i := by
  have hlt : i < ss.length := (List.getElem?_eq_some_iff.1 hi).1
  have hfuel : 0 + i < tasks.length := by omega
  have hlevel := (mem_stage_iff below_nil hlayered hi hfuel t).1 ht
  exact hlevel.2.trans (Nat.zero_add i)

/-- **The heaviest tasks**, by the stages. -/
theorem heaviest_eq {tasks : List WfTask} {ss : List (List String)} (hlayered : Layered (graphOf tasks) [] ss)
    (hlength : ss.length ≤ tasks.length) (horder : topologicalOrder tasks = ss.flatten) :
    heaviest tasks = ss.filterMap (List.argmax (duration tasks)) := by
  have hstage (n : Nat) : ss.flatten.filter (fun t => decide (levelOf tasks t = n)) = ss[n]?.getD [] := by
    have := filter_flatten (levelOf tasks) (n := 0) (fun i stage hi t ht => by
      rw [levelOf_stage hlayered hlength hi ht, Nat.zero_add]) n
    rwa [Nat.zero_add] at this
  rw [heaviest, horder, ← filterMap_range (f := List.argmax (duration tasks)) rfl hlength]
  simp only [hstage]

section
variable {dur : String → Rat} {ss : List (List String)}

theorem le_best {stage : List String} (h : ∀ t ∈ stage, 0 < dur t) {t : String} (ht : t ∈ stage) :
    dur t ≤ (best dur stage).1 := by
  rw [best_eq h]
  cases hmax : stage.argmax dur with
  | none =>
    rw [List.argmax_eq_none.1 hmax] at ht
    cases ht
  | some m => exact List.le_of_mem_argmax ht hmax

theorem best_nonneg {stage : List String} (h : ∀ t ∈ stage, 0 < dur t) : 0 ≤ (best dur stage).1 := by
  cases stage with
  | nil => exact le_rfl
  | cons t stage => exact (h t (.head _)).le.trans (le_best h (.head _))

/-- **The critical path** has the heaviest task of each stage, if it has an id. -/
theorem named_best (h : ∀ stage ∈ ss, ∀ t ∈ stage, 0 < dur t) :
    named (ss.map fun stage => (best dur stage).2) = named (ss.filterMap (List.argmax dur)) := by
  induction ss with
  | nil => rfl
  | cons stage ss ih =>
    obtain ⟨hstage, hss⟩ := List.forall_mem_cons.1 h
    rw [List.map_cons, List.filterMap_cons, best_eq hstage]
    cases stage.argmax dur with
    | none => exact ih hss
    | some t =>
      dsimp only
      rw [named, named, List.filter_cons, List.filter_cons, ← named, ← named, ih hss]

theorem sum_best (h : ∀ stage ∈ ss, ∀ t ∈ stage, 0 < dur t) :
    ((ss.filterMap (List.argmax dur)).map dur).sum = (ss.map fun stage => (best dur stage).1).sum := by
  induction ss with
  | nil => rfl
  | cons stage ss ih =>
    obtain ⟨hstage, hss⟩ := List.forall_mem_cons.1 h
    rw [List.map_cons, List.sum_cons, List.filterMap_cons, best_eq hstage, ← ih hss]
    cases stage.argmax dur with
    | none => exact (zero_add _).symm
    | some t => rfl

end

/-- **No chain lasts longer** than the heaviest tasks of all levels together. -/
theorem total_le_heaviest {tasks : List WfTask} {ss : List (List String)}
    (hpos : ∀ stage ∈ ss, ∀ t ∈ stage, 0 < duration tasks t) (hmem : ∀ t, t ∈ ss.flatten ↔ t ∈ taskIds tasks)
    (hlayered : Layered (graphOf tasks) [] ss) (hlength : ss.length ≤ tasks.length) {chain : List String}
    (hchain : Chain tasks chain) : total tasks chain ≤ total tasks (ss.filterMap (List.argmax (duration tasks))) := by
  have hstage {t : String} (ht : t ∈ taskIds tasks) : ∃ stage, ss[levelOf tasks t]? = some stage ∧ t ∈ stage := by
    obtain ⟨stage, hstage, hin⟩ := List.mem_flatten.1 ((hmem t).2 ht)
    obtain ⟨i, hi⟩ := List.mem_iff_getElem?.1 hstage
    exact ⟨stage, by rwa [levelOf_stage hlayered hlength hi hin], hin⟩
  have hlevels : chain.IsChain fun a b => levelOf tasks a < levelOf tasks b := by
    refine hchain.2.imp fun a b hdep => ?_
    obtain ⟨stage, hj, hb⟩ := hstage (mem_taskIds_of_depends hdep).1
    rcases earlier_of_mem hlayered hj hb (mem_depsOf.2 hdep) with hnil | ⟨i, hi, earlier, hearlier, ha⟩
    · cases hnil
    · rwa [levelOf_stage hlayered hlength hearlier ha]
  rw [total, total, sum_best hpos, ← sum_range_getElem fun stage => (best (duration tasks) stage).1]
  refine weight_le hlevels (fun t ht => ?_) (fun t ht => ?_) fun i => ?_
  · obtain ⟨stage, hi, -⟩ := hstage (hchain.1 t ht)
    exact (List.getElem?_eq_some_iff.1 hi).1
  · obtain ⟨stage, hi, hin⟩ := hstage (hchain.1 t ht)
    rw [hi]
    exact le_best (hpos stage (List.mem_of_getElem? hi)) hin
  · cases hi : ss[i]? with
    | none => exact le_rfl
    | some stage => exact best_nonneg (hpos stage (List.mem_of_getElem? hi))

/-! ## When the path is critical -/

/-- **The critical path is a longest chain** iff the heaviest tasks of the levels
depend on each other in turn. -/
theorem planned_iff (tasks : List WfTask) (hacyclic : ∀ t, ¬ OnCycle tasks t)
    (hpositive : ∀ t ∈ tasks, 0 < t.estimatedDurationMs) :
    (∃ plan, (∀ fuel, tasks.length ≤ fuel → optimizeParallelExecution fuel tasks = some plan) ∧
      Planned tasks plan) ↔ Aligned tasks := by
  obtain ⟨ss, hends, hnodup, hmem, hlength, hlayered, horder⟩ := stages_spec hacyclic
  have hpos : ∀ stage ∈ ss, ∀ t ∈ stage, 0 < duration tasks t := fun stage hstage t ht =>
    duration_pos hpositive ((hmem t).1 (List.mem_flatten.2 ⟨stage, hstage, ht⟩))
  have hheaviest := heaviest_eq hlayered hlength horder
  obtain ⟨hstages, hpath⟩ := foldl_addStage (duration tasks) ss ⟨[], 1, 0, []⟩
  rw [List.nil_append, ← named, named_best hpos, ← hheaviest] at hpath
  have hle {chain : List String} (hchain : Chain tasks chain) : total tasks chain ≤ total tasks (heaviest tasks) := by
    rw [hheaviest]
    exact total_le_heaviest hpos hmem hlayered hlength hchain
  constructor
  · rintro ⟨plan, hplan, hplanned⟩
    obtain rfl : plan = executionPlan tasks (ss.foldl (addStage (duration tasks)) ⟨[], 1, 0, []⟩) :=
      Option.some.inj ((hplan _ le_rfl).symm.trans (hends _ le_rfl))
    have hchain := hplanned.chain
    have hlongest := hplanned.longest
    rw [executionPlan, hpath] at hchain hlongest
    exact ⟨hchain, fun _ => hlongest⟩
  · rintro ⟨hchain, hunnamed⟩
    refine ⟨_, hends, ?_⟩
    rw [executionPlan, hpath, hstages, List.nil_append]
    refine ⟨hnodup, hmem, fun j stage hj t ht d hd => ?_, hchain, fun chain hc => ?_⟩
    · exact (earlier_of_mem hlayered hj ht (mem_depsOf.2 hd)).resolve_left List.not_mem_nil
    · by_cases hempty : "" ∈ heaviest tasks
      · exact hunnamed hempty chain hc
      · have hall : named (heaviest tasks) = heaviest tasks :=
          List.filter_eq_self.2 fun t ht => decide_eq_true fun h => hempty (h ▸ ht)
        rw [hall]
        exact hle hc

/-- No cycle where the tasks that are waited for wait for none. -/
theorem acyclic_of_flat {tasks : List WfTask}
    (h : ∀ task ∈ tasks, ∀ d ∈ task.dependencies, ∀ other ∈ tasks, other.id = d → other.dependencies = []) (t : String) :
    ¬ OnCycle tasks t := by
  intro hcycle
  obtain ⟨u, -, task, htask, -, ht, -⟩ := Relation.TransGen.tail'_iff.1 hcycle
  obtain ⟨d, ⟨other, hother, hid, hd, -⟩, -⟩ := Relation.TransGen.head'_iff.1 hcycle
  rw [h task htask t ht other hother hid] at hd
  cases hd

/-- A task and one that waits for it. -/
def line : List WfTask := [⟨"a", "A", 1, []⟩, ⟨"b", "B", 2, ["a"]⟩]

theorem keys_line : keys line = ["a", "b"] := List.mergeSort_of_pairwise (by decide)

theorem heaviest_line : heaviest line = ["a", "b"] := by
  rw [heaviest, topologicalOrder, resolveDependencies, start, keys_line]
  decide +kernel

theorem line_planned : ∃ plan, (∀ fuel, line.length ≤ fuel → optimizeParallelExecution fuel line = some plan) ∧
    Planned line plan := by
  refine (planned_iff line (acyclic_of_flat (by decide)) (by decide)).2 ?_
  rw [Aligned, heaviest_line]
  have hdep : Depends line "b" "a" := ⟨⟨"b", "B", 2, ["a"]⟩, by decide, rfl, .head _, by decide⟩
  exact ⟨⟨by decide, .cons_cons hdep (.singleton _)⟩, fun h => absurd h (by decide)⟩

/-- Two tasks without dependencies; a third one waits for the shorter of them. -/
def fork : List WfTask := [⟨"a", "A", 1, []⟩, ⟨"b", "B", 10, []⟩, ⟨"c", "C", 1, ["a"]⟩]

theorem keys_fork : keys fork = ["a", "b", "c"] := List.mergeSort_of_pairwise (by decide)

theorem fork_plan : optimizeParallelExecution 3 fork = some ⟨[["a", "b"], ["c"]], 12 / 11, 2, ["b", "c"]⟩ := by
  rw [optimizeParallelExecution, start, keys_fork]
  decide +kernel

/-- **The path has two tasks** that have nothing to do with each other. -/
theorem unrelated_tasks : (taskIds fork).Nodup ∧ (∀ t, ¬ OnCycle fork t) ∧ (∀ t ∈ fork, 0 < t.estimatedDurationMs) ∧
    ¬ ∃ plan, (∀ fuel, fork.length ≤ fuel → optimizeParallelExecution fuel fork = some plan) ∧ Planned fork plan := by
  refine ⟨by decide, acyclic_of_flat (by decide), by decide, ?_⟩
  rintro ⟨plan, hplan, hplanned⟩
  obtain rfl := Option.some.inj ((hplan 3 le_rfl).symm.trans fork_plan)
  obtain ⟨task, htask, hid, hb, -⟩ := List.isChain_pair.1 hplanned.chain.2
  have hnone : ∀ task ∈ fork, "b" ∉ task.dependencies := by decide
  exact hnone task htask hb

end NekoEcat.L4.ParallelPlan
