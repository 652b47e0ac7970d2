import Devit.DaemonState
import Devit.Library.Search
import Devit.Library.Substitution

/-! The arguments of a worker's command line. Their placeholders are replaced one kind after
the other, so what an inserted value says about a later kind is replaced as well: a goal that
names `{workspace}` is given to the worker with the workspace's path instead. -/
namespace Devit
open Text

/-- What a worker is started with. -/
structure WorkerConfig where
  binary : Text
  args : List Text

namespace WorkerTemplates

def goalMark : Text := "\x7bgoal\x7d".toList
def workspaceMark : Text := "\x7bworkspace\x7d".toList
def taskIdMark : Text := "\x7btask_id\x7d".toList
def modelMark : Text := "\x7bmodel\x7d".toList

def replacePlaceholders (config : WorkerConfig) (arg : Text) (task : WorkerTask)
    (workspace model : Option Text) : Except Text Text :=
  let replaced := replace goalMark task.goal arg
  let replaced :=
    match workspace, task.workingDir with
    | some ws, _ => replace workspaceMark ws replaced
    | none, some workingDir => replace workspaceMark workingDir replaced
    | none, none => replaced
  let replaced := replace taskIdMark task.id replaced
  if contains modelMark replaced then
    match model with
    | none =>
      .error ("worker '".toList ++ config.binary ++
        "' requires a model but none was resolved".toList)
    | some value => .ok (replace modelMark value replaced)
  else .ok replaced

def prepareArgs (config : WorkerConfig) (task : WorkerTask) (workspace : Option Text)
    (appendGoal : Bool) (model : Option Text) : Except Text (List Text) :=
  let goalPlaceholder := config.args.any (contains goalMark)
  let modelPlaceholder := config.args.any (contains modelMark)
  if modelPlaceholder = true ∧ model = none then
    .error ("worker '".toList ++ config.binary ++ ("' requires a model but none was provided " ++
      "(configure default_model or pass model override)").toList)
  else
    match config.args.mapM fun arg => replacePlaceholders config arg task workspace model with
    | .error e => .error e
    | .ok args =>
      .ok (if appendGoal = true ∧ goalPlaceholder = false then args ++ [task.goal] else args)

/-! ## What it is for -/

/-- The value of each placeholder. -/
def rules (goal workspace taskId model : Text) : List (Text × Text) :=
  [(goalMark, goal), (workspaceMark, workspace), (taskIdMark, taskId), (modelMark, model)]

/-- The template with all placeholders replaced at once. -/
def filled (goal workspace taskId model arg : Text) : Text :=
  substitute (rules goal workspace taskId model) arg

/-- No value that is inserted brings about a placeholder that is replaced later. -/
structure Untouched (goal workspace taskId arg : Text) : Prop where
  workspaces : occurrences workspaceMark (substitute [(goalMark, goal)] arg) =
    occurrences workspaceMark arg
  taskIds : occurrences taskIdMark
      (substitute [(goalMark, goal), (workspaceMark, workspace)] arg) =
    occurrences taskIdMark arg
  models : occurrences modelMark
      (substitute [(goalMark, goal), (workspaceMark, workspace), (taskIdMark, taskId)] arg) =
    occurrences modelMark arg

variable {config : WorkerConfig} {task : WorkerTask} {workspace : Option Text}
  {goal ws taskId model arg : Text}

/-! ## One placeholder after the other -/

def marks : List Text := [goalMark, workspaceMark, taskIdMark, modelMark]

theorem marks_marked : ∀ mark ∈ marks, Marked '\x7b' mark := by
  intro mark member
  simp only [marks, List.mem_cons, List.not_mem_nil, or_false] at member
  rcases member with rfl | rfl | rfl | rfl
  · exact ⟨"goal\x7d".toList, rfl, by decide⟩
  · exact ⟨"workspace\x7d".toList, rfl, by decide⟩
  · exact ⟨"task_id\x7d".toList, rfl, by decide⟩
  · exact ⟨"model\x7d".toList, rfl, by decide⟩

theorem marks_apart : ∀ mark ∈ marks, ∀ other ∈ marks, other ≠ mark → Apart mark other := by
  have none_begins : ∀ mark ∈ marks, ∀ other ∈ marks, other ≠ mark →
      ¬ mark <+: other ∧ ¬ other <+: mark := by
    decide
  exact none_begins

theorem distinct {mark : Text} {replaced : List (Text × Text)} (member : mark ∈ marks)
    (others : ∀ rule ∈ replaced, rule.1 ∈ marks ∧ rule.1 ≠ mark) :
    Distinct '\x7b' mark replaced :=
  ⟨marks_marked mark member, fun rule inside => ⟨marks_marked _ (others rule inside).1,
    marks_apart mark member _ (others rule inside).1 (others rule inside).2⟩⟩

theorem workspace_distinct : Distinct '\x7b' workspaceMark [(goalMark, goal)] := by
  refine distinct (by decide) ?_
  simp only [List.forall_mem_cons]
  exact ⟨by decide, nofun⟩

theorem taskId_distinct :
    Distinct '\x7b' taskIdMark [(goalMark, goal), (workspaceMark, ws)] := by
  refine distinct (by decide) ?_
  simp only [List.forall_mem_cons]
  exact ⟨by decide, by decide, nofun⟩

theorem model_distinct :
    Distinct '\x7b' modelMark [(goalMark, goal), (workspaceMark, ws), (taskIdMark, taskId)] := by
  refine distinct (by decide) ?_
  simp only [List.forall_mem_cons]
  exact ⟨by decide, by decide, by decide, nofun⟩

/-- The four replacements, one after the other. -/
def chained (goal ws taskId model arg : Text) : Text :=
  replace modelMark model (replace taskIdMark taskId (replace workspaceMark ws
    (replace goalMark goal arg)))

theorem replacePlaceholders_given (given : workspace.or task.workingDir = some ws) :
    replacePlaceholders config arg task workspace (some model) =
      .ok (chained task.goal ws task.id model arg) := by
  have last : ∀ s : Text, (if contains modelMark s then
      Except.ok (ε := Text) (replace modelMark model s) else .ok s) =
      .ok (replace modelMark model s) := by
    intro s
    split
    · rfl
    · rename_i absent
      rw [replace_absent (Bool.eq_false_iff.mpr absent)]
  unfold replacePlaceholders
  cases workspace with
  | some _ =>
    cases given
    exact last _
  | none =>
    rw [Option.none_or] at given
    simp only [given]
    exact last _

/-- Where nothing inserted is replaced again, the chain replaces all at once. -/
theorem chained_untouched (untouched : Untouched goal ws taskId arg) :
    chained goal ws taskId model arg = filled goal ws taskId model arg := by
  rw [chained, @replace_eq_substitute goalMark,
    replace_substitute workspace_distinct _ untouched.workspaces,
    List.singleton_append, replace_substitute taskId_distinct _ untouched.taskIds,
    List.cons_append, List.singleton_append,
    replace_substitute model_distinct _ untouched.models]
  rfl

/-- A value without an opening brace takes one away with each placeholder. -/
theorem count_replaced {mark value : Text} (member : mark ∈ marks) (plain : '\x7b' ∉ value)
    (s : Text) : (replace mark value s).count '\x7b' + occurrences mark s = s.count '\x7b' := by
  have none_other : ∀ s : Text, substitute [] s = s := by
    intro s
    induction s with
    | nil => rfl
    | cons c s ih => exact congrArg (c :: ·) ih
  have counted := count_substitute (distinct member nofun : Distinct '\x7b' mark []) plain s
  rw [none_other] at counted
  rw [replace_eq_substitute]
  exact counted

/-- The placeholders of another kind stay. -/
theorem occurrences_replaced {mark other : Text} (value : Text) (member : mark ∈ marks)
    (member' : other ∈ marks) (apart : other ≠ mark) (s : Text) :
    occurrences mark s ≤ occurrences mark (replace other value s) := by
  rw [replace_eq_substitute]
  refine occurrences_substitute_le (distinct member fun rule inside => ?_) s
  obtain rfl := List.mem_singleton.mp inside
  exact ⟨member', apart⟩

/-- **Counting.** Each placeholder that is replaced takes an opening brace away; where one more
is replaced than the template has, the result has one less. -/
theorem untouched_of_chained (ws_plain : '\x7b' ∉ ws) (taskId_plain : '\x7b' ∉ taskId)
    (model_plain : '\x7b' ∉ model)
    (same : chained goal ws taskId model arg = filled goal ws taskId model arg) :
    Untouched goal ws taskId arg := by
  have braces : (chained goal ws taskId model arg).count '\x7b' =
      (filled goal ws taskId model arg).count '\x7b' := by rw [same]
  -- what is replaced at once: as many of each kind as the template has
  have all : (filled goal ws taskId model arg).count '\x7b' + occurrences modelMark arg =
      (substitute [(goalMark, goal), (workspaceMark, ws), (taskIdMark, taskId)] arg).count '\x7b' :=
    count_substitute model_distinct model_plain arg
  have most : (substitute [(goalMark, goal), (workspaceMark, ws), (taskIdMark, taskId)]
        arg).count '\x7b' + occurrences taskIdMark arg =
      (substitute [(goalMark, goal), (workspaceMark, ws)] arg).count '\x7b' :=
    count_substitute taskId_distinct taskId_plain arg
  have few : (substitute [(goalMark, goal), (workspaceMark, ws)] arg).count '\x7b' +
      occurrences workspaceMark arg = (replace goalMark goal arg).count '\x7b' := by
    rw [replace_eq_substitute]
    exact count_substitute workspace_distinct ws_plain arg
  -- what the chain replaces: no fewer of any kind
  obtain ⟨afterGoal, goals⟩ : ∃ s, s = replace goalMark goal arg := ⟨_, rfl⟩
  obtain ⟨afterWorkspace, workspaces⟩ : ∃ s, s = replace workspaceMark ws afterGoal := ⟨_, rfl⟩
  obtain ⟨afterTaskId, taskIds⟩ : ∃ s, s = replace taskIdMark taskId afterWorkspace := ⟨_, rfl⟩
  have spaces_kept : occurrences workspaceMark arg ≤ occurrences workspaceMark afterGoal := by
    rw [goals]
    exact occurrences_replaced goal (by decide) (by decide) (by decide) arg
  have ids_kept : occurrences taskIdMark arg ≤ occurrences taskIdMark afterWorkspace := by
    rw [workspaces, goals]
    exact (occurrences_replaced goal (by decide) (by decide) (by decide) _).trans
      (occurrences_replaced ws (by decide) (by decide) (by decide) _)
  have models_kept : occurrences modelMark arg ≤ occurrences modelMark afterTaskId := by
    rw [taskIds, workspaces, goals]
    exact (occurrences_replaced goal (by decide) (by decide) (by decide) _).trans
      ((occurrences_replaced ws (by decide) (by decide) (by decide) _).trans
        (occurrences_replaced taskId (by decide) (by decide) (by decide) _))
  have fourth : (chained goal ws taskId model arg).count '\x7b' +
      occurrences modelMark afterTaskId = afterTaskId.count '\x7b' := by
    rw [taskIds, workspaces, goals]
    exact count_replaced (by decide) model_plain _
  have third : afterTaskId.count '\x7b' + occurrences taskIdMark afterWorkspace =
      afterWorkspace.count '\x7b' := by
    rw [taskIds]
    exact count_replaced (by decide) taskId_plain _
  have second : afterWorkspace.count '\x7b' + occurrences workspaceMark afterGoal =
      afterGoal.count '\x7b' := by
    rw [workspaces]
    exact count_replaced (by decide) ws_plain _
  rw [← goals] at few
  have ws_same : occurrences workspaceMark (substitute [(goalMark, goal)] arg) =
      occurrences workspaceMark arg := by
    rw [← replace_eq_substitute, ← goals]
    omega
  have spelled : afterWorkspace = substitute [(goalMark, goal), (workspaceMark, ws)] arg := by
    rw [workspaces, goals, @replace_eq_substitute goalMark]
    exact replace_substitute workspace_distinct arg ws_same
  have id_same : occurrences taskIdMark
      (substitute [(goalMark, goal), (workspaceMark, ws)] arg) = occurrences taskIdMark arg := by
    rw [← spelled]
    omega
  have written : afterTaskId =
      substitute [(goalMark, goal), (workspaceMark, ws), (taskIdMark, taskId)] arg := by
    rw [taskIds, spelled]
    exact replace_substitute taskId_distinct arg id_same
  refine ⟨ws_same, id_same, ?_⟩
  rw [← written]
  omega

/-- **Templates.** With the workspace and the model given, the placeholders are replaced at
once if no inserted value brings about a placeholder that is replaced later; where no value
but the goal has an opening brace, only then. -/
theorem replaced_at_once_iff (given : workspace.or task.workingDir = some ws) :
    (Untouched task.goal ws task.id arg →
      replacePlaceholders config arg task workspace (some model) =
        .ok (filled task.goal ws task.id model arg)) ∧
    ('\x7b' ∉ ws → '\x7b' ∉ task.id → '\x7b' ∉ model →
      (replacePlaceholders config arg task workspace (some model) =
          .ok (filled task.goal ws task.id model arg) ↔
        Untouched task.goal ws task.id arg)) := by
  rw [replacePlaceholders_given given]
  constructor
  · intro untouched
    rw [chained_untouched untouched]
  · intro ws_plain id_plain model_plain
    refine ⟨fun same => ?_, fun untouched => by rw [chained_untouched untouched]⟩
    exact untouched_of_chained ws_plain id_plain model_plain (Except.ok.inj same)

/-- A task with a goal that no placeholder is in, or one. -/
def taskWithGoal (goal : String) : WorkerTask :=
  ⟨"t".toList, goal.toList, "w".toList, none, none, none, none, 0, none, none⟩

/-- A goal without placeholders is inserted as it is. -/
theorem plain_goal_inserted :
    replacePlaceholders ⟨"codex".toList, []⟩ "\x7bgoal\x7d in \x7bworkspace\x7d".toList
        (taskWithGoal "tidy") (some "/w".toList) (some "m".toList) =
      .ok "tidy in /w".toList := by
  refine ((replaced_at_once_iff rfl).1 ?_).trans (by decide +kernel)
  exact ⟨by decide +kernel, by decide +kernel, by decide +kernel⟩

/-- A goal that names a placeholder is rewritten. -/
theorem goal_rewritten :
    replacePlaceholders ⟨"codex".toList, []⟩ "\x7bgoal\x7d".toList
        (taskWithGoal "explain \x7bworkspace\x7d") (some "/w".toList) (some "m".toList) =
      .ok "explain /w".toList ∧
    filled "explain \x7bworkspace\x7d".toList "/w".toList "t".toList "m".toList
        "\x7bgoal\x7d".toList = "explain \x7bworkspace\x7d".toList := by
  decide +kernel

/-! ## The command line -/

/-- Where no template has a value rewritten, the arguments are the templates with all
placeholders replaced at once, followed by the goal if none names it. -/
theorem prepareArgs_untouched (given : workspace.or task.workingDir = some ws) (appendGoal : Bool)
    (untouched : ∀ arg ∈ config.args, Untouched task.goal ws task.id arg) :
    prepareArgs config task workspace appendGoal (some model) =
      .ok (config.args.map (filled task.goal ws task.id model) ++
        if appendGoal = true ∧ config.args.any (contains goalMark) = false then [task.goal]
        else []) := by
  have each : ∀ args : List Text, (∀ arg ∈ args, Untouched task.goal ws task.id arg) →
      (args.mapM fun arg => replacePlaceholders config arg task workspace (some model)) =
        .ok (args.map (filled task.goal ws task.id model)) := by
    intro args
    induction args with
    | nil => exact fun _ => rfl
    | cons arg args ih =>
      intro all
      obtain ⟨first, later⟩ := List.forall_mem_cons.mp all
      rw [List.mapM_cons, replacePlaceholders_given given, chained_untouched first, ih later]
      rfl
  rw [prepareArgs, if_neg (by simp), each config.args untouched]
  dsimp only
  split
  · rfl
  · rw [List.append_nil]

/-- A goal that names the model is refused where no model is given, though no template asks
for one. -/
theorem model_goal_refused :
    prepareArgs ⟨"codex".toList, ["\x7bgoal\x7d".toList]⟩ (taskWithGoal "say \x7bmodel\x7d")
        (some "/w".toList) true none =
      .error "worker 'codex' requires a model but none was resolved".toList := by
  decide +kernel

end WorkerTemplates

end Devit
