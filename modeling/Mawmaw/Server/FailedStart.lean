import Mawmaw.Server.Windows

/-!
# A start that fails

`start_pipeline` starts the script threads before it finds out that no ingestor was loaded.

* `WorkerThread`, `destroyThreads` : the thread objects and their destruction;
* `startThreads`, `startPipelineThreads` : a start with the threads it leaves behind;
  `startPipelineThreads_threw_iff`, `startPipelineThreads_started_iff`;
* `FieldsRead` : no reference to a value that is gone is read;
* `firstStart` : what `main` makes of it;
* `fails_cleanly_iff` : when a failed start reaches the handler with nothing running.
-/

namespace Mawmaw.Server
open Mawmaw.Lib Mawmaw.Conf Mawmaw.Core Mawmaw.Pub

variable {P : Nat}

/-! ## Threads -/

/-- A `std::thread` that runs the worker of one script queue. -/
structure WorkerThread where
  queueIdx : Nat
  stopped : Bool := false
  joined : Bool := false
  deriving DecidableEq, Repr

def WorkerThread.joinable (t : WorkerThread) : Bool := !t.joined

/-- What becomes of the exception that leaves a scope with these threads: destroying a joinable
thread calls `std::terminate`. -/
inductive Unwound
  | propagates
  | terminates
  deriving DecidableEq, Repr

def destroyThreads (threads : List WorkerThread) : Unwound :=
  if threads.any WorkerThread.joinable then .terminates else .propagates

/-- One thread for each script, on the script's queue. -/
def startThreads (s : PipelineState P) : List WorkerThread :=
  (List.range s.scriptData.length).map fun i => { queueIdx := i }

/-- The part of `stop_pipeline` about the threads. -/
def stopThreads (threads : List WorkerThread) : List WorkerThread :=
  threads.map fun t => { t with stopped := true, joined := true }

/-- Stopped threads can be destroyed. -/
theorem destroyThreads_stopThreads (threads : List WorkerThread) :
    destroyThreads (stopThreads threads) = .propagates := by
  unfold destroyThreads stopThreads
  rw [if_neg]
  simp [WorkerThread.joinable]

/-! ## Starting -/

/-- The references a start keeps of a `[script]` section, in the order in which it tests them. -/
def scriptRefs : List Str := [lit "id", lit "runtime", lit "path", lit "trigger"]

/-- Those of an `[ingestor]` section: unless `plugin` is empty, `id` is printed, whether the plugin is
loaded or not. -/
def ingestorRefs : List Str := [lit "plugin", lit "id"]

/-- A start with the script threads as they are when it ends. -/
inductive StartEnd (P : Nat)
  | started (s : PipelineState P) (threads : List WorkerThread)
  | threw (error : Str) (threads : List WorkerThread)
  | undefined

/-- A value that is gone is read, in either loop: the behaviour is undefined. -/
def startPipelineThreads (env : Environment P) (cfg : Config) : StartEnd P :=
  let s := createPublishers env cfg { router := setUpRouter cfg }
  if (cfg.ofType (lit "script")).any (·.readsMissing scriptRefs) then .undefined
  else
    let s := createScripts env cfg s
    let threads := startThreads s
    if (cfg.ofType (lit "ingestor")).any (·.readsMissing ingestorRefs) then .undefined
    else
      let s := startIngestors env cfg s
      if s.plugins.isEmpty then .threw (lit "No ingestors loaded") threads else .started s threads

/-- How `main` goes on after its first start. -/
inductive FirstStart (P : Nat)
  | running (s : PipelineState P) (threads : List WorkerThread)
  | exited (cerr : Str) (code : Nat)
  | terminated
  | undefined

def firstStart (env : Environment P) (cfg : Config) : FirstStart P :=
  match startPipelineThreads env cfg with
  | .started s threads => .running s threads
  | .threw error threads =>
    match destroyThreads threads with
    | .terminates => .terminated
    | .propagates => .exited (lit "Failed to start pipeline: " ++ error ++ lit "\n") 1
  | .undefined => .undefined

/-- No section makes a start read a field it lacks. -/
def FieldsRead (cfg : Config) : Prop :=
  (∀ sec ∈ cfg.ofType (lit "script"), sec.readsMissing scriptRefs = false) ∧
    ∀ sec ∈ cfg.ofType (lit "ingestor"), sec.readsMissing ingestorRefs = false

theorem any_readsMissing {secs : List Section} {refs : List Str} :
    secs.any (·.readsMissing refs) = false ↔ ∀ sec ∈ secs, sec.readsMissing refs = false := by
  simp

/-- The script threads of a start. -/
def threadsOf (env : Environment P) (cfg : Config) : List WorkerThread :=
  startThreads (createScripts env cfg (createPublishers env cfg { router := setUpRouter cfg }))

/-- A start throws where `startPipeline` fails, with its script threads. -/
theorem startPipelineThreads_threw_iff {env : Environment P} {cfg : Config} {error : Str}
    {threads : List WorkerThread} : startPipelineThreads env cfg = .threw error threads ↔
      FieldsRead cfg ∧ startPipeline env cfg = .error error ∧ threads = threadsOf env cfg := by
  unfold startPipelineThreads FieldsRead threadsOf startPipeline
  rw [← any_readsMissing, ← any_readsMissing]
  dsimp only
  cases (cfg.ofType (lit "script")).any (·.readsMissing scriptRefs) with
  | true => simp
  | false =>
      cases (cfg.ofType (lit "ingestor")).any (·.readsMissing ingestorRefs) with
      | true => simp
      | false =>
          simp only [Bool.false_eq_true, if_false, true_and]
          split
          · rw [StartEnd.threw.injEq, Except.error.injEq, eq_comm (b := threads)]
          · exact iff_of_false nofun fun hok => nomatch hok.1

/-- It succeeds where `startPipeline` does. -/
theorem startPipelineThreads_started_iff {env : Environment P} {cfg : Config} {s : PipelineState P}
    {threads : List WorkerThread} : startPipelineThreads env cfg = .started s threads ↔
      FieldsRead cfg ∧ startPipeline env cfg = .ok s ∧ threads = threadsOf env cfg := by
  unfold startPipelineThreads FieldsRead threadsOf startPipeline
  rw [← any_readsMissing, ← any_readsMissing]
  dsimp only
  cases (cfg.ofType (lit "script")).any (·.readsMissing scriptRefs) with
  | true => simp
  | false =>
      cases (cfg.ofType (lit "ingestor")).any (·.readsMissing ingestorRefs) with
      | true => simp
      | false =>
          simp only [Bool.false_eq_true, if_false, true_and]
          split
          · exact iff_of_false nofun fun herror => nomatch herror.1
          · rw [StartEnd.started.injEq, Except.ok.injEq, eq_comm (b := threads)]

/-! ## What a failed start leaves -/

/-- The start threw, every thread it started was stopped and joined by then, and the handler of
`main` is reached. -/
def FailsCleanly (env : Environment P) (cfg : Config) : Prop :=
  ∃ error threads, startPipelineThreads env cfg = .threw error threads ∧
    (∀ t ∈ threads, t.stopped = true ∧ t.joined = true) ∧
    firstStart env cfg = .exited (lit "Failed to start pipeline: " ++ error ++ lit "\n") 1

theorem scriptData_createScript_eq_nil {env : Environment P} {s : PipelineState P}
    {sec : Section} : (createScript env s sec).scriptData = [] ↔
      s.scriptData = [] ∧ ∃ line, makeScript env sec = .error line := by
  unfold createScript
  cases makeScript env sec with
  | error line =>
      exact ⟨fun h => ⟨h, line, rfl⟩, fun h => h.1⟩
  | ok script =>
      have happend : (registerScript s sec script).scriptData ≠ [] :=
        List.append_ne_nil_of_right_ne_nil _ (List.cons_ne_nil _ _)
      exact iff_of_false happend fun ⟨_, line, hline⟩ => nomatch hline

/-- No script thread is made exactly if no script section loads. -/
theorem scriptData_foldl_eq_nil {env : Environment P} (secs : List Section) :
    ∀ s : PipelineState P, (secs.foldl (createScript env) s).scriptData = [] ↔
      s.scriptData = [] ∧ ∀ sec ∈ secs, ∃ line, makeScript env sec = .error line := by
  induction secs with
  | nil =>
      intro s
      simp
  | cons sec secs ih =>
      intro s
      rw [List.foldl_cons, ih, scriptData_createScript_eq_nil, List.forall_mem_cons, and_assoc]

theorem startThreads_eq_nil {s : PipelineState P} : startThreads s = [] ↔ s.scriptData = [] := by
  rw [startThreads, List.map_eq_nil_iff, List.range_eq_nil, List.length_eq_zero_iff]

theorem threadsOf_eq_nil {env : Environment P} {cfg : Config} : threadsOf env cfg = [] ↔
    ∀ sec ∈ cfg.ofType (lit "script"), ∃ line, makeScript env sec = .error line := by
  have hfresh : (createPublishers env cfg { router := setUpRouter cfg }).scriptData = [] :=
    @createPublishers_keeps P (fun s => s.scriptData = []) env cfg _ (fun _ _ hs => hs)
      (fun _ _ hs => hs) rfl
  rw [threadsOf, startThreads_eq_nil, createScripts, scriptData_foldl_eq_nil]
  exact and_iff_right hfresh

/-- A start that does not succeed either throws or has read a field its section lacks. -/
theorem startPipeline_error_of_fieldsRead {env : Environment P} {cfg : Config}
    (h : ∀ s threads, startPipelineThreads env cfg ≠ .started s threads) (hread : FieldsRead cfg) :
    ∃ error, startPipeline env cfg = .error error := by
  cases hstart : startPipeline env cfg with
  | error error => exact ⟨error, rfl⟩
  | ok s => exact absurd (startPipelineThreads_started_iff.mpr ⟨hread, hstart, rfl⟩) (h s _)

/-- **A failed start.** When `start_pipeline` does not succeed, it throws, with the threads it started
stopped and joined and the handler of `main` reached, exactly if no section is read at a field it lacks
and no script of the configuration was loaded. -/
theorem fails_cleanly_iff {env : Environment P} {cfg : Config}
    (h : ∀ s threads, startPipelineThreads env cfg ≠ .started s threads) : FailsCleanly env cfg ↔
      FieldsRead cfg ∧
        ∀ sec ∈ cfg.ofType (lit "script"), ∃ line, makeScript env sec = .error line := by
  rw [← threadsOf_eq_nil]
  constructor
  · rintro ⟨error, threads, hthrew, hclean, -⟩
    obtain ⟨hread, -, rfl⟩ := startPipelineThreads_threw_iff.mp hthrew
    refine ⟨hread, ?_⟩
    -- the threads are as they were started: none of them was stopped
    rw [List.eq_nil_iff_forall_not_mem]
    intro t ht
    obtain ⟨i, -, rfl⟩ := List.mem_map.mp ht
    exact Bool.false_ne_true (hclean _ ht).1
  · rintro ⟨hread, hnil⟩
    obtain ⟨error, herror⟩ := startPipeline_error_of_fieldsRead h hread
    have hthrew : startPipelineThreads env cfg = .threw error [] :=
      startPipelineThreads_threw_iff.mpr ⟨hread, herror, hnil.symm⟩
    refine ⟨error, [], hthrew, nofun, ?_⟩
    rw [firstStart, hthrew]
    rfl

/-- An environment in which no script and no plugin can be loaded. -/
def brokenEnv : Environment 1 :=
  { sampleEnv with
    loadPython := fun _ _ => .error (lit "no module")
    loadPlugin := fun _ => .error (lit "no such file") }

/-- Three scripts, one of which fails to load, one has an unknown runtime and one no path, and two
ingestors, one of which fails and one has an empty plugin. -/
def brokenConfig : Config where
  sections := [sampleSection,
    { sampleSection with kv := sampleSection.kv.insert (lit "runtime") (lit "ruby") },
    { sampleSection with kv := sampleSection.kv.insert (lit "path") [] },
    ingestorSection (lit "i.so") (lit "s"),
    { type := lit "ingestor", kv := (∅ : UMap Str Str).insert (lit "plugin") [] }]

theorem fails_cleanly_iff_broken : FailsCleanly brokenEnv brokenConfig := by
  have hthrew : startPipelineThreads brokenEnv brokenConfig
      = .threw (lit "No ingestors loaded") [] := rfl
  refine (@fails_cleanly_iff 1 brokenEnv brokenConfig fun s threads h => ?_).mpr
    ⟨by unfold FieldsRead; decide +kernel, threadsOf_eq_nil.mp rfl⟩
  rw [hthrew] at h
  cases h

/-- A script that loads and no ingestor: the program is terminated. -/
theorem failed_start_terminates :
    ¬ ∀ (env : Environment 1) (cfg : Config) (error : Str) (threads : List WorkerThread),
      startPipelineThreads env cfg = .threw error threads → FailsCleanly env cfg := by
  intro h
  obtain ⟨error, threads, -, -, hreached⟩ :=
    h sampleEnv { sections := [sampleSection] } (lit "No ingestors loaded") [{ queueIdx := 0 }] rfl
  have hterminated : firstStart sampleEnv { sections := [sampleSection] } = .terminated := rfl
  rw [hterminated] at hreached
  cases hreached

end Mawmaw.Server
