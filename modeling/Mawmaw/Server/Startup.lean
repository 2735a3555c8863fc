import Mawmaw.Config.Config
import Mawmaw.Publisher.Endpoints
import Mawmaw.Server.Workers

/-!
# Starting a pipeline

`start_pipeline`, phase by phase; what it prints to standard output is left out, and a missing field
is as good as an empty one (`FailedStart` tells the two apart).

* `Environment` : what the files, plugins and engines outside the program do;
* `setUpRouter`, `createPublishers`, `createScripts`, `startIngestors`, `startPipeline`;
* `LoadedFrom` : the script thread a section leads to;
* `startPipeline_keeps` : what every action of a start keeps, the started state has;
* `Started` : what holds of the state throughout; `startPipeline_started`.
-/

namespace Mawmaw.Server
open Mawmaw.Lib Mawmaw.Conf Mawmaw.Core Mawmaw.Pub

variable {P : Nat}

/-- The outside world: each field is the constructor or loader that may throw, with the text of the
exception. A loaded script is given the calls before as well, by which it keeps its state. -/
structure Environment (P : Nat) where
  openEndpoint : Endpoint → Except Str Unit
  loadPython : Str → Str → Except Str (List (ScriptCall P) → SnapshotInput P → ScriptOutput P)
  loadWasm : Str → Str →
    Except Str (List (ScriptCall P) → ZeroCopyInput P → UMap Str (StreamRing P) → ScriptOutput P)
  loadPlugin : Str → Except Str (List (Event P))

/-- `PipelineState`; the registry, the telemetry and the publisher are in the router. -/
structure PipelineState (P : Nat) where
  router : StreamRouter P
  scriptData : List (ScriptThread P) := []
  plugins : List (Ingestor P) := []

def PipelineState.log (s : PipelineState P) (line : Str) : PipelineState P :=
  { s with router := { s.router with cerr := s.router.cerr ++ [line] } }

/-- The UTF-8 bytes of a long dash. -/
def emDash : Str := [0xE2, 0x80, 0x94]

/-! ## Router and publishers -/

/-- The router with its routes, its publisher and the telemetry attached everywhere. -/
def setUpRouter (cfg : Config) : StreamRouter P :=
  let r := (({} : StreamRouter P).setPublisher {}).setRoutes (parseRoutes cfg)
  { r with
    tel := { enabled := true }
    telemetry := true
    publisher := r.publisher.map fun pub => { pub with telemetry := true }
    registry := { r.registry with telemetry := true } }

def PipelineState.addEndpoint (s : PipelineState P) (ep : Endpoint) : PipelineState P :=
  { s with router := { s.router with publisher := s.router.publisher.map (·.addEndpoint ep) } }

/-- One `[publisher]` section; the flag says whether a telemetry endpoint was made. -/
def createPublisher (env : Environment P) (s : PipelineState P × Bool) (sec : Section) :
    PipelineState P × Bool :=
  match makeEndpoint sec with
  | .error e => (s.1.log (lit "Publisher failed: " ++ e ++ lit "\n"), s.2)
  | .ok ep =>
    match env.openEndpoint ep with
    | .error e => (s.1.log (lit "Publisher failed: " ++ e ++ lit "\n"), s.2)
    | .ok () => (s.1.addEndpoint ep, s.2 || sec.get (lit "type") == lit "telemetry")

def createPublishers (env : Environment P) (cfg : Config) (s : PipelineState P) :
    PipelineState P :=
  match cfg.ofType (lit "publisher") with
  | [] =>
    ((s.log (lit "[warn] no [publisher] sections " ++ emDash
        ++ lit " adding default stdout and telemetry\n")).addEndpoint
      (.stdout (lit "stdout"))).addEndpoint (.telemetryStdout (lit "telemetry"))
  | secs =>
    let made := secs.foldl (createPublisher env) (s, false)
    if made.2 then made.1 else made.1.addEndpoint (.telemetryStdout (lit "telemetry"))

/-! ## Scripts -/

def outputStream (sec : Section) : Str := (getScriptEmits sec).headD []

def windowLines (sec : Section) : List Str := UMap.getD sec.multi (lit "window") []

def toWindowSpec (w : ParsedWindow) : WindowSpec where
  type := if w.timeBased then .timeBased else .countBased
  durationNs := if w.timeBased then w.n else 0
  count := if w.timeBased then 256 else w.n

/-- One `window` line: the windows so far and the lines about bad ones. -/
def addWindow (ws : UMap Str WindowSpec × List Str) (val : Str) :
    UMap Str WindowSpec × List Str :=
  match parseWindow val with
  | .ok w => (ws.1.insert w.streamId (toWindowSpec w), ws.2)
  | .error e => (ws.1, ws.2 ++ [lit "[script] bad window '" ++ val ++ lit "': " ++ e ++ lit "\n"])

/-- The windows of a section, and what is logged about its lines. Without a good line there is a
default window on the trigger stream. -/
def subscription (sec : Section) : Subscription × List Str :=
  let trigger := sec.get (lit "trigger")
  let ws := (windowLines sec).foldl addWindow (∅, [])
  ({ triggerStream := trigger
     windows := if ws.1.entries.isEmpty then
        ws.1.insert trigger { type := .countBased, durationNs := 0, count := 64 } else ws.1 },
    ws.2)

/-- `PythonScript`: reads copies of its windows. -/
def pythonScript (id : Str)
    (onTrigger : List (ScriptCall P) → SnapshotInput P → ScriptOutput P) : IScript P where
  id := id
  runtime := lit "python"
  mode := .snapshot
  invokeZeroCopy _ _ _ := {}
  invokeSnapshot := onTrigger

/-- `WasmScript`: reads the rings through views. -/
def wasmScript (id : Str)
    (onTrigger : List (ScriptCall P) → ZeroCopyInput P → UMap Str (StreamRing P) → ScriptOutput P) :
    IScript P where
  id := id
  runtime := lit "wasm"
  mode := .zeroCopy
  invokeZeroCopy := onTrigger
  invokeSnapshot _ _ := {}

/-- The script of a section, or the line logged instead. -/
def makeScript (env : Environment P) (sec : Section) : Except Str (IScript P) :=
  let id := sec.get (lit "id")
  let runtime := sec.get (lit "runtime")
  let path := sec.get (lit "path")
  let loadFailed (e : Str) : Str := lit "[script] '" ++ id ++ lit "' load failed: " ++ e ++ lit "\n"
  if id.isEmpty || runtime.isEmpty || path.isEmpty || (sec.get (lit "trigger")).isEmpty then
    .error (lit "[script] missing required field " ++ emDash ++ lit " skipping\n")
  else if runtime = lit "python" then
    ((env.loadPython id path).map (pythonScript id)).mapError loadFailed
  else if runtime = lit "wasm" then
    ((env.loadWasm id path).map (wasmScript id)).mapError loadFailed
  else .error (lit "[script] unknown runtime '" ++ runtime ++ lit "'\n")

def scriptThread (sec : Section) (script : IScript P) (scriptIdx : Nat) : ScriptThread P where
  outputStream := outputStream sec
  dispatch := { script, sub := (subscription sec).1, scriptIdx }

/-- Registers a script: statistics, reader, queue and handler. -/
def registerScript (s : PipelineState P) (sec : Section) (script : IScript P) : PipelineState P :=
  let (scriptIdx, registry) := s.router.registry.registerScript
  let r := { s.router with
    tel := s.router.tel.registerScriptStats script.id
    registry
    cerr := s.router.cerr ++ (subscription sec).2 }
  let (queueIdx, r) := r.registerScriptQueue
  let thread := scriptThread sec script scriptIdx
  { s with
    router := r.registerHandler script.id thread.dispatch.sub thread.dispatch queueIdx
    scriptData := s.scriptData ++ [thread] }

def createScript (env : Environment P) (s : PipelineState P) (sec : Section) : PipelineState P :=
  match makeScript env sec with
  | .error line => s.log line
  | .ok script => registerScript s sec script

def createScripts (env : Environment P) (cfg : Config) (s : PipelineState P) : PipelineState P :=
  (cfg.ofType (lit "script")).foldl (createScript env) s

/-! ## Ingestors -/

def startIngestor (env : Environment P) (s : PipelineState P) (sec : Section) : PipelineState P :=
  let plugin := sec.get (lit "plugin")
  if plugin.isEmpty then s.log (lit "[ingestor] missing 'plugin' " ++ emDash ++ lit " skipping\n")
  else
    match env.loadPlugin plugin with
    | .error e =>
      s.log (lit "[ingestor] '" ++ sec.get (lit "id") ++ lit "' failed: " ++ e ++ lit "\n")
    | .ok events => { s with plugins := s.plugins ++ [{ renameTo := getIngestorAs sec, events }] }

def startIngestors (env : Environment P) (cfg : Config) (s : PipelineState P) : PipelineState P :=
  (cfg.ofType (lit "ingestor")).foldl (startIngestor env) s

/-- The whole start; it throws when no ingestor was loaded. -/
def startPipeline (env : Environment P) (cfg : Config) : Except Str (PipelineState P) :=
  let s := createPublishers env cfg { router := setUpRouter cfg }
  let s := createScripts env cfg s
  let s := startIngestors env cfg s
  if s.plugins.isEmpty then .error (lit "No ingestors loaded") else .ok s

/-! ## What a start sets up -/

section Keeps
variable {Inv : PipelineState P → Prop} {env : Environment P} {cfg : Config} {s : PipelineState P}

theorem createPublisher_keeps (hlog : ∀ s line, Inv s → Inv (s.log line))
    (hendpoint : ∀ s ep, Inv s → Inv (s.addEndpoint ep)) {made : Bool} (h : Inv s)
    (sec : Section) : Inv (createPublisher env (s, made) sec).1 := by
  unfold createPublisher
  split
  · exact hlog _ _ h
  · split
    · exact hlog _ _ h
    · exact hendpoint _ _ h

theorem createPublishers_keeps (hlog : ∀ s line, Inv s → Inv (s.log line))
    (hendpoint : ∀ s ep, Inv s → Inv (s.addEndpoint ep)) (h : Inv s) :
    Inv (createPublishers env cfg s) := by
  unfold createPublishers
  split
  · exact hendpoint _ _ (hendpoint _ _ (hlog _ _ h))
  · have hmade := List.foldlRecOn (cfg.ofType (lit "publisher")) (createPublisher env)
      (b := (s, false)) (motive := fun made => Inv made.1) h
      fun made hmade sec _ => createPublisher_keeps hlog hendpoint hmade sec
    dsimp only
    split
    · exact hmade
    · exact hendpoint _ _ hmade

theorem createScripts_keeps (hlog : ∀ s line, Inv s → Inv (s.log line))
    (hscript : ∀ s, ∀ sec ∈ cfg.ofType (lit "script"), ∀ script,
      makeScript env sec = .ok script → Inv s → Inv (registerScript s sec script)) (h : Inv s) :
    Inv (createScripts env cfg s) := by
  refine List.foldlRecOn (cfg.ofType (lit "script")) (createScript env) (motive := Inv) h
    fun s hs sec hsec => ?_
  unfold createScript
  split
  · exact hlog _ _ hs
  · rename_i script hmade
    exact hscript s sec hsec script hmade hs

theorem startIngestors_keeps (hlog : ∀ s line, Inv s → Inv (s.log line))
    (hplugin : ∀ s, ∀ sec ∈ cfg.ofType (lit "ingestor"), ∀ events,
      env.loadPlugin (sec.get (lit "plugin")) = .ok events → Inv s →
      Inv { s with plugins := s.plugins ++ [{ renameTo := getIngestorAs sec, events }] })
    (h : Inv s) : Inv (startIngestors env cfg s) := by
  refine List.foldlRecOn (cfg.ofType (lit "ingestor")) (startIngestor env) (motive := Inv) h
    fun s hs sec hsec => ?_
  unfold startIngestor
  dsimp only
  split
  · exact hlog _ _ hs
  · split
    · exact hlog _ _ hs
    · rename_i events hload
      exact hplugin s sec hsec events hload hs

/-- What every action of a start keeps, the started state has. -/
theorem startPipeline_keeps (hlog : ∀ s line, Inv s → Inv (s.log line))
    (hendpoint : ∀ s ep, Inv s → Inv (s.addEndpoint ep))
    (hscript : ∀ s, ∀ sec ∈ cfg.ofType (lit "script"), ∀ script,
      makeScript env sec = .ok script → Inv s → Inv (registerScript s sec script))
    (hplugin : ∀ s, ∀ sec ∈ cfg.ofType (lit "ingestor"), ∀ events,
      env.loadPlugin (sec.get (lit "plugin")) = .ok events → Inv s →
      Inv { s with plugins := s.plugins ++ [{ renameTo := getIngestorAs sec, events }] })
    (hinit : Inv { router := setUpRouter cfg }) (h : startPipeline env cfg = .ok s) : Inv s := by
  have hpub : Inv (createPublishers env cfg { router := setUpRouter cfg }) :=
    createPublishers_keeps hlog hendpoint hinit
  have hscripts := createScripts_keeps hlog hscript hpub
  have hing := startIngestors_keeps hlog hplugin hscripts
  unfold startPipeline at h
  dsimp only at h
  split at h
  · cases h
  · obtain rfl := Except.ok.inj h
    exact hing

end Keeps

/-- `st` is the thread of a script loaded from `sec`. -/
def LoadedFrom (env : Environment P) (sec : Section) (st : ScriptThread P) : Prop :=
  ∃ script idx, makeScript env sec = .ok script ∧ st = scriptThread sec script idx

/-- What holds of the state in every phase: no stream has a ring, each script thread has a queue and
comes from a section. -/
structure Started (env : Environment P) (cfg : Config) (s : PipelineState P) : Prop where
  rings : s.router.registry.rings = ∅
  running : s.router.Running
  queues : s.router.queues.length = s.scriptData.length
  loaded : ∀ st ∈ s.scriptData, ∃ sec ∈ cfg.ofType (lit "script"), LoadedFrom env sec st

variable {env : Environment P} {cfg : Config} {s : PipelineState P}

namespace Started

theorem log (h : Started env cfg s) (line : Str) : Started env cfg (s.log line) :=
  ⟨h.rings, ⟨h.running.positions, h.running.running⟩, h.queues, h.loaded⟩

theorem addEndpoint (h : Started env cfg s) (ep : Endpoint) : Started env cfg (s.addEndpoint ep) :=
  ⟨h.rings, ⟨h.running.positions, h.running.running⟩, h.queues, h.loaded⟩

theorem registerScript (h : Started env cfg s) {sec : Section} {script : IScript P}
    (hsec : sec ∈ cfg.ofType (lit "script")) (hscript : makeScript env sec = .ok script) :
    Started env cfg (registerScript s sec script) := by
  refine ⟨h.rings, ⟨?_, ?_⟩, ?_, ?_⟩
  · show (s.router.readPositions ++ [0]).length = (s.router.queues ++ [_]).length
    rw [List.length_append, List.length_append, h.running.positions]
    rfl
  · intro q hq
    rcases List.mem_append.mp hq with hq | hq
    · exact h.running.running q hq
    · rw [List.mem_singleton.mp hq]
  · show (s.router.queues ++ [_]).length = (s.scriptData ++ [_]).length
    rw [List.length_append, List.length_append, h.queues]
    rfl
  · intro st hst
    rcases List.mem_append.mp hst with hst | hst
    · exact h.loaded st hst
    · exact ⟨sec, hsec, script, _, hscript, List.mem_singleton.mp hst⟩

end Started

theorem started_setUpRouter (env : Environment P) (cfg : Config) :
    Started env cfg { router := setUpRouter cfg } :=
  ⟨rfl, ⟨rfl, nofun⟩, rfl, nofun⟩

/-- **A started pipeline** has a queue for each script thread and no ring for any stream. -/
theorem startPipeline_started (h : startPipeline env cfg = .ok s) : Started env cfg s :=
  startPipeline_keeps (fun _ line hs => hs.log line) (fun _ ep hs => hs.addEndpoint ep)
    (fun _ _ hsec _ hmade hs => hs.registerScript hsec hmade)
    (fun _ _ _ _ _ hs => ⟨hs.rings, hs.running, hs.queues, hs.loaded⟩)
    (started_setUpRouter env cfg) h

/-! ## Sections, for examples -/

def scriptSection (id runtime trigger emits : Str) : Section where
  type := lit "script"
  kv := (((((∅ : UMap Str Str).insert (lit "id") id).insert (lit "runtime") runtime).insert
    (lit "path") (lit "f")).insert (lit "trigger") trigger).insert (lit "emits") emits

def routesSection (stream targets : Str) : Section where
  type := lit "routes"
  kv := (∅ : UMap Str Str).insert stream targets

def ingestorSection (plugin renameTo : Str) : Section where
  type := lit "ingestor"
  kv := (((∅ : UMap Str Str).insert (lit "id") (lit "i")).insert (lit "plugin") plugin).insert
    (lit "as") renameTo

end Mawmaw.Server
