import Mawmaw.Server.Snapshots
import Mawmaw.Server.Startup
import Mawmaw.Server.Threads

/-!
# Names along the path of an event

An ingestor's `as` and a script's first `emits` are copied into the event, the keys of `[routes]`
are not.

* `Delivers` : what `route` does to the queues and the endpoints; `route_delivers`;
* `Configured`, `run_owned` : the name a thread gives its events, in every run;
* `configured_names_routed` : where they are delivered;
* `declared_streams_kept_iff` : when a script's events keep their declared streams.
-/

namespace Mawmaw.Server
open Mawmaw.Lib Mawmaw.Conf Mawmaw.Core Mawmaw.Pub

variable {P : Nat}

/-! ## What a route delivers -/

/-- The queues of the scripts among the targets `ids`. -/
def Wiring.queuesOf (w : Wiring P) (ids : List Str) : List Nat :=
  ids.filterMap fun id => (w.handlers.lookup id).map (·.queueIndex)

/-- The endpoints among the targets `ids`; a script of that name takes precedence. -/
def Wiring.endpointsOf (w : Wiring P) (ids : List Str) : List Str :=
  ids.filter fun id => (w.handlers.lookup id).isNone && w.hasEndpoint id

/-- `r'` is `r` once `ev` was delivered to exactly those of `ids` that are registered. -/
structure Delivers (r : StreamRouter P) (ev : Event P) (ids : List Str) (r' : StreamRouter P) :
    Prop where
  queues : r'.queues = ((wiring r).queuesOf ids).foldl
    (fun qs i => qs.modify i fun q => q.enqueue ev) r.queues
  endpoints : r'.delivered = r.delivered ++ ((wiring r).endpointsOf ids).map fun id => (id, ev)

theorem delivers_target {r : StreamRouter P} (ev : Event P) (id : Str) :
    Delivers r ev [id] (r.routeTarget ev id) := by
  rcases routeTarget_cases r ev id with ⟨h, hlook, heq⟩ | ⟨hlook, hep, pub, tel, hpub, heq⟩ |
    ⟨hlook, hep, hq⟩
  · rw [heq]
    constructor
    · simp [Wiring.queuesOf, hlook, StreamRouter.enqueue]
    · simp [Wiring.endpointsOf, hlook, StreamRouter.enqueue, StreamRouter.delivered]
  · rw [heq]
    constructor
    · simp [Wiring.queuesOf, hlook]
    · simp [Wiring.endpointsOf, hlook, hep, StreamRouter.delivered, hpub]
  · constructor
    · simp [Wiring.queuesOf, hlook, hq.queues]
    · simp [Wiring.endpointsOf, hlook, hep, StreamRouter.delivered, hq.publisher]

theorem delivers_targets (ev : Event P) (ids : List Str) :
    ∀ {r : StreamRouter P}, r.Running →
      Delivers r ev ids (ids.foldl (fun r id => r.routeTarget ev id) r) := by
  induction ids with
  | nil =>
      intro r _
      exact ⟨rfl, by simp [Wiring.endpointsOf]⟩
  | cons id ids ih =>
      intro r hrun
      obtain ⟨hwire, hrun'⟩ := routeTarget_keeps r ev id hrun
      obtain ⟨hqueues, hends⟩ := delivers_target (r := r) ev id
      obtain ⟨hqueues', hends'⟩ := ih hrun'
      rw [hwire] at hqueues' hends'
      constructor
      · rw [List.foldl_cons, hqueues', hqueues, ← List.foldl_append]
        unfold Wiring.queuesOf
        rw [← List.filterMap_append, List.singleton_append]
      · rw [List.foldl_cons, hends', hends, List.append_assoc, ← List.map_append]
        unfold Wiring.endpointsOf
        rw [← List.filter_append, List.singleton_append]

/-- `route` delivers to exactly the registered targets of the event's stream. -/
theorem route_delivers {r : StreamRouter P} (hrun : r.Running) (ev : Event P) :
    Delivers r ev (r.targets ev) (r.route ev) := by
  have hq := quiet_routeBegin r ev
  obtain ⟨hqueues, hends⟩ := delivers_targets ev (r.targets ev) (hq.running hrun)
  rw [hq.wiring] at hqueues hends
  exact ⟨hqueues, hends⟩

/-! ## The wiring of a started pipeline -/

/-- `g` is the ingestor started from `sec`. -/
def IngestorFrom (env : Environment P) (sec : Section) (g : Ingestor P) : Prop :=
  ∃ events, env.loadPlugin (sec.get (lit "plugin")) = .ok events ∧
    g = { renameTo := getIngestorAs sec, events }

variable {env : Environment P} {cfg : Config} {p : PipelineState P}

/-- The routing table of a started pipeline is its configuration's. -/
theorem startPipeline_routeTable (h : startPipeline env cfg = .ok p) :
    p.router.routeTable = parseRoutes cfg :=
  @startPipeline_keeps P (fun s => s.router.routeTable = parseRoutes cfg) env cfg p
    (fun _ _ hs => hs) (fun _ _ hs => hs) (fun _ _ _ _ _ hs => hs) (fun _ _ _ _ _ hs => hs) rfl h

/-! ## The names threads give -/

/-- The name a thread gives the events it emits; empty for none. -/
def nameOf (p : PipelineState P) : ThreadId → Str
  | .worker i => ((p.scriptData[i]?).map (·.outputStream)).getD []
  | .ingestor j => ((p.plugins[j]?).map (·.renameTo)).getD []
  | .metrics => []

/-- An action of thread `t` gives the thread's own name and calls the thread's own script. -/
def Owned (p : PipelineState P) (t : ThreadId) : Action P → Prop
  | .emit name _ => name = nameOf p t
  | .route _ => True
  | .target _ _ => True
  | .dispatch i _ => t = .worker i

theorem perform_owned (p : PipelineState P) (t : ThreadId) (durationNs : UInt64)
    (r : StreamRouter P) (a : Action P) (h : Owned p t a) :
    ∀ b ∈ (perform p.scriptData durationNs r a).2, Owned p t b := by
  intro b hb
  rcases mem_perform hb with ⟨name, ev, rfl, rfl⟩ | ⟨ev, id, rfl, -, rfl⟩ |
    ⟨i, trigger, st, ev, rfl, hst, -, rfl⟩
  · trivial
  · trivial
  · obtain rfl : t = .worker i := h
    show st.outputStream = nameOf p (.worker i)
    rw [nameOf, hst]
    rfl

theorem start_owned (p : PipelineState P) (t : ThreadId) :
    ∀ a ∈ (start p.router p.plugins).actions t, Owned p t a := by
  intro a ha
  obtain ⟨j, g, ev, rfl, hg, rfl⟩ := start_actions ha
  show g.renameTo = nameOf p (.ingestor j)
  rw [nameOf, hg]
  rfl

/-- The pipeline `p` after the turns `turns`. -/
def PipelineState.after (p : PipelineState P) (turns : List Turn) : Pipeline P :=
  run p.scriptData (start p.router p.plugins) turns

theorem run_owned (p : PipelineState P) (turns : List Turn) :
    ∀ t, ∀ a ∈ (p.after turns).actions t, Owned p t a :=
  run_threads (perform_owned p) (fun _ _ => rfl) (fun _ => trivial) turns _ (start_owned p)

theorem after_wiring (h : startPipeline env cfg = .ok p) (turns : List Turn) :
    (p.after turns).router.routeTable = parseRoutes cfg ∧ (p.after turns).router.Running := by
  obtain ⟨hwire, hrun⟩ := run_wiring p.scriptData turns (start p.router p.plugins)
    (startPipeline_started h).running
  have hroutes : (wiring (p.after turns).router).routeTable = p.router.routeTable :=
    congrArg Wiring.routeTable hwire
  exact ⟨hroutes.trans (startPipeline_routeTable h), hrun⟩

/-! ## A configured name and its routes -/

theorem after_append (p : PipelineState P) (before more : List Turn) :
    p.after (before ++ more) = run p.scriptData (p.after before) more :=
  List.foldl_append ..

/-- The configuration names the output of thread `t`: it runs an ingestor with `as = N` or a script
whose first `emits` is `N`. -/
def Configured (env : Environment P) (cfg : Config) (p : PipelineState P) (N : Str) :
    ThreadId → Prop
  | .ingestor j => N ≠ [] ∧ ∃ sec ∈ cfg.ofType (lit "ingestor"), getIngestorAs sec = N ∧
      ∃ g, p.plugins[j]? = some g ∧ IngestorFrom env sec g
  | .worker i => ∃ sec ∈ cfg.ofType (lit "script"), (getScriptEmits sec).head? = some N ∧
      ∃ st, p.scriptData[i]? = some st ∧ LoadedFrom env sec st
  | .metrics => False

theorem splitComma_ne_nil {s item : Str} (h : item ∈ splitComma s) : item ≠ [] := by
  unfold splitComma at h
  have hne := (List.mem_filter.mp h).2
  simpa using hne

theorem getScriptEmits_ne_nil {sec : Section} {N : Str} (h : N ∈ getScriptEmits sec) : N ≠ [] := by
  unfold getScriptEmits at h
  rcases List.mem_append.mp h with hsingle | hmulti
  · split at hsingle
    · exact splitComma_ne_nil hsingle
    · exact absurd hsingle List.not_mem_nil
  · obtain ⟨val, -, hitem⟩ := List.mem_flatMap.mp hmulti
    exact splitComma_ne_nil hitem

theorem Configured.nameOf {N : Str} {t : ThreadId} (h : Configured env cfg p N t) :
    N ≠ [] ∧ nameOf p t = N := by
  cases t with
  | ingestor j =>
      obtain ⟨hne, sec, -, has, g, hg, events, -, rfl⟩ := h
      refine ⟨hne, ?_⟩
      rw [Server.nameOf, hg]
      exact has
  | worker i =>
      obtain ⟨sec, -, hemits, st, hst, script, idx, -, rfl⟩ := h
      refine ⟨getScriptEmits_ne_nil (List.mem_of_mem_head? hemits), ?_⟩
      rw [Server.nameOf, hst]
      show (getScriptEmits sec).headD [] = N
      rw [List.headD_eq_head?_getD, hemits]
      rfl
  | metrics => exact h.elim

theorem rename_of_ne {name : Str} (h : name ≠ []) (ev : Event P) :
    rename name ev = ev.setStream name := by
  rw [rename, if_neg (by simpa using h)]

theorem rename_stream {name : Str} (h : name ≠ []) (ev : Event P) :
    (rename name ev).stream = cutId name := by
  rw [rename_of_ne h]
  exact ev.setStream_stream name

theorem after_cons (p : PipelineState P) (before : List Turn) (turn : Turn) :
    p.after (before ++ [turn]) = step p.scriptData (p.after before) turn :=
  after_append p before [turn]

/-- **Names along the path.** Let the configuration name the output of a thread `N`. In every run of
the started pipeline, each event that its ingestor emits or its script returns is emitted as `N`, and
the thread's next turns then name the event `N`, cut to a stream id, and deliver it to exactly the
registered targets of the name it then has; this is `N` itself up to 31 bytes. -/
theorem configured_names_routed (h : startPipeline env cfg = .ok p) {N : Str} {t : ThreadId}
    (hN : Configured env cfg p N t) (before : List Turn) :
    (∀ j g, t = .ingestor j → p.plugins[j]? = some g →
      (p.after []).actions t = g.events.map (.emit N)) ∧
    (∀ i st trigger rest, t = .worker i → p.scriptData[i]? = some st →
      (p.after before).actions t = .dispatch i trigger :: rest →
      ∀ turn : Turn, turn.thread = t → (p.after (before ++ [turn])).actions t
        = (st.dispatch.call (p.after before).router trigger turn.durationNs).1.emitted.map (.emit N)
          ++ rest) ∧
    ∀ name ev rest, (p.after before).actions t = .emit name ev :: rest →
      let ids := UMap.getD (parseRoutes cfg) (cutId N) []
      let s' := p.after (before ++ turns (ids.length + 2) t)
      s'.actions t = rest ∧
        Delivers (p.after before).router (ev.setStream N) ids s'.router ∧
        (ev.setStream N).stream = cutId N ∧ (NulFree N → N.length ≤ 31 → cutId N = N) := by
  obtain ⟨hne, hname⟩ := hN.nameOf
  refine ⟨fun j g hthread hg => ?_, fun i st trigger rest hthread hst hdispatch turn hturn => ?_,
    fun name ev rest hemit => ?_⟩
  · rw [hthread, nameOf, hg] at hname
    rw [← hname, hthread]
    show (((p.plugins.map fun g => g.events.map (Action.emit g.renameTo))[j]?).getD []) = _
    rw [List.getElem?_map, hg]
    rfl
  · rw [hthread, nameOf, hst] at hname
    rw [← hturn] at hdispatch ⊢
    rw [after_cons, (performed_step p.scriptData turn hdispatch).own, perform, hst, ← hname]
    rfl
  · intro ids s'
    obtain ⟨hroutes, hrun⟩ := after_wiring h before
    obtain rfl : name = N := by
      have hown := run_owned p before t
      rw [hemit] at hown
      exact (hown _ List.mem_cons_self).trans hname
    have htargets : (p.after before).router.targets (rename name ev) = ids := by
      rw [StreamRouter.targets, hroutes, rename_stream hne]
    have hdone := run_emit p.scriptData hemit
    have hdelivers := route_delivers hrun (rename name ev)
    rw [htargets, ← after_append] at hdone
    rw [htargets, ← hdone.router, rename_of_ne hne] at hdelivers
    exact ⟨hdone.own, hdelivers, ev.setStream_stream name, cutId_eq_self⟩

/-- An ingestor of one event whose stream is named and routed as `N`. -/
def namedConfig (N : Str) : Config where
  sections := [routesSection N (lit "stdout"), ingestorSection (lit "i.so") N]

def oneEventEnv : Environment 1 where
  openEndpoint _ := .ok ()
  loadPython _ _ := .ok fun _ _ => {}
  loadWasm _ _ := .ok fun _ _ _ => {}
  loadPlugin _ := .ok [{ sequence := 7 }]

def namedState (N : Str) : PipelineState 1 :=
  match startPipeline oneEventEnv (namedConfig N) with
  | .ok p => p
  | .error _ => { router := {} }

theorem namedState_configured {N : Str} (h : N ≠ []) :
    Configured oneEventEnv (namedConfig N) (namedState N) N (.ingestor 0) :=
  ⟨h, _, List.mem_singleton.mpr rfl, rfl, _, rfl, _, rfl, rfl⟩

theorem configured_names_routed_sample :
    (namedState (lit "s")).plugins[0]? = some ⟨lit "s", [{ sequence := 7 }]⟩ ∧
    ((namedState (lit "s")).after []).actions (.ingestor 0) = [.emit (lit "s") { sequence := 7 }] ∧
    let ids := UMap.getD (parseRoutes (namedConfig (lit "s"))) (cutId (lit "s")) []
    let s' := (namedState (lit "s")).after ([] ++ turns (ids.length + 2) (.ingestor 0))
    s'.actions (.ingestor 0) = [] ∧
      Delivers ((namedState (lit "s")).after []).router
        (({ sequence := 7 } : Event 1).setStream (lit "s")) ids s'.router ∧
      (({ sequence := 7 } : Event 1).setStream (lit "s")).stream = cutId (lit "s") ∧
      (NulFree (lit "s") → (lit "s").length ≤ 31 → cutId (lit "s") = lit "s") := by
  have hstart : startPipeline oneEventEnv (namedConfig (lit "s")) = .ok (namedState (lit "s")) := rfl
  obtain ⟨hemits, -, hrouted⟩ :=
    configured_names_routed hstart (namedState_configured (by decide)) []
  exact ⟨rfl, hemits 0 _ rfl rfl, hrouted _ _ _ rfl⟩

/-- A name of 32 bytes. -/
def longName : Str := lit "abcdefghijklmnopqrstuvwxyz012345"

theorem long_name_not_routed :
    ¬ ∀ (env : Environment 1) (cfg : Config) (p : PipelineState 1), startPipeline env cfg = .ok p →
      ∀ (before : List Turn) (N : Str) (t : ThreadId) (T : List Str), Configured env cfg p N t →
        (parseRoutes cfg).lookup N = some T → ∀ (name : Str) (ev : Event 1) (rest : List (Action 1)),
          (p.after before).actions t = .emit name ev :: rest →
          ∃ routed, Delivers (p.after before).router routed T
            (p.after (before ++ turns (T.length + 2) t)).router := by
  intro h
  obtain ⟨routed, hdelivers⟩ := h oneEventEnv (namedConfig longName) (namedState longName) rfl []
    longName (.ingestor 0) [lit "stdout"] (namedState_configured (by decide)) rfl longName
    { sequence := 7 } [] rfl
  have hlength := congrArg List.length hdelivers.endpoints
  rw [List.length_append, List.length_map] at hlength
  exact absurd hlength (by decide +kernel)

/-! ## Several declared streams -/

/-- Every event on a declared stream that the script of worker `i` returns for `trigger` is passed
to `route` on that stream, where it has the targets configured for it. -/
def StreamsKept (cfg : Config) (scripts : List (ScriptThread P)) (r : StreamRouter P) (i : Nat)
    (trigger : Event P) (durationNs : UInt64) (declared : List Str) : Prop :=
  ∀ name ev, .emit name ev ∈ (perform scripts durationNs r (.dispatch i trigger)).2 →
    ev.stream ∈ declared →
    ∃ routed, (perform scripts durationNs r (.emit name ev)).2 = [.route routed] ∧
      routed.stream = ev.stream ∧ r.targets routed = UMap.getD (parseRoutes cfg) ev.stream []

/-- **Declared streams.** The events a script returns on the streams of its `emits` are routed on
them exactly if all of these are on the first one, cut to a stream id. -/
theorem declared_streams_kept_iff (h : startPipeline env cfg = .ok p) (turns : List Turn)
    {i : Nat} {st : ScriptThread P} {sec : Section} (hst : p.scriptData[i]? = some st)
    (hsec : LoadedFrom env sec st) (trigger : Event P) (durationNs : UInt64) :
    StreamsKept cfg p.scriptData (p.after turns).router i trigger durationNs (getScriptEmits sec) ↔
      ∀ ev ∈ (st.dispatch.call (p.after turns).router trigger durationNs).1.emitted,
        ev.stream ∈ getScriptEmits sec → ev.stream = cutId ((getScriptEmits sec).headD []) := by
  obtain ⟨hroutes, -⟩ := after_wiring h turns
  obtain ⟨script, idx, -, rfl⟩ := hsec
  -- a worker with a declared stream names every event after the first one
  have hstream : ∀ ev : Event P, ev.stream ∈ getScriptEmits sec →
      (rename (outputStream sec) ev).stream = cutId ((getScriptEmits sec).headD []) := by
    intro ev hev
    apply rename_stream
    cases hemits : getScriptEmits sec with
    | nil =>
        rw [hemits] at hev
        exact absurd hev List.not_mem_nil
    | cons first rest =>
        have hfirst : first ∈ getScriptEmits sec := by
          rw [hemits]
          exact List.mem_cons_self
        rw [outputStream, hemits]
        exact getScriptEmits_ne_nil hfirst
  have hactions : (perform p.scriptData durationNs (p.after turns).router (.dispatch i trigger)).2
      = ((scriptThread sec script idx).dispatch.call (p.after turns).router trigger
          durationNs).1.emitted.map (.emit (outputStream sec)) := by
    rw [perform, hst]
    rfl
  unfold StreamsKept
  rw [hactions]
  constructor
  · intro hkept ev hev hdeclared
    obtain ⟨routed, hroute, hsame, -⟩ := hkept _ ev (List.mem_map_of_mem hev) hdeclared
    obtain rfl := Action.route.inj (List.singleton_inj.mp hroute)
    rw [← hsame]
    exact hstream ev hdeclared
  · intro hfirst name ev hmem hdeclared
    obtain ⟨ev', hev', heq⟩ := List.mem_map.mp hmem
    obtain ⟨rfl, rfl⟩ := Action.emit.inj heq
    have hsame : (rename (outputStream sec) ev').stream = ev'.stream :=
      (hstream ev' hdeclared).trans (hfirst ev' hev' hdeclared).symm
    refine ⟨_, rfl, hsame, ?_⟩
    rw [StreamRouter.targets, hroutes, hsame]

/-- A script that declares two streams, each with its own route. -/
def twoStreamsSection : Section where
  type := lit "script"
  kv := ((((∅ : UMap Str Str).insert (lit "id") (lit "f")).insert (lit "runtime")
    (lit "python")).insert (lit "path") (lit "f.py")).insert (lit "trigger") (lit "s")
  multi := (∅ : UMap Str (List Str)).insert (lit "emits") [lit "a, b"]

def twoStreamsConfig : Config where
  sections := [twoStreamsSection, routesSection (lit "a") (lit "stdout"),
    routesSection (lit "b") (lit "telemetry"), ingestorSection (lit "i.so") []]

/-- The script returns one event on stream `s`. -/
def returningEnv (s : Str) : Environment 1 :=
  { oneEventEnv with
    loadPython := fun _ _ => .ok fun _ _ => { emitted := [({} : Event 1).setStream s] } }

def twoStreamsState (s : Str) : PipelineState 1 :=
  match startPipeline (returningEnv s) twoStreamsConfig with
  | .ok p => p
  | .error _ => { router := {} }

def twoStreamsThread (s : Str) : ScriptThread 1 :=
  scriptThread twoStreamsSection
    (pythonScript (lit "f") fun _ _ => { emitted := [({} : Event 1).setStream s] }) 0

theorem declared_streams_kept_iff_sample :
    StreamsKept twoStreamsConfig (twoStreamsState (lit "a")).scriptData
        ((twoStreamsState (lit "a")).after []).router 0 {} 0 (getScriptEmits twoStreamsSection) ↔
      ∀ ev ∈ ((twoStreamsThread (lit "a")).dispatch.call ((twoStreamsState (lit "a")).after []).router
        {} 0).1.emitted, ev.stream ∈ getScriptEmits twoStreamsSection →
          ev.stream = cutId ((getScriptEmits twoStreamsSection).headD []) :=
  declared_streams_kept_iff (show startPipeline (returningEnv (lit "a")) twoStreamsConfig
    = .ok (twoStreamsState (lit "a")) from rfl) [] rfl ⟨_, 0, rfl, rfl⟩ {} 0

/-- An event on the second stream is routed on the first. -/
theorem second_stream_not_kept :
    ¬ ∀ (env : Environment 1) (cfg : Config) (p : PipelineState 1), startPipeline env cfg = .ok p →
      ∀ (turns : List Turn) (i : Nat) (st : ScriptThread 1) (sec : Section),
        p.scriptData[i]? = some st → LoadedFrom env sec st →
        ∀ (trigger : Event 1) (durationNs : UInt64), StreamsKept cfg p.scriptData
          (p.after turns).router i trigger durationNs (getScriptEmits sec) := by
  intro h
  have hkept := h (returningEnv (lit "b")) twoStreamsConfig (twoStreamsState (lit "b")) rfl [] 0
    (twoStreamsThread (lit "b")) twoStreamsSection rfl ⟨_, 0, rfl, rfl⟩ {} 0
  obtain ⟨routed, hroute, hsame, -⟩ := hkept (lit "a") (({} : Event 1).setStream (lit "b"))
    (List.mem_singleton.mpr rfl) (by decide +kernel)
  obtain rfl := Action.route.inj (List.singleton_inj.mp hroute)
  exact absurd hsame (by decide +kernel)

end Mawmaw.Server
