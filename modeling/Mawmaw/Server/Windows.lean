import Mawmaw.Executor.WasmScript
import Mawmaw.Server.Startup

/-!
# The windows of a started pipeline

A stream's window is filled by `push` and read by the input builders, and both skip a stream without
a ring. `ensure_stream`, which makes the rings, is not called by a start or by anything after it.

* `routeAll` : the events of several `route` calls; `routeAll_rings`;
* `windowOf` : what a dispatch finds in its input for one stream;
* `startPipeline_no_window` : it finds nothing, in every started pipeline.
-/

namespace Mawmaw.Server
open Mawmaw.Lib Mawmaw.Conf Mawmaw.Core Mawmaw.Pub Mawmaw.Executor

variable {P : Nat}

def routeAll (r : StreamRouter P) (evs : List (Event P)) : StreamRouter P :=
  evs.foldl StreamRouter.route r

/-- The window for stream `s` in the input a dispatch builds for `trigger`, oldest event first, if
the input has one. -/
def windowOf (d : Dispatch P) (reg : WindowRegistry P) (trigger : Event P) (s : Str) :
    Option (List (Event P)) :=
  match d.script.mode with
  | .zeroCopy => ((reg.makeZeroCopyInput trigger d.sub.windows).windows.lookup s).map
      fun view => viewEvents reg.rings s view
  | .snapshot => (reg.makeSnapshotInput trigger d.sub.windows d.scriptIdx).windows.lookup s

/-- The section has a line `window = s, count, n`. -/
def HasCountWindow (sec : Section) (s : Str) (n : UInt64) : Prop :=
  ∃ val ∈ windowLines sec, parseWindow val = .ok { streamId := s, timeBased := false, n }

/-- The last `n` events on stream `s`, or all of them if there are fewer, oldest first. -/
def lastOn (s : Str) (n : UInt64) (evs : List (Event P)) : List (Event P) :=
  (evs.filter fun ev => ev.stream = s).rtake n.toNat

theorem route_rings {r : StreamRouter P} (h : r.registry.rings = ∅) (ev : Event P) :
    (r.route ev).registry.rings = ∅ := by
  have hnone : r.registry.rings.lookup ev.stream = none := by rw [h, AList.lookup_empty]
  rw [StreamRouter.route_registry, WindowRegistry.push_of_no_ring hnone, h]

theorem routeAll_rings {r : StreamRouter P} (h : r.registry.rings = ∅) (evs : List (Event P)) :
    (routeAll r evs).registry.rings = ∅ :=
  List.foldlRecOn evs StreamRouter.route (motive := fun r => r.registry.rings = ∅) h
    fun _ hr ev _ => route_rings hr ev

/-- Without rings no dispatch finds a window, whatever it subscribed to. -/
theorem windowOf_of_no_rings {reg : WindowRegistry P} (h : reg.rings = ∅) (d : Dispatch P)
    (trigger : Event P) (s : Str) : windowOf d reg trigger s = none := by
  unfold windowOf
  cases d.script.mode with
  | zeroCopy =>
      simp [WindowRegistry.lookup_makeZeroCopyInput, h]
  | snapshot =>
      simp [WindowRegistry.lookup_makeSnapshotInput, h]

/-- **No window reaches a script.** In every pipeline that starts, whatever is routed: a script
loaded with a count window on `s` is not given the last events of `s`, as it is given no window for
`s` at all. -/
theorem startPipeline_no_window (env : Environment P) (cfg : Config) (p : PipelineState P)
    (h : startPipeline env cfg = .ok p) :
    ∀ sec ∈ cfg.ofType (lit "script"), ∀ st ∈ p.scriptData, LoadedFrom env sec st →
      ∀ (s : Str) (n : UInt64), HasCountWindow sec s n → 1 ≤ n → n ≤ 65536 → s.length ≤ 31 →
        ∀ (evs : List (Event P)) (trigger : Event P),
          windowOf st.dispatch (routeAll p.router evs).registry trigger s = none ∧
            windowOf st.dispatch (routeAll p.router evs).registry trigger s
              ≠ some (lastOn s n evs) := by
  intro sec _ st _ _ s n _ _ _ _ evs trigger
  have hrings := routeAll_rings (startPipeline_started h).rings evs
  have hnone := windowOf_of_no_rings hrings st.dispatch trigger s
  refine ⟨hnone, ?_⟩
  rw [hnone]
  exact nofun

/-- A script with a window on its trigger stream. -/
def sampleSection : Section where
  type := lit "script"
  kv := ((((∅ : UMap Str Str).insert (lit "id") (lit "f")).insert (lit "runtime")
    (lit "python")).insert (lit "path") (lit "f.py")).insert (lit "trigger") (lit "s")
  multi := (∅ : UMap Str (List Str)).insert (lit "window") [lit "s, count, 1"]

def sampleConfig : Config where
  sections := [sampleSection, ingestorSection (lit "i.so") []]

def sampleEnv : Environment 1 where
  openEndpoint _ := .ok ()
  loadPython _ _ := .ok fun _ _ => {}
  loadWasm _ _ := .ok fun _ _ _ => {}
  loadPlugin _ := .ok []

def sampleState : PipelineState 1 :=
  match startPipeline sampleEnv sampleConfig with
  | .ok p => p
  | .error _ => { router := {} }

def sampleEvent : Event 1 := ({} : Event 1).setStream (lit "s")

def sampleLoaded : ScriptThread 1 :=
  scriptThread sampleSection (pythonScript (lit "f") fun _ _ => {}) 0

theorem startPipeline_no_window_sample :
    windowOf sampleLoaded.dispatch (routeAll sampleState.router [sampleEvent]).registry
        sampleEvent (lit "s") = none ∧
      windowOf sampleLoaded.dispatch (routeAll sampleState.router [sampleEvent]).registry
        sampleEvent (lit "s") ≠ some (lastOn (lit "s") 1 [sampleEvent]) :=
  startPipeline_no_window sampleEnv sampleConfig sampleState rfl sampleSection
    (List.mem_filter.mpr ⟨List.mem_cons_self, rfl⟩) sampleLoaded (List.mem_singleton.mpr rfl)
    ⟨_, 0, rfl, rfl⟩ (lit "s") 1 ⟨lit "s, count, 1", List.mem_singleton.mpr rfl, rfl⟩ (by decide)
    (by decide) (by decide) [sampleEvent] sampleEvent

/-- The one event on the stream is missing from the script's input. -/
theorem windows_do_not_reach :
    ¬ ∀ (env : Environment 1) (cfg : Config) (p : PipelineState 1), startPipeline env cfg = .ok p →
      ∀ sec ∈ cfg.ofType (lit "script"), ∀ st ∈ p.scriptData, LoadedFrom env sec st →
        ∀ (s : Str) (n : UInt64), HasCountWindow sec s n → 1 ≤ n → n ≤ 65536 → s.length ≤ 31 →
          ∀ (evs : List (Event 1)) (trigger : Event 1),
            windowOf st.dispatch (routeAll p.router evs).registry trigger s
              = some (lastOn s n evs) := by
  intro h
  have hwindow := h sampleEnv sampleConfig sampleState rfl sampleSection
    (List.mem_filter.mpr ⟨List.mem_cons_self, rfl⟩) sampleLoaded (List.mem_singleton.mpr rfl)
    ⟨_, 0, rfl, rfl⟩ (lit "s") 1 ⟨lit "s, count, 1", List.mem_singleton.mpr rfl, rfl⟩ (by decide)
    (by decide) (by decide) [sampleEvent] sampleEvent
  exact absurd hwindow (by decide +kernel)

end Mawmaw.Server
