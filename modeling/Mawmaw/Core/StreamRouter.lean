import Mawmaw.Core.WindowRegistry
import Mawmaw.Publisher.Publisher

/-!
# The stream router

`StreamRouter` with the objects it refers to (registry, telemetry, publisher) in one state.

* `ScriptQueue.enqueue`, `ScriptQueue.waitForTrigger` : one script's queue and its worker;
* `routeTarget` : what `route` does for one target; `routeBegin` : what it does before the first;
* `route` : the hot ingestion path;
* `IScript`, `Dispatch.call` : a script, and its call with the windows it subscribed to.
-/

namespace Mawmaw.Core
open Mawmaw.Lib Mawmaw.Pub

variable {P : Nat}

/-! ## Script queues -/

structure ScriptQueue (P : Nat) where
  ring : RingBuffer (Event P)
  stopped : Bool := false

/-- The outcome of a `wait_for_trigger` call: still blocked, or returned, with the read position
after it. -/
inductive WaitResult (P : Nat)
  | blocked
  | returned (ev : Option (Event P)) (readPos : UInt64)
  deriving DecidableEq

namespace ScriptQueue

def enqueue (q : ScriptQueue P) (ev : Event P) : ScriptQueue P :=
  { q with ring := (q.ring.write ev).2 }

theorem enqueue_ring (q : ScriptQueue P) (ev : Event P) :
    (q.enqueue ev).ring = (q.ring.write ev).2 := rfl

/-- One call of the worker, at a moment it is not interrupted: it blocks until the queue is stopped
or has an event past the read position. -/
def waitForTrigger (q : ScriptQueue P) (readPos : UInt64) : WaitResult P :=
  if q.stopped then .returned none readPos
  else if q.ring.head > readPos then
    match q.ring.read readPos with
    | none => .returned none readPos
    | some ev => .returned (some ev) (readPos + 1)
  else .blocked

end ScriptQueue

/-! ## Scripts and handlers -/

/-- One call of a script. The zero-copy entry also reads the rings its views point into. -/
inductive ScriptCall (P : Nat)
  | zeroCopy (input : ZeroCopyInput P) (rings : UMap Str (StreamRing P))
  | snapshot (input : SnapshotInput P)

/-- `IScript`. A script keeps state, in its module or its memory: what it returns depends on all its
calls so far, the earlier ones first. -/
structure IScript (P : Nat) where
  id : Str
  runtime : Str
  mode : ScriptMode
  invokeZeroCopy : List (ScriptCall P) → ZeroCopyInput P → UMap Str (StreamRing P) → ScriptOutput P
  invokeSnapshot : List (ScriptCall P) → SnapshotInput P → ScriptOutput P

structure Subscription where
  triggerStream : Str
  windows : UMap Str WindowSpec

/-- The captures of the dispatch lambda. -/
structure Dispatch (P : Nat) where
  script : IScript P
  sub : Subscription
  scriptIdx : Nat

structure HandlerEntry (P : Nat) where
  sub : Subscription
  dispatch : Dispatch P
  queueIndex : Nat

/-! ## The router -/

/-- `tel` is the telemetry object; `telemetry` says whether the router's pointer to it is set.
`calls` holds the calls of the scripts so far, by their index, which is what their states depend on;
`cerr` collects the lines written to standard error. -/
structure StreamRouter (P : Nat) where
  registry : WindowRegistry P := {}
  tel : Telemetry := {}
  telemetry : Bool := false
  publisher : Option (Publisher P) := none
  handlers : UMap Str (HandlerEntry P) := ∅
  routeTable : UMap Str (List Str) := ∅
  queues : List (ScriptQueue P) := []
  readPositions : List UInt64 := []
  calls : List (Nat × ScriptCall P) := []
  cerr : List Str := []

/-- The default queue capacity, 1024. -/
def defaultQueueCapacity : Capacity := ⟨10, by decide⟩

namespace StreamRouter

def setRoutes (r : StreamRouter P) (routes : UMap Str (List Str)) : StreamRouter P :=
  { r with routeTable := routes }

def setPublisher (r : StreamRouter P) (pub : Publisher P) : StreamRouter P :=
  { r with publisher := some pub }

/-- Creates a script queue and returns its index. -/
def registerScriptQueue (r : StreamRouter P) (ringCapacity : Capacity := defaultQueueCapacity) :
    Nat × StreamRouter P :=
  (r.queues.length,
    { r with
      queues := r.queues ++ [{ ring := RingBuffer.new ringCapacity }]
      readPositions := r.readPositions ++ [0] })

def registerHandler (r : StreamRouter P) (scriptId : Str) (sub : Subscription)
    (dispatch : Dispatch P) (queueIndex : Nat) : StreamRouter P :=
  { r with handlers := r.handlers.insert scriptId ⟨sub, dispatch, queueIndex⟩ }

def unknownTarget (targetId : Str) (ev : Event P) : Str :=
  lit "[StreamRouter] Unknown route target: " ++ targetId ++ lit " for stream " ++ ev.stream
    ++ lit "\n"

def enqueue (r : StreamRouter P) (queueIndex : Nat) (ev : Event P) : StreamRouter P :=
  { r with queues := r.queues.modify queueIndex fun q => q.enqueue ev }

/-- `route` for one target: a script's queue, else an endpoint, else a log line. -/
def routeTarget (r : StreamRouter P) (ev : Event P) (targetId : Str) : StreamRouter P :=
  match r.handlers.lookup targetId with
  | some h => r.enqueue h.queueIndex ev
  | none =>
    match r.publisher with
    | some pub =>
      if pub.hasEndpoint targetId then
        { r with
          publisher := some (pub.publishTo r.tel ev targetId).1
          tel := (pub.publishTo r.tel ev targetId).2 }
      else { r with cerr := r.cerr ++ [unknownTarget targetId ev] }
    | none => { r with cerr := r.cerr ++ [unknownTarget targetId ev] }

/-- `route` before its first target: count the event, push it to the windows. -/
def routeBegin (r : StreamRouter P) (ev : Event P) : StreamRouter P :=
  let tel := if r.telemetry then r.tel.recordEvent ev.stream else r.tel
  let pushed := r.registry.push ev
  { r with
    registry := pushed.registry
    tel := if pushed.dropped then tel.recordDrop else tel }

def targets (r : StreamRouter P) (ev : Event P) : List Str := UMap.getD r.routeTable ev.stream []

/-- The hot ingestion path: every target of the event's stream in order. -/
def route (r : StreamRouter P) (ev : Event P) : StreamRouter P :=
  (r.targets ev).foldl (fun r id => r.routeTarget ev id) (r.routeBegin ev)

/-- `wait_for_trigger` on a queue index. -/
def waitForTrigger (r : StreamRouter P) (queueIdx : Nat) : WaitResult P × StreamRouter P :=
  match r.queues[queueIdx]?, r.readPositions[queueIdx]? with
  | some q, some readPos =>
    match q.waitForTrigger readPos with
    | .blocked => (.blocked, r)
    | .returned ev pos =>
      (.returned ev pos, { r with readPositions := r.readPositions.set queueIdx pos })
  | _, _ => (.returned none 0, r)

end StreamRouter

/-! ## Dispatch -/

namespace Dispatch

/-- The smallest begin of the views of an input, `UINT64_MAX` for none. -/
def minSeq (input : ZeroCopyInput P) : UInt64 :=
  input.windows.toPairs.foldl (fun m w => if w.2.beginSeq < m then w.2.beginSeq else m) uint64Max

/-- The calls of the script so far. -/
def earlier (d : Dispatch P) (r : StreamRouter P) : List (ScriptCall P) :=
  (r.calls.filter fun c => c.1 == d.scriptIdx).map Prod.snd

/-- The dispatch lambda: the input of the script's kind, the call, the statistics. It took
`durationNs`. -/
def call (d : Dispatch P) (r : StreamRouter P) (ev : Event P) (durationNs : UInt64) :
    ScriptOutput P × StreamRouter P :=
  let tel := r.tel.recordScriptInvocation d.script.id durationNs
  match d.script.mode with
  | .zeroCopy =>
    let input := r.registry.makeZeroCopyInput ev d.sub.windows
    let registry := if minSeq input = uint64Max then r.registry
      else r.registry.scriptBeginRead d.scriptIdx (minSeq input)
    (d.script.invokeZeroCopy (d.earlier r) input registry.rings,
      { r with
        registry := registry.scriptEndRead d.scriptIdx
        tel
        calls := r.calls ++ [(d.scriptIdx, .zeroCopy input registry.rings)] })
  | .snapshot =>
    let input := r.registry.makeSnapshotInput ev d.sub.windows d.scriptIdx
    (d.script.invokeSnapshot (d.earlier r) input,
      { r with tel, calls := r.calls ++ [(d.scriptIdx, .snapshot input)] })

end Dispatch

namespace StreamRouter

theorem routeTarget_frame (r : StreamRouter P) (ev : Event P) (id : Str) :
    (r.routeTarget ev id).routeTable = r.routeTable ∧ (r.routeTarget ev id).handlers = r.handlers ∧
      (r.routeTarget ev id).registry = r.registry ∧
      (r.routeTarget ev id).readPositions = r.readPositions := by
  unfold routeTarget
  split
  · exact ⟨rfl, rfl, rfl, rfl⟩
  · split
    · split <;> exact ⟨rfl, rfl, rfl, rfl⟩
    · exact ⟨rfl, rfl, rfl, rfl⟩

/-- The windows after a `route` are those after its `push`. -/
theorem route_registry (r : StreamRouter P) (ev : Event P) :
    (r.route ev).registry = (r.registry.push ev).registry := by
  have h : ∀ (ids : List Str) (r : StreamRouter P),
      (ids.foldl (fun r id => r.routeTarget ev id) r).registry = r.registry := by
    intro ids
    induction ids with
    | nil => intro r; rfl
    | cons id ids ih =>
        intro r
        rw [List.foldl_cons, ih]
        exact (r.routeTarget_frame ev id).2.2.1
  rw [route, h]
  rfl

end StreamRouter

end Mawmaw.Core
