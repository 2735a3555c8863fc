import Mawmaw.Core.StreamRouter
import Mawmaw.Server.Metrics

/-!
# The running pipeline

The threads `start_pipeline` starts, one for each ingestor, one for each script and the one of the
telemetry, on the router they share. A thread is the list of the actions it still has to take.

* `perform` : one action, and the actions it leads to;
* `Pipeline`, `step`, `run` : the shared state and one turn of one thread;
* `unread` : the events in a queue its worker has not taken yet;
* `Pipeline.actions` : what a thread still has to do; `Pipeline.Effect`, `step_effect` : what a turn can
  do.
-/

namespace Mawmaw.Core
open Mawmaw.Lib

namespace RingBuffer
variable {T : Type}

/-- The items a reader at `pos` has not read yet, oldest first. -/
def unread (r : RingBuffer T) (pos : UInt64) : List T :=
  (List.range (r.head - pos).toNat).map fun k => r.slot (seqAt pos k)

theorem seqAt_sub (a pos : UInt64) : seqAt pos (a - pos).toNat = a := by
  rw [seqAt, UInt64.ofNat_toNat, UInt64.add_comm, UInt64.sub_add_cancel]

theorem seqAt_succ (pos : UInt64) (k : Nat) : seqAt (pos + 1) k = seqAt pos (k + 1) := by
  rw [seqAt, seqAt, UInt64.ofNat_add, UInt64.add_assoc, UInt64.add_comm 1]
  rfl

/-- A write a reader has room for appends to what it has not read. -/
theorem unread_write {r : RingBuffer T} {pos : UInt64} (x : T)
    (hbefore : (r.head - pos).toNat ≤ r.capacity.size)
    (hafter : ((r.write x).2.head - pos).toNat ≤ r.capacity.size) :
    (r.write x).2.unread pos = r.unread pos ++ [x] := by
  have hcount : ((r.write x).2.head - pos).toNat = (r.head - pos).toNat + 1 := by
    have hsize := r.capacity.size_le
    have hhead : (r.write x).2.head - pos = r.head - pos + 1 := by
      show r.writeSeq + 1 - pos = r.writeSeq - pos + 1
      rw [UInt64.sub_eq_add_neg, UInt64.sub_eq_add_neg, UInt64.add_assoc, UInt64.add_assoc,
        UInt64.add_comm 1]
    rw [hhead, UInt64.toNat_add, UInt64.toNat_one, Nat.mod_eq_of_lt (by omega)]
  rw [hcount] at hafter
  -- the sequence number written is the one after the unread ones
  have hlast : r.writeSeq = seqAt pos (r.head - pos).toNat := (seqAt_sub r.head pos).symm
  have hslot : ∀ k, (seqAt pos k).toNat % r.capacity.size = (pos.toNat + k) % r.capacity.size :=
    seqAt_mod r.capacity pos
  rw [unread, unread, hcount, List.range_succ, List.map_append, List.map_singleton]
  congr 1
  · refine List.map_congr_left fun k hk => ?_
    have hk := List.mem_range.mp hk
    rw [slot_write, if_neg]
    rw [hlast, hslot, hslot]
    intro heq
    have := eq_of_mod_eq heq (by omega) (by omega)
    omega
  · rw [slot_write, if_pos (by rw [hlast])]

theorem unread_read {r : RingBuffer T} {pos : UInt64} (hlt : pos < r.head) :
    r.unread pos = r.slot pos :: r.unread (pos + 1) := by
  have hlt' := UInt64.lt_iff_toNat_lt.mp hlt
  have hpos : (r.head - pos).toNat = (r.head - (pos + 1)).toNat + 1 := by
    have hhead := r.head.toNat_lt
    have hone : (pos + 1).toNat = pos.toNat + 1 := by
      rw [UInt64.toNat_add, UInt64.toNat_one, Nat.mod_eq_of_lt (by omega)]
    rw [UInt64.toNat_sub_of_le _ _ (UInt64.le_of_lt hlt),
      UInt64.toNat_sub_of_le _ _ (UInt64.le_iff_toNat_le.mpr (by omega)), hone]
    omega
  have hfirst : seqAt pos 0 = pos := UInt64.add_zero pos
  rw [unread, unread, hpos, List.range_succ_eq_map, List.map_cons, hfirst, List.map_map]
  congr 1
  refine List.map_congr_left fun k _ => ?_
  rw [Function.comp_apply, Nat.succ_eq_add_one, seqAt_succ]

end RingBuffer

namespace StreamRouter
variable {P : Nat}

/-- The events in queue `i` its worker has not taken yet. -/
def unread (r : StreamRouter P) (i : Nat) : List (Event P) :=
  match r.queues[i]?, r.readPositions[i]? with
  | some q, some pos => q.ring.unread pos
  | _, _ => []

/-- What queue `i` holds for its worker has room in its ring. -/
def Fits (r : StreamRouter P) (i : Nat) : Prop :=
  ∀ q ∈ r.queues[i]?, ∀ pos ∈ r.readPositions[i]?, (q.ring.head - pos).toNat ≤ q.ring.capacity.size

-- The instance is named: a search may decide the inner statement at every 64-bit position.
instance (r : StreamRouter P) (i : Nat) : Decidable (r.Fits i) :=
  @Option.decidableForallMem _ _ (fun _ => Option.decidableForallMem _) r.queues[i]?

def WithinCapacity (r : StreamRouter P) : Prop := ∀ i, r.Fits i

instance (r : StreamRouter P) : Decidable r.WithinCapacity :=
  decidable_of_iff (∀ qp ∈ r.queues.zip r.readPositions,
      (qp.1.ring.head - qp.2).toNat ≤ qp.1.ring.capacity.size) <| by
    refine ⟨?_, ?_⟩
    · intro h i q hq pos hp
      exact h (q, pos) (List.mem_of_getElem? (List.getElem?_zip_eq_some.mpr ⟨hq, hp⟩))
    · rintro h ⟨q, pos⟩ hmem
      obtain ⟨i, hi⟩ := List.getElem?_of_mem hmem
      obtain ⟨hq, hp⟩ := List.getElem?_zip_eq_some.mp hi
      exact h i q hq pos hp

/-- The calls the publisher's endpoints were given, oldest first. -/
def delivered (r : StreamRouter P) : List (Str × Event P) :=
  (r.publisher.map (·.delivered)).getD []

/-- Every queue has a read position and none is stopped. -/
structure Running (r : StreamRouter P) : Prop where
  positions : r.readPositions.length = r.queues.length
  running : ∀ q ∈ r.queues, q.stopped = false

end StreamRouter

end Mawmaw.Core

namespace Mawmaw.Server
open Mawmaw.Lib Mawmaw.Core Mawmaw.Pub

variable {P : Nat}

/-! ## Threads -/

/-- `ScriptThreadData`. The script's position in the list of all of them is the index of its
queue. -/
structure ScriptThread (P : Nat) where
  outputStream : Str
  dispatch : Dispatch P

/-- An ingestor: the name it gives its events, if any, and the events its plugin emits. Nothing is
handed back to a plugin, so these are all a pipeline sees of it, whatever state it keeps. -/
structure Ingestor (P : Nat) where
  renameTo : Str
  events : List (Event P)

/-- What a thread does next; `emit` renames an event and routes it. -/
inductive Action (P : Nat)
  | emit (name : Str) (ev : Event P)
  | route (ev : Event P)
  | target (ev : Event P) (id : Str)
  | dispatch (i : Nat) (ev : Event P)

/-- `strncpy` into the stream id, unless the name is empty. -/
def rename (name : Str) (ev : Event P) : Event P := if name.isEmpty then ev else ev.setStream name

/-- One action: the router after it, and the actions it leads to. -/
def perform (scripts : List (ScriptThread P)) (durationNs : UInt64) (r : StreamRouter P) :
    Action P → StreamRouter P × List (Action P)
  | .emit name ev => (r, [.route (rename name ev)])
  | .route ev => (r.routeBegin ev, (r.targets ev).map (.target ev))
  | .target ev id => (r.routeTarget ev id, [])
  | .dispatch i ev =>
    match scripts[i]? with
    | none => (r, [])
    | some st =>
      let out := st.dispatch.call r ev durationNs
      (out.2, out.1.emitted.map (.emit st.outputStream))

/-- The shared router, the threads, and the triggers handed to scripts so far. `packing` is the time at
which the telemetry thread woke up, until it has packed the script metrics. -/
structure Pipeline (P : Nat) where
  router : StreamRouter P
  workers : List (List (Action P))
  ingestors : List (List (Action P))
  metrics : List (Action P) := []
  packing : Option UInt64 := none
  triggers : List (Nat × Event P) := []

inductive ThreadId
  | worker (i : Nat)
  | ingestor (j : Nat)
  | metrics
  deriving DecidableEq, Repr

/-- A turn of a thread, with the time its script call takes if it makes one, and the time it reads if
it is the telemetry thread and wakes up. -/
structure Turn where
  thread : ThreadId
  durationNs : UInt64 := 0
  now : UInt64 := 0
  deriving DecidableEq, Repr

def start (r : StreamRouter P) (ings : List (Ingestor P)) : Pipeline P where
  router := r
  workers := List.replicate r.queues.length []
  ingestors := ings.map fun g => g.events.map (.emit g.renameTo)

/-- `emit_metrics` with nothing left to route: awake at `now`, the thread packs the stream metrics, and
next the script metrics. A pack is one step here; `MetricsRun` takes its locks one by one. -/
def packMetrics (s : Pipeline P) (now : UInt64) : Pipeline P :=
  match s.packing with
  | none =>
    if s.router.tel.enabled then
      let packed := s.router.tel.packStreamMetrics P now
      { s with
        router := { s.router with tel := packed.2 }
        metrics := (metricsEvents P now streamsSchema (packed.1.getD [])).map .route
        packing := some now }
    else s
  | some now =>
    let packed := s.router.tel.packScriptMetrics P now now
    { s with
      router := { s.router with tel := packed.2 }
      metrics := (metricsEvents P now scriptsSchema (packed.1.getD [])).map .route
      packing := none }

/-- One turn: the next action of a thread, the next trigger of an idle worker, or a pack. -/
def step (scripts : List (ScriptThread P)) (s : Pipeline P) (t : Turn) : Pipeline P :=
  match t.thread with
  | .ingestor j =>
    match s.ingestors[j]? with
    | some (a :: rest) =>
      let done := perform scripts t.durationNs s.router a
      { s with router := done.1, ingestors := s.ingestors.set j (done.2 ++ rest) }
    | _ => s
  | .worker i =>
    match s.workers[i]? with
    | some (a :: rest) =>
      let done := perform scripts t.durationNs s.router a
      { s with router := done.1, workers := s.workers.set i (done.2 ++ rest) }
    | some [] =>
      match s.router.waitForTrigger i with
      | (.returned (some ev) _, r) =>
        { s with
          router := r
          workers := s.workers.set i [.dispatch i ev]
          triggers := s.triggers ++ [(i, ev)] }
      | _ => s
    | none => s
  | .metrics =>
    match s.metrics with
    | a :: rest =>
      let done := perform scripts t.durationNs s.router a
      { s with router := done.1, metrics := done.2 ++ rest }
    | [] => packMetrics s t.now

def run (scripts : List (ScriptThread P)) (s : Pipeline P) (turns : List Turn) : Pipeline P :=
  turns.foldl (step scripts) s

def turns (n : Nat) (thread : ThreadId) : List Turn := List.replicate n { thread }

/-- Everything is ingested and routed, and every queue is empty. -/
structure Drained (s : Pipeline P) : Prop where
  workers : ∀ as ∈ s.workers, as = []
  ingestors : ∀ as ∈ s.ingestors, as = []
  metrics : s.metrics = []
  queues : ∀ i, s.router.unread i = []

instance (s : Pipeline P) : Decidable (Drained s) :=
  decidable_of_iff ((∀ as ∈ s.workers, as.isEmpty) ∧ (∀ as ∈ s.ingestors, as.isEmpty) ∧
      s.metrics.isEmpty ∧ ∀ i < s.router.queues.length, s.router.unread i = []) <| by
    simp only [List.isEmpty_iff]
    refine ⟨?_, ?_⟩
    · rintro ⟨hw, hi, hm, hq⟩
      refine ⟨hw, hi, hm, fun i => ?_⟩
      rcases Nat.lt_or_ge i s.router.queues.length with hlt | hge
      · exact hq i hlt
      · rw [StreamRouter.unread, List.getElem?_eq_none hge]
    · intro h
      exact ⟨h.workers, h.ingestors, h.metrics, fun i _ => h.queues i⟩

def Pipeline.delivered (s : Pipeline P) : List (Str × Event P) := s.router.delivered

/-! ## What a turn does -/

def Pipeline.actions (s : Pipeline P) : ThreadId → List (Action P)
  | .worker i => (s.workers[i]?).getD []
  | .ingestor j => (s.ingestors[j]?).getD []
  | .metrics => s.metrics

/-- A pack touches the counters only, and leaves events of depth 0 to route. -/
theorem packMetrics_cases (s : Pipeline P) (now : UInt64) :
    packMetrics s now = s ∨ ∃ (tel : Telemetry) (evs : List (Event P)) (packing : Option UInt64),
      (∀ ev ∈ evs, ev.lineageDepth = 0) ∧ packMetrics s now
        = { s with router := { s.router with tel }, metrics := evs.map .route, packing } := by
  unfold packMetrics
  split
  · split
    · exact Or.inr ⟨_, _, _, fun _ => lineageDepth_of_mem_metricsEvents, rfl⟩
    · exact Or.inl rfl
  · exact Or.inr ⟨_, _, _, fun _ => lineageDepth_of_mem_metricsEvents, rfl⟩

/-- What becomes of `s` in turn `t`. -/
inductive Pipeline.Effect (scripts : List (ScriptThread P)) (s : Pipeline P) (t : Turn) :
    Pipeline P → Prop
  | idle (hidle : s.actions t.thread = []) : Effect scripts s t s
  | ingestor {j : Nat} {a : Action P} {rest : List (Action P)} (hthread : t.thread = .ingestor j)
      (hj : s.ingestors[j]? = some (a :: rest)) :
      Effect scripts s t { s with
        router := (perform scripts t.durationNs s.router a).1
        ingestors := s.ingestors.set j ((perform scripts t.durationNs s.router a).2 ++ rest) }
  | worker {i : Nat} {a : Action P} {rest : List (Action P)} (hthread : t.thread = .worker i)
      (hi : s.workers[i]? = some (a :: rest)) :
      Effect scripts s t { s with
        router := (perform scripts t.durationNs s.router a).1
        workers := s.workers.set i ((perform scripts t.durationNs s.router a).2 ++ rest) }
  | trigger {i : Nat} {ev : Event P} {pos : UInt64} {r : StreamRouter P}
      (hthread : t.thread = .worker i) (hi : s.workers[i]? = some [])
      (hwait : s.router.waitForTrigger i = (.returned (some ev) pos, r)) :
      Effect scripts s t { s with
        router := r
        workers := s.workers.set i [.dispatch i ev]
        triggers := s.triggers ++ [(i, ev)] }
  | metrics {a : Action P} {rest : List (Action P)} (hthread : t.thread = .metrics)
      (hm : s.metrics = a :: rest) :
      Effect scripts s t { s with
        router := (perform scripts t.durationNs s.router a).1
        metrics := (perform scripts t.durationNs s.router a).2 ++ rest }
  | pack {tel : Telemetry} {evs : List (Event P)} {packing : Option UInt64}
      (hthread : t.thread = .metrics) (hm : s.metrics = [])
      (hzero : ∀ ev ∈ evs, ev.lineageDepth = 0) :
      Effect scripts s t { s with
        router := { s.router with tel }
        metrics := evs.map .route
        packing }

theorem step_effect (scripts : List (ScriptThread P)) (s : Pipeline P) (t : Turn) :
    s.Effect scripts t (step scripts s t) := by
  have hidle : ∀ id, t.thread = id → s.actions id = [] → s.Effect scripts t s := by
    rintro id rfl h
    exact .idle h
  unfold step
  cases hthread : t.thread with
  | ingestor j =>
      have hactions : s.actions (.ingestor j) = (s.ingestors[j]?).getD [] := rfl
      dsimp only
      split
      · rename_i a rest hj
        exact .ingestor hthread hj
      · rename_i hnone
        refine hidle _ hthread ?_
        rw [hactions]
        cases hj : s.ingestors[j]? with
        | none => rfl
        | some todo =>
            cases todo with
            | nil => rfl
            | cons a rest => exact absurd hj (hnone a rest)
  | worker i =>
      have hactions : s.actions (.worker i) = (s.workers[i]?).getD [] := rfl
      dsimp only
      split
      · rename_i a rest hi
        exact .worker hthread hi
      · rename_i hi
        split
        · rename_i ev pos r hwait
          exact .trigger hthread hi hwait
        · exact hidle _ hthread (by rw [hactions, hi]; rfl)
      · rename_i hi
        exact hidle _ hthread (by rw [hactions, hi]; rfl)
  | metrics =>
      dsimp only
      split
      · rename_i a rest hm
        exact .metrics hthread hm
      · rename_i hm
        rcases packMetrics_cases s t.now with hsame | ⟨tel, evs, packing, hzero, hpack⟩
        · rw [hsame]
          exact hidle _ hthread hm
        · rw [hpack]
          exact .pack hthread hm hzero

end Mawmaw.Server
